import Cardfolio.Proofs.Question.Nodes

/-!
# The clauses of a query in their order

A query's filters can be read from left to right with the groups opened in place
(`Filter.opened`). What is read then is a list of clauses, and the cutting into runs and the
grouping cannot be seen in it any more. So it has to be the clause of the balance and after
it, condition by condition, the clauses that the condition stands for. None is lost or
repeated on the way, and none changes its place.

There are two steps. A filter that is made of some clauses opens into these clauses,
whether there are none, one or more of them (`openedAll_filterOf`). And the runs, one after
the other, are the conditions (`flatten_runs`), however many connections there are. What a
single condition stands for is said without the functions that make its clauses
(`Dictionary.StandsFor`).
-/

namespace Cardfolio

mutual

/-- The clauses of a filter from left to right, groups opened in place. -/
def Filter.opened : Filter → List Clause
  | .clause c => [c]
  | .group _ children => Filter.openedAll children

/-- The clauses of filters from left to right. -/
def Filter.openedAll : List Filter → List Clause
  | [] => []
  | f :: rest => f.opened ++ Filter.openedAll rest

end

namespace Filter

theorem openedAll_eq (filters : List Filter) : openedAll filters = filters.flatMap opened := by
  induction filters with
  | nil => rw [openedAll, List.flatMap_nil]
  | cons f rest ih => rw [openedAll, ih, List.flatMap_cons]

theorem opened_group (logic : Logic) (children : List Filter) :
    opened (.group logic children) = children.flatMap opened := by
  rw [opened, openedAll_eq]

theorem flatMap_opened_clauses (clauses : List Clause) :
    (clauses.map Filter.clause).flatMap opened = clauses := by
  rw [List.flatMap_map]
  simp only [opened]
  exact List.flatMap_singleton' clauses

end Filter

open Dictionary

namespace Dictionary

/-- A filter made of clauses opens into them. -/
theorem openedAll_filterOf (clauses : List Clause) :
    Filter.openedAll (filterOf clauses) = clauses := by
  rw [Filter.openedAll_eq]
  match clauses with
  | [] => rfl
  | [c] => exact Filter.flatMap_opened_clauses [c]
  | first :: second :: rest =>
      show [Filter.group .any ((first :: second :: rest).map .clause)].flatMap Filter.opened = _
      rw [List.flatMap_singleton, Filter.opened_group, Filter.flatMap_opened_clauses]

/-- The filters of all runs open into the clauses of the conditions one after the other. -/
theorem openedAll_runFilters (d : Dictionary) (e : Entities) :
    Filter.openedAll (d.runFilters e) = e.conditions.flatMap d.alternatives := by
  have hrun (run : List Condition) :
      (filterOf (run.flatMap d.alternatives)).flatMap Filter.opened =
        run.flatMap d.alternatives :=
    (Filter.openedAll_eq _).symm.trans (openedAll_filterOf _)
  calc Filter.openedAll (d.runFilters e)
      = (runs e.conditions e.connections).flatMap fun run =>
          (filterOf (run.flatMap d.alternatives)).flatMap Filter.opened := by
        rw [Filter.openedAll_eq, runFilters, ← List.flatMap_def, List.flatMap_assoc]
    _ = (runs e.conditions e.connections).flatMap fun run => run.flatMap d.alternatives := by
        simp only [hrun]
    _ = ((runs e.conditions e.connections).flatMap id).flatMap d.alternatives :=
        List.flatMap_assoc.symm
    _ = e.conditions.flatMap d.alternatives := by rw [List.flatMap_id, flatten_runs]

/-- The clauses that a condition stands for, in their order. A condition that names no field
or compares in no known way stands for none. Any other stands for its own clause; and if its
issuer is a network too, also for the issuer under the name of the network, where the two
differ by more than case, and for the network. -/
inductive StandsFor (d : Dictionary) (c : Condition) : List Clause → Prop
  | nothing (h : ¬ d.Mappable c) : d.StandsFor c []
  | itself {field : String} (h : d.Mappable c) (hfield : d.field? c.subject = some field)
      (hnone : ∀ name network, c.kind = .issuer → c.value = .text name →
        d.issuerNetworks.lookup name ≠ some network) :
      d.StandsFor c [{ field, operator := c.operator, value := c.value }]
  | sameName {field name network : String} (h : d.Mappable c)
      (hfield : d.field? c.subject = some field) (hkind : c.kind = .issuer)
      (hname : c.value = .text name) (hnetwork : d.issuerNetworks.lookup name = some network)
      (hsame : Text.fold network.toList = Text.fold name.toList) :
      d.StandsFor c
        [{ field, operator := c.operator, value := c.value },
          { field := "card_network", operator := "==", value := .text network }]
  | otherName {field name network : String} (h : d.Mappable c)
      (hfield : d.field? c.subject = some field) (hkind : c.kind = .issuer)
      (hname : c.value = .text name) (hnetwork : d.issuerNetworks.lookup name = some network)
      (hother : Text.fold network.toList ≠ Text.fold name.toList) :
      d.StandsFor c
        [{ field, operator := c.operator, value := c.value },
          { field, operator := c.operator, value := .text network },
          { field := "card_network", operator := "==", value := .text network }]

variable {d : Dictionary} {c : Condition}

theorem networkClauses_eq (hnetwork : d.field? "card_network" = some "card_network")
    (clause : Clause) (network : String) :
    d.networkClauses clause network =
      (if Text.fold network.toList = Text.fold clause.value.written.toList then []
        else [{ clause with value := .text network }]) ++
      [{ field := "card_network", operator := "==", value := .text network }] := by
  unfold networkClauses sameSpelling
  rw [hnetwork]
  simp only [beq_iff_eq]

theorem alternatives_standsFor (hnetwork : d.field? "card_network" = some "card_network")
    (hissuer : c.kind = .issuer → c.value.obstacle? = none) :
    d.StandsFor c (d.alternatives c) := by
  by_cases h : d.Mappable c
  · obtain ⟨_, field, hfield⟩ := id h
    obtain ⟨network, hof, hspec⟩ := networkOf?_spec hissuer
    rw [alternatives_eq (clausesOf_of_mappable h hfield hof)]
    cases network with
    | none =>
        refine .itself h hfield fun name network hkind hname hlookup => ?_
        cases (hspec network).mpr ⟨name, hkind, hname, hlookup⟩
    | some network =>
        obtain ⟨name, hkind, hname, hlookup⟩ := (hspec network).mp rfl
        have hwritten : c.value.written = name := by rw [hname]; rfl
        simp only [Option.map_some, Option.getD_some, networkClauses_eq hnetwork, hwritten]
        by_cases hsame : Text.fold network.toList = Text.fold name.toList
        · rw [if_pos hsame]
          exact .sameName h hfield hkind hname hlookup hsame
        · rw [if_neg hsame]
          exact .otherName h hfield hkind hname hlookup hsame
  · rw [alternatives_eq (clausesOf_of_not_mappable h)]
    exact .nothing h

end Dictionary

/-- Whatever was read in a question, and whatever networks are issuers too: the filters of
its query, read from left to right with groups opened in place, are the clause of the
balance, if one is asked for, and then the clauses that each condition stands for, condition
by condition. -/
theorem Question.query_opens_inOrder (networks : List (String × String))
    (dataset text : Datum) (e : Entities) (htext : checkText text = .ok ())
    (hissuer : ∀ c ∈ e.conditions, c.kind = .issuer → c.value.obstacle? = none) :
    ∃ q clauses, query { issuerNetworks := networks } dataset text (some e) = .ok q ∧
      List.Forall₂ (StandsFor { issuerNetworks := networks }) e.conditions clauses ∧
      Filter.openedAll q.filters =
        (e.balance.map balanceFilter).toList ++ clauses.flatten := by
  let d : Dictionary := { issuerNetworks := networks }
  refine ⟨_, e.conditions.map d.alternatives,
    bind_eq_ok.mpr ⟨_, bind_eq_ok.mpr ⟨_, conditionFilters_eq hissuer, rfl⟩,
      bind_eq_ok.mpr ⟨(), htext, rfl⟩⟩, ?_, ?_⟩
  · rw [List.forall₂_map_right_iff, List.forall₂_same]
    exact fun c hc => alternatives_standsFor (field?_cardNetwork networks) (hissuer c hc)
  · have hbalance : Filter.openedAll (e.balance.map fun b => .clause (balanceFilter b)).toList =
        (e.balance.map balanceFilter).toList := by
      cases e.balance with
      | none => rfl
      | some b => rfl
    show Filter.openedAll (_ ++ d.runFilters e) = _
    rw [Filter.openedAll_eq, List.flatMap_append, ← Filter.openedAll_eq, ← Filter.openedAll_eq,
      hbalance, openedAll_runFilters, List.flatMap_def]

/-- An issuer that is a network too, another network as the alternative to it, and a merchant
with an operator that is none of the six. -/
theorem Question.query_opens_inOrder_highestRates :
    checkText .null = .ok () ∧
      (∀ c ∈ highestRates.conditions, c.kind = .issuer → c.value.obstacle? = none) ∧
      ∃ q clauses, query { issuerNetworks := [("American Express", "Amex")] } .null .null
          (some highestRates) = .ok q ∧
        List.Forall₂ (StandsFor { issuerNetworks := [("American Express", "Amex")] })
          highestRates.conditions clauses ∧
        Filter.openedAll q.filters =
          (highestRates.balance.map balanceFilter).toList ++ clauses.flatten := by
  exact ⟨rfl, obstacle?_highestRates,
    query_opens_inOrder _ _ _ _ rfl obstacle?_highestRates⟩

end Cardfolio
