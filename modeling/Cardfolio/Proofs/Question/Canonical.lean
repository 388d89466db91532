import Cardfolio.Proofs.Question.Runs
import Cardfolio.Proofs.Success

/-!
# The form of a question's query

A query that is made from a question has a narrow form, whatever was read in the
question. It names fields by their canonical names only, and operators, figures and
directions that there are. Its filters are flat: each is a clause or a group of at
least two alternatives that are clauses, so no group has a group in it, and none is
there for a single clause.

Each part of a query is made by a function of its own, and each of these has its lemma
here. A part resolves the name that it is given or is left out, so all names come from
`Dictionary.field?` and are canonical. Filters come from `filterOf`, which has one case
for each form. What is left is that a query there is: nothing can fail but the search for
the network of an issuer, and that only for values that cannot be searched for.
-/

namespace Cardfolio

/-- The canonical name of a field. -/
def Field.IsName (name : String) : Prop :=
  ∃ f : Field, f.name = name

/-- A clause about a field of a card, with an operator that compares. -/
structure Clause.IsCanonical (c : Clause) : Prop where
  field : Field.IsName c.field
  operator : ∃ comparison : Comparison, comparison.symbol = c.operator

/-- A clause, or alternatives to choose from. -/
inductive Filter.IsFlat : Filter → Prop
  | clause {c : Clause} (hc : c.IsCanonical) : IsFlat (.clause c)
  | group {cs : List Clause} (hlength : 2 ≤ cs.length) (hcs : ∀ c ∈ cs, c.IsCanonical) :
      IsFlat (.group .any (cs.map .clause))

/-- A figure that exists, of a field. A count is of the cards, and nothing else is. -/
structure Aggregation.IsCanonical (a : Aggregation) : Prop where
  operation : a.operation.isKnown = true
  countsCards : a.field = none ↔ a.operation = .count
  field : ∀ name ∈ a.field, Field.IsName name

structure Query.IsCanonical (q : Query) : Prop where
  filters : ∀ f ∈ q.filters, f.IsFlat
  sorting : ∀ s ∈ q.sorting, Field.IsName s.field ∧ s.direction.name ∈ ["asc", "desc"]
  aggregations : ∀ a ∈ q.aggregations, a.IsCanonical
  grouping : ∀ name ∈ q.grouping, Field.IsName name
  distinct : ∀ w ∈ q.distinct, Field.IsName w.field

theorem Direction.name_mem (direction : Direction) : direction.name ∈ ["asc", "desc"] := by
  cases direction <;> decide

namespace Dictionary

variable {d : Dictionary}

theorem isName_of_field? {name canonical : String} (h : d.field? name = some canonical) :
    Field.IsName canonical := by
  obtain ⟨f, _, rfl⟩ := Option.map_eq_some_iff.mp h
  exact ⟨f, rfl⟩

theorem isCanonical_of_mem_figures {wish : Option Aggregation} {a : Aggregation}
    (h : a ∈ d.figures wish) : a.IsCanonical := by
  unfold figures at h
  split at h
  · cases h
  · cases h
  · rw [List.mem_singleton.mp h]
    exact ⟨rfl, ⟨fun _ => rfl, fun _ => rfl⟩, nofun⟩
  · next operation field hother hcount =>
      split at h
      · next name hname =>
          obtain ⟨_, _, hname⟩ := Option.bind_eq_some_iff.mp hname
          rw [List.mem_singleton.mp h]
          refine ⟨?_, ⟨nofun, fun hoperation => (hcount hoperation).elim⟩, ?_⟩
          · cases operation with
            | other name => exact (hother name rfl).elim
            | sum | avg | count | min | max => rfl
          · intro name' hname'
            obtain rfl := Option.some.inj hname'
            exact isName_of_field? hname
      · cases h

theorem isName_of_distinct {wish : DistinctWish} {w : Distinct} (h : d.distinct wish = some w) :
    Field.IsName w.field := by
  obtain ⟨_, hfield, rfl⟩ := Option.map_eq_some_iff.mp h
  exact isName_of_field? hfield

theorem isName_of_sorting {property modifier : Option String} {s : Sorting}
    (h : d.sorting property modifier = some s) : Field.IsName s.field := by
  simp only [sorting, bind, Option.bind_eq_some_iff] at h
  obtain ⟨_, _, _, _, _, _, _, hfield, hs⟩ := h
  rw [← Option.some.inj hs]
  exact isName_of_field? hfield

theorem isCanonical_balanceFilter (b : BalanceFilter) : (balanceFilter b).IsCanonical := by
  cases b with
  | positive => exact ⟨⟨.currentBalance, rfl⟩, .above, rfl⟩
  | zero => exact ⟨⟨.currentBalance, rfl⟩, .equals, rfl⟩

theorem exists_networkOf? {c : Condition}
    (hissuer : c.kind = .issuer → c.value.obstacle? = none) :
    ∃ network, d.networkOf? c = .ok network := by
  unfold networkOf?
  split
  · exact ⟨none, rfl⟩
  · next hkind =>
      rw [hissuer (by simpa using hkind)]
      split
      · exact ⟨_, rfl⟩
      · next h _ => cases h
      · exact ⟨none, rfl⟩

theorem isCanonical_of_mem_networkClauses {clause : Clause} (hclause : clause.IsCanonical)
    {network : String} {c : Clause} (h : c ∈ d.networkClauses clause network) :
    c.IsCanonical := by
  unfold networkClauses at h
  rcases List.mem_append.mp h with h | h
  · split at h
    · cases h
    · rw [List.mem_singleton.mp h]
      exact ⟨hclause.field, hclause.operator⟩
  · split at h
    · next field hfield =>
        rw [List.mem_singleton.mp h]
        exact ⟨isName_of_field? hfield, .equals, rfl⟩
    · cases h

theorem exists_clausesOf {c : Condition}
    (hissuer : c.kind = .issuer → c.value.obstacle? = none) :
    ∃ clauses, d.clausesOf c = .ok clauses ∧ ∀ clause ∈ clauses, clause.IsCanonical := by
  unfold clausesOf
  split
  · next comparison field hcomparison hfield =>
      obtain ⟨network, hnetwork⟩ := exists_networkOf? (d := d) hissuer
      have hown : Clause.IsCanonical { field, operator := c.operator, value := c.value } :=
        ⟨isName_of_field? hfield, comparison, by
          simpa using List.find?_some hcomparison⟩
      rw [hnetwork]
      cases network with
      | none => exact ⟨_, rfl, List.forall_mem_singleton.mpr hown⟩
      | some network =>
          exact ⟨_, rfl, List.forall_mem_cons.mpr
            ⟨hown, fun _ h => isCanonical_of_mem_networkClauses hown h⟩⟩
  · exact ⟨[], rfl, fun _ h => (List.not_mem_nil h).elim⟩

theorem isFlat_of_mem_filterOf {clauses : List Clause} (h : ∀ c ∈ clauses, c.IsCanonical)
    {f : Filter} (hf : f ∈ filterOf clauses) : f.IsFlat := by
  match clauses with
  | [] => cases hf
  | [c] =>
      rw [List.mem_singleton.mp hf]
      exact .clause (h c List.mem_cons_self)
  | first :: second :: rest =>
      rw [List.mem_singleton.mp hf]
      exact .group (Nat.le_add_left 2 rest.length) h

theorem exists_runFilter {run : List Condition}
    (hissuer : ∀ c ∈ run, c.kind = .issuer → c.value.obstacle? = none) :
    ∃ filters, d.runFilter run = .ok filters ∧ ∀ f ∈ filters, f.IsFlat := by
  obtain ⟨clauses, hclauses, hcanonical⟩ :=
    exists_mapM_eq_ok fun c hc => exists_clausesOf (d := d) (hissuer c hc)
  refine ⟨_, bind_eq_ok.mpr ⟨clauses, hclauses, rfl⟩, fun f hf => ?_⟩
  exact isFlat_of_mem_filterOf (List.forall_mem_flatten.mpr hcanonical) hf

theorem exists_conditionFilters {conditions : List Condition}
    (hissuer : ∀ c ∈ conditions, c.kind = .issuer → c.value.obstacle? = none)
    (connections : List Logic) :
    ∃ filters, d.conditionFilters conditions connections = .ok filters ∧
      ∀ f ∈ filters, f.IsFlat := by
  have hruns : ∀ run ∈ runs conditions connections, ∀ c ∈ run, c ∈ conditions := by
    intro run hrun c hc
    obtain ⟨first, last, _, rfl⟩ := mem_runs_iff.mp hrun
    obtain ⟨k, _, _, hk⟩ := mem_stretch_iff.mp hc
    exact List.mem_of_getElem? hk
  obtain ⟨filters, hfilters, hflat⟩ := exists_mapM_eq_ok fun run hrun =>
    exists_runFilter (d := d) fun c hc => hissuer c (hruns run hrun c hc)
  exact ⟨_, bind_eq_ok.mpr ⟨filters, hfilters, rfl⟩, List.forall_mem_flatten.mpr hflat⟩

/-- A query can be made from what was read when the issuers can be searched for, and has
the narrow form. -/
theorem exists_query (dataset : Datum) {e : Entities}
    (hissuer : ∀ c ∈ e.conditions, c.kind = .issuer → c.value.obstacle? = none) :
    ∃ q, d.query dataset e = .ok q ∧ q.IsCanonical := by
  obtain ⟨filters, hfilters, hflat⟩ := exists_conditionFilters (d := d) hissuer e.connections
  refine ⟨_, bind_eq_ok.mpr ⟨filters, hfilters, rfl⟩, ?_, ?_, ?_, ?_, ?_⟩
  · show ∀ f ∈ _ ++ filters, _
    refine List.forall_mem_append.mpr ⟨fun f hf => ?_, hflat⟩
    obtain ⟨b, _, rfl⟩ := Option.map_eq_some_iff.mp (Option.mem_toList.mp hf)
    exact .clause (isCanonical_balanceFilter b)
  · exact fun s hs => ⟨isName_of_sorting hs, Direction.name_mem s.direction⟩
  · exact fun a ha => isCanonical_of_mem_figures ha
  · intro name hname
    obtain ⟨_, _, hfield⟩ := Option.bind_eq_some_iff.mp hname
    exact isName_of_field? hfield
  · intro w hw
    obtain ⟨wish, _, hdistinct⟩ := Option.bind_eq_some_iff.mp hw
    exact isName_of_distinct hdistinct

end Dictionary

namespace Question

/-- Whatever was read in a question, and whatever networks are issuers too, there is a
query for it, and it has the narrow form. -/
theorem query_isCanonical (networks : List (String × String)) (dataset text : Datum)
    (e : Entities) (htext : checkText text = .ok ())
    (hissuer : ∀ c ∈ e.conditions, c.kind = .issuer → c.value.obstacle? = none) :
    ∃ q, query { issuerNetworks := networks } dataset text (some e) = .ok q ∧
      q.IsCanonical := by
  obtain ⟨q, hq, hcanonical⟩ :=
    Dictionary.exists_query (d := { issuerNetworks := networks }) dataset hissuer
  exact ⟨q, bind_eq_ok.mpr ⟨q, hq, bind_eq_ok.mpr ⟨(), htext, rfl⟩⟩, hcanonical⟩

/-- The highest rates by bank, of an issuer that is a network too or of another network,
and at a merchant that is compared with an operator that there is not. -/
def highestRates : Entities :=
  { property := some "apr"
    modifier := some "highest"
    balance := some .positive
    grouping := some "bank"
    figure := some { operation := .max, field := some "interest rate" }
    distinct := some { field := none, details := true }
    connections := [.any, .all]
    conditions := [
      { kind := .issuer, subject := "issuer", operator := "=",
        value := .text "American Express", span := ⟨0, 4⟩ },
      { kind := .network, subject := "card_network", operator := "==",
        value := .text "Visa", span := ⟨8, 12⟩ },
      { kind := .merchant, subject := "merchant", operator := "~",
        value := .null, span := ⟨16, 22⟩ }] }

theorem obstacle?_highestRates :
    ∀ c ∈ highestRates.conditions, c.kind = .issuer → c.value.obstacle? = none := by
  intro c hc _
  simp only [highestRates, List.mem_cons, List.not_mem_nil, or_false] at hc
  rcases hc with rfl | rfl | rfl <;> rfl

theorem query_isCanonical_highestRates :
    checkText .null = .ok () ∧
      (∀ c ∈ highestRates.conditions, c.kind = .issuer → c.value.obstacle? = none) ∧
      ∃ q, query { issuerNetworks := [("American Express", "Amex")] } .null .null
          (some highestRates) = .ok q ∧ q.IsCanonical := by
  exact ⟨rfl, obstacle?_highestRates,
    query_isCanonical _ _ _ _ rfl obstacle?_highestRates⟩

end Question

end Cardfolio
