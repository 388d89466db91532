import Cardfolio.Proofs.Card.Aliases
import Cardfolio.Proofs.Query.Filters
import Cardfolio.Proofs.Question.Runs

/-!
# What the filters of a question let through

A question's conditions become filters by way of runs, clauses and groups. This
file says what comes out, without any of the three. A card passes when its balance
is as asked and, for every maximal run of alternatives, one of the conditions in it
that stand for anything at all is met. `Meets` is what it takes to meet a condition:
the field it names compares with its value, or, for an issuer that is a network too,
with the other spelling of the network, or the card's network is that one.

The way there has one lemma for each step of the construction. `clausesOf_spec` is
the heart: a condition's alternatives are none exactly when it stands for nothing,
and otherwise one of them holds exactly when the condition is met. Above it nothing
is left to do but to carry that through a run, through all runs, and through the
query. Where the filters have answers no step depends on the order in which the
alternatives are tried, and a readable card has an answer to every filter that compares
what can be written.
-/

namespace Cardfolio

open Dictionary

/-- A condition that stands for something: its operator is one of the six, and its
subject is a name for a field. -/
def Dictionary.Mappable (d : Dictionary) (c : Condition) : Prop :=
  (∃ comparison : Comparison, comparison.symbol = c.operator) ∧
    ∃ field, d.field? c.subject = some field

/-- What a card must have to meet a condition. The issuer `name` is recorded as a
network too, which may be spelled in another way. -/
def Dictionary.Meets (d : Dictionary) (card : Card) (c : Condition) : Prop :=
  ∃ field, d.field? c.subject = some field ∧
    (card.Satisfies field c.operator c.value ∨
      ∃ name network, c.kind = .issuer ∧ c.value = .text name ∧
        d.issuerNetworks.lookup name = some network ∧
        ((Text.fold network.toList ≠ Text.fold name.toList ∧
            card.Satisfies field c.operator (.text network)) ∨
          card.Satisfies "card_network" "==" (.text network)))

/-- A card whose balance is the one that is asked for. -/
def BalanceFilter.HoldsOf (card : Card) : Option BalanceFilter → Prop
  | some .positive => card.Satisfies "current_balance" ">" (.whole 0)
  | some .zero => card.Satisfies "current_balance" "==" (.whole 0)
  | none => True

/-- The conditions of every run are met by one that stands for something, if there
is such a one. -/
def Dictionary.MeetsRuns (d : Dictionary) (card : Card) (e : Entities) : Prop :=
  ∀ first last, IsRun e.connections e.conditions.length first last →
    (∃ c ∈ stretch e.conditions first last, d.Mappable c) →
      ∃ c ∈ stretch e.conditions first last, d.Mappable c ∧ d.Meets card c

/-! ## One condition -/

theorem ofSymbol?_eq_some_iff {operator : String} {comparison : Comparison} :
    Comparison.ofSymbol? operator = some comparison ↔ comparison.symbol = operator := by
  constructor
  · intro h
    have := List.find?_some h
    simpa using this
  · intro h
    rw [← h]
    exact Comparison.ofSymbol?_symbol comparison

/-- One of the alternatives holds of a card. -/
def Clause.AnyHolds (card : Card) (clauses : List Clause) : Prop :=
  ∃ clause ∈ clauses, clause.holds card = .ok true

theorem Clause.anyHolds_cons {card : Card} {clause : Clause} {clauses : List Clause} :
    Clause.AnyHolds card (clause :: clauses) ↔
      clause.holds card = .ok true ∨ Clause.AnyHolds card clauses := by
  unfold Clause.AnyHolds
  rw [List.exists_mem_cons_iff]

theorem Clause.anyHolds_append {card : Card} {left right : List Clause} :
    Clause.AnyHolds card (left ++ right) ↔
      Clause.AnyHolds card left ∨ Clause.AnyHolds card right := by
  induction left with
  | nil => exact ⟨Or.inr, fun h => h.resolve_left fun ⟨_, h, _⟩ => List.not_mem_nil h⟩
  | cons clause left ih =>
      rw [List.cons_append, Clause.anyHolds_cons, Clause.anyHolds_cons, ih, or_assoc]

theorem Clause.not_anyHolds_nil (card : Card) : ¬ Clause.AnyHolds card [] :=
  fun ⟨_, h, _⟩ => List.not_mem_nil h

theorem Clause.anyHolds_singleton {card : Card} {clause : Clause} :
    Clause.AnyHolds card [clause] ↔ clause.holds card = .ok true := by
  rw [Clause.anyHolds_cons]
  exact ⟨fun h => h.resolve_right (Clause.not_anyHolds_nil card), Or.inl⟩

namespace Dictionary

variable {d : Dictionary} {card : Card} {c : Condition}

/-- The further clauses of an issuer that is also a network. -/
theorem anyHolds_networkClauses (hnetwork : d.field? "card_network" = some "card_network")
    {clause : Clause} {name network : String} (hname : clause.value = .text name) :
    Clause.AnyHolds card (d.networkClauses clause network) ↔
      (Text.fold network.toList ≠ Text.fold name.toList ∧
          card.Satisfies clause.field clause.operator (.text network)) ∨
        card.Satisfies "card_network" "==" (.text network) := by
  have hwritten : clause.value.written = name := by rw [hname]; rfl
  unfold networkClauses
  rw [hnetwork, Clause.anyHolds_append, Clause.anyHolds_singleton, Clause.holds_eq_true_iff,
    hwritten]
  refine or_congr_left ?_
  unfold sameSpelling
  by_cases hsame : Text.fold network.toList = Text.fold name.toList
  · rw [if_pos (by rw [beq_iff_eq]; exact hsame)]
    exact ⟨fun h => (Clause.not_anyHolds_nil card h).elim, fun h => (h.1 hsame).elim⟩
  · rw [if_neg (by rw [beq_iff_eq]; exact hsame), Clause.anyHolds_singleton,
      Clause.holds_eq_true_iff]
    exact ⟨fun h => ⟨hsame, h⟩, fun h => h.2⟩

theorem networkOf?_of_ne_issuer (h : c.kind ≠ .issuer) : d.networkOf? c = .ok none := by
  unfold networkOf?
  rw [if_pos (by rw [bne_iff_ne]; exact h)]

theorem networkOf?_of_issuer (h : c.kind = .issuer) {name : String}
    (hname : c.value = .text name) :
    d.networkOf? c = .ok (d.issuerNetworks.lookup name) := by
  unfold networkOf?
  rw [h, hname]
  rfl

theorem obstacle?_of_text (h : ∃ s, c.value = .text s) : c.value.obstacle? = none := by
  obtain ⟨s, hs⟩ := h
  rw [hs]
  rfl

/-- The network of a condition whose issuer can be searched for. Only a text is found. -/
theorem networkOf?_spec (hissuer : c.kind = .issuer → c.value.obstacle? = none) :
    ∃ network, d.networkOf? c = .ok network ∧
      ∀ s, network = some s ↔
        ∃ name, c.kind = .issuer ∧ c.value = .text name ∧
          d.issuerNetworks.lookup name = some s := by
  by_cases h : c.kind = .issuer
  · by_cases htext : ∃ name, c.value = .text name
    · obtain ⟨name, hname⟩ := htext
      refine ⟨_, networkOf?_of_issuer h hname, fun s => ?_⟩
      constructor
      · intro hs
        exact ⟨name, h, hname, hs⟩
      · intro hs
        obtain ⟨name', _, hname', hs⟩ := hs
        rw [hname, Datum.text.injEq] at hname'
        rw [hname']
        exact hs
    · refine ⟨none, ?_, fun s => ⟨nofun, fun ⟨name, _, hname, _⟩ => (htext ⟨name, hname⟩).elim⟩⟩
      unfold networkOf?
      rw [h, hissuer h]
      split
      · rfl
      · split
        · next name hname => exact (htext ⟨name, hname⟩).elim
        · next hsome _ => cases hsome
        · rfl
  · refine ⟨none, networkOf?_of_ne_issuer h, fun s => ?_⟩
    exact ⟨nofun, fun ⟨_, hk, _⟩ => (h hk).elim⟩

/-- The alternatives that a condition stands for. -/
def alternatives (d : Dictionary) (c : Condition) : List Clause :=
  match d.clausesOf c with
  | .ok clauses => clauses
  | .error _ => []

theorem alternatives_eq {clauses : List Clause} (h : d.clausesOf c = .ok clauses) :
    d.alternatives c = clauses := by
  rw [alternatives, h]

/-- A condition that stands for nothing has no alternatives. -/
theorem clausesOf_of_not_mappable (h : ¬ d.Mappable c) : d.clausesOf c = .ok [] := by
  unfold clausesOf
  split
  · next comparison field hcomparison hfield =>
      exact (h ⟨⟨comparison, ofSymbol?_eq_some_iff.mp hcomparison⟩, field, hfield⟩).elim
  · rfl

/-- A condition that stands for something has its own clause and, if its issuer is a
network too, the clauses of the network. -/
theorem clausesOf_of_mappable (h : d.Mappable c) {field : String}
    (hfield : d.field? c.subject = some field) {network : Option String}
    (hof : d.networkOf? c = .ok network) :
    d.clausesOf c = .ok (
      let clause : Clause := { field, operator := c.operator, value := c.value }
      clause :: (network.map (d.networkClauses clause)).getD []) := by
  obtain ⟨⟨comparison, hcomparison⟩, _⟩ := h
  unfold clausesOf
  rw [ofSymbol?_eq_some_iff.mpr hcomparison, hfield]
  dsimp only
  rw [hof]
  cases network with
  | none => rfl
  | some network => rfl

/-- The alternatives of a condition can be listed, there are some if it stands for
something, and then one of them holds when the condition is met. -/
theorem clausesOf_spec (hnetwork : d.field? "card_network" = some "card_network")
    (hissuer : c.kind = .issuer → ∃ s, c.value = .text s) :
    d.clausesOf c = .ok (d.alternatives c) ∧
      (d.alternatives c ≠ [] ↔ d.Mappable c) ∧
      ∀ card, Clause.AnyHolds card (d.alternatives c) ↔ d.Mappable c ∧ d.Meets card c := by
  by_cases h : d.Mappable c
  · obtain ⟨_, field, hfield⟩ := id h
    obtain ⟨network, hof, hspec⟩ :=
      networkOf?_spec fun hkind => obstacle?_of_text (hissuer hkind)
    have hclauses := clausesOf_of_mappable h hfield hof
    rw [alternatives_eq hclauses]
    refine ⟨hclauses, ⟨fun _ => h, fun _ => List.cons_ne_nil _ _⟩, fun card => ?_⟩
    rw [Clause.anyHolds_cons, Clause.holds_eq_true_iff, and_iff_right h]
    constructor
    · intro hany
      refine ⟨field, hfield, hany.imp id fun hother => ?_⟩
      cases network with
      | none => exact (Clause.not_anyHolds_nil card hother).elim
      | some network =>
          obtain ⟨name, hkind, hname, hlookup⟩ := (hspec network).mp rfl
          exact ⟨name, network, hkind, hname, hlookup,
            (anyHolds_networkClauses hnetwork hname).mp hother⟩
    · intro hmeets
      obtain ⟨field', hfield', hmeets⟩ := hmeets
      obtain rfl : field = field' := Option.some.inj (hfield.symm.trans hfield')
      refine hmeets.imp id fun hother => ?_
      obtain ⟨name, s, hkind, hname, hlookup, hholds⟩ := hother
      obtain rfl := (hspec s).mpr ⟨name, hkind, hname, hlookup⟩
      exact (anyHolds_networkClauses hnetwork hname).mpr hholds
  · have hclauses := clausesOf_of_not_mappable h
    rw [alternatives_eq hclauses]
    refine ⟨hclauses, ⟨fun hne => (hne rfl).elim, fun hm => (h hm).elim⟩, fun card => ?_⟩
    exact ⟨fun hany => (Clause.not_anyHolds_nil card hany).elim, fun hm => (h hm.1).elim⟩

/-! ## One run -/

/-- What a filter made of alternatives lets through: everything if there are none. -/
theorem filterOf_spec {clauses : List Clause}
    (hanswers : ∀ f ∈ filterOf clauses, ∃ b, Filter.holds card f = .ok b) :
    (∀ f ∈ filterOf clauses, Filter.holds card f = .ok true) ↔
      (clauses ≠ [] → Clause.AnyHolds card clauses) := by
  match clauses with
  | [] => exact ⟨fun _ h => (h rfl).elim, fun _ _ h => (List.not_mem_nil h).elim⟩
  | [clause] =>
      rw [filterOf, List.forall_mem_singleton, Filter.holds_clause, Clause.anyHolds_singleton]
      exact ⟨fun h _ => h, fun h => h (List.cons_ne_nil _ _)⟩
  | first :: second :: rest =>
      obtain ⟨b, hb⟩ := hanswers _ List.mem_cons_self
      rw [Filter.holds] at hb
      show (∀ f ∈ [Filter.group .any ((first :: second :: rest).map .clause)], _) ↔ _
      rw [List.forall_mem_singleton, Filter.holds, Filter.anyHolds_eq_true_iff hb]
      simp only [List.mem_map, exists_exists_and_eq_and, Filter.holds_clause]
      exact ⟨fun h _ => h, fun h => h (List.cons_ne_nil _ _)⟩

theorem anyHolds_flatMap {conditions : List Condition} :
    Clause.AnyHolds card (conditions.flatMap d.alternatives) ↔
      ∃ c ∈ conditions, Clause.AnyHolds card (d.alternatives c) := by
  unfold Clause.AnyHolds
  simp only [List.mem_flatMap]
  constructor
  · rintro ⟨clause, ⟨c, hc, hclause⟩, h⟩
    exact ⟨c, hc, clause, hclause, h⟩
  · rintro ⟨c, hc, clause, hclause, h⟩
    exact ⟨clause, ⟨c, hc, hclause⟩, h⟩

/-- Conditions whose issuers are texts. -/
def TextIssuers (conditions : List Condition) : Prop :=
  ∀ c ∈ conditions, c.kind = .issuer → ∃ s, c.value = .text s

/-- The filters of a run of conditions let a card through when one of those that
stand for something is met. -/
theorem runFilter_spec (hnetwork : d.field? "card_network" = some "card_network")
    {run : List Condition} (hissuer : TextIssuers run) :
    d.runFilter run = .ok (filterOf (run.flatMap d.alternatives)) ∧
      ∀ card : Card,
        (∀ f ∈ filterOf (run.flatMap d.alternatives), ∃ b, Filter.holds card f = .ok b) →
        ((∀ f ∈ filterOf (run.flatMap d.alternatives), Filter.holds card f = .ok true) ↔
          ((∃ c ∈ run, d.Mappable c) → ∃ c ∈ run, d.Mappable c ∧ d.Meets card c)) := by
  have hspec : ∀ c ∈ run, _ := fun c hc => clausesOf_spec hnetwork (hissuer c hc)
  constructor
  · unfold runFilter
    rw [bind_eq_ok]
    exact ⟨_, mapM_eq_ok_map fun c hc => (hspec c hc).1, rfl⟩
  · intro card hanswers
    rw [filterOf_spec hanswers, anyHolds_flatMap]
    refine imp_congr ?_ ?_
    · rw [ne_eq, List.flatMap_eq_nil_iff, not_forall]
      simp only [Classical.not_imp]
      exact exists_congr fun c => and_congr_right fun hc => (hspec c hc).2.1
    · exact exists_congr fun c => and_congr_right fun hc => (hspec c hc).2.2 card

theorem TextIssuers.stretch {conditions : List Condition} (h : TextIssuers conditions)
    (first last : Nat) : TextIssuers (stretch conditions first last) := by
  intro c hc
  obtain ⟨k, _, _, hk⟩ := mem_stretch_iff.mp hc
  exact h c (List.mem_of_getElem? hk)

/-- The filters of all conditions let a card through when every run is met. -/
theorem conditionFilters_spec (hnetwork : d.field? "card_network" = some "card_network")
    {e : Entities} (hissuer : TextIssuers e.conditions) :
    ∃ filters, d.conditionFilters e.conditions e.connections = .ok filters ∧
      ∀ card : Card, (∀ f ∈ filters, ∃ b, Filter.holds card f = .ok b) →
        ((∀ f ∈ filters, Filter.holds card f = .ok true) ↔ d.MeetsRuns card e) := by
  have hrun : ∀ run ∈ runs e.conditions e.connections, TextIssuers run := by
    intro run hmem
    obtain ⟨first, last, _, rfl⟩ := mem_runs_iff.mp hmem
    exact hissuer.stretch first last
  refine ⟨_, bind_eq_ok.mpr
    ⟨_, mapM_eq_ok_map fun run hmem => (runFilter_spec hnetwork (hrun run hmem)).1, rfl⟩, ?_⟩
  intro card hanswers
  rw [List.forall_mem_flatten, List.forall_mem_map] at hanswers ⊢
  constructor
  · intro h first last hfirst hmappable
    have hmem := mem_runs_iff.mpr ⟨first, last, hfirst, rfl⟩
    exact ((runFilter_spec hnetwork (hrun _ hmem)).2 card (hanswers _ hmem)).mp (h _ hmem)
      hmappable
  · intro h run hmem
    refine ((runFilter_spec hnetwork (hrun run hmem)).2 card (hanswers run hmem)).mpr ?_
    obtain ⟨first, last, hfirst, rfl⟩ := mem_runs_iff.mp hmem
    exact h first last hfirst

theorem balanceFilter_spec (b : Option BalanceFilter) :
    (∀ f ∈ (b.map fun b => Filter.clause (balanceFilter b)).toList,
        Filter.holds card f = .ok true) ↔ BalanceFilter.HoldsOf card b := by
  cases b with
  | none => exact ⟨fun _ => trivial, fun _ _ h => (List.not_mem_nil h).elim⟩
  | some b =>
      rw [Option.map_some, Option.toList_some, List.forall_mem_singleton, Filter.holds_clause,
        Clause.holds_eq_true_iff]
      cases b with
      | positive => exact Iff.rfl
      | zero => exact Iff.rfl

end Dictionary

/-! ## The whole query -/

/-- The usual name for the network of a card. -/
theorem field?_cardNetwork (networks : List (String × String)) :
    ({ issuerNetworks := networks } : Dictionary).field? "card_network"
      = some "card_network" := by
  simp only [field?, AliasTable.resolve?, AliasTable.lookup?_standard]
  decide

/-- Whatever was read in a question, and whatever networks are issuers too, the
query for it lets exactly those cards through that have the balance that is asked
for and meet every run of alternatives, as far as its filters have answers. On a card
whose computed fields have values, a filter has none only where it compares what cannot
be written. -/
theorem Question.query_filters_hold_iff (networks : List (String × String))
    (dataset : Datum) (text : String) (e : Entities)
    (hissuer : ∀ c ∈ e.conditions, c.kind = .issuer → ∃ s, c.value = .text s) :
    ∃ q, Question.query { issuerNetworks := networks } dataset (.text text) (some e) = .ok q ∧
      ∀ card : Card,
        (card.Readable → ∀ f ∈ q.filters, (∃ b, Filter.holds card f = .ok b) ∨
          Filter.holds card f = .error .longNumber ∧ f.ComparesLong card) ∧
        ((∀ f ∈ q.filters, ∃ b, Filter.holds card f = .ok b) →
          ((∀ f ∈ q.filters, Filter.holds card f = .ok true) ↔
            BalanceFilter.HoldsOf card e.balance ∧
              Dictionary.MeetsRuns { issuerNetworks := networks } card e)) := by
  obtain ⟨filters, hfilters, hspec⟩ :=
    conditionFilters_spec (field?_cardNetwork networks) (e := e) hissuer
  refine ⟨_, bind_eq_ok.mpr ⟨_, bind_eq_ok.mpr ⟨filters, hfilters, rfl⟩,
    bind_eq_ok.mpr ⟨(), rfl, rfl⟩⟩, fun card => ⟨fun hcard f _ => ?_, ?_⟩⟩
  · rcases (Filter.holds_settles_of_readable hcard f).exists_or with h | ⟨_, hnever⟩ | h
    · exact Or.inl h
    · exact hnever.elim
    · exact Or.inr h
  · show (∀ f ∈ _ ++ filters, _) → ((∀ f ∈ _ ++ filters, _) ↔ _)
    rw [List.forall_mem_append, List.forall_mem_append, balanceFilter_spec]
    exact fun hanswers => and_congr_right fun _ => hspec card hanswers.2

/-- Cards with a balance that are American Express cards or owe more than a thousand. -/
def amexOrLarge : Entities :=
  { balance := some .positive
    connections := [.any]
    conditions := [
      { kind := .issuer, subject := "issuer", operator := "=",
        value := .text "American Express", span := ⟨0, 16⟩ },
      { kind := .comparison, subject := "balance", operator := ">",
        value := .number (.whole 1000), span := ⟨20, 36⟩ }] }

/-- A card of which only the network and the balance are known. -/
def amexCard : Card :=
  Card.ofCells fun f =>
    match f with
    | .cardNetwork => .text "Amex"
    | .currentBalance => .whole 20
    | _ => .null

theorem Question.query_filters_hold_iff_amexOrLarge :
    (∀ c ∈ amexOrLarge.conditions, c.kind = .issuer → ∃ s, c.value = .text s) ∧
      amexCard.Readable ∧
      ∃ q, Question.query { issuerNetworks := [("American Express", "Amex")] } .null
          (.text "amex or balance over 1000") (some amexOrLarge) = .ok q ∧
        (∀ f ∈ q.filters, ∃ b, Filter.holds amexCard f = .ok b) ∧
        ((∀ f ∈ q.filters, Filter.holds amexCard f = .ok true) ↔
          BalanceFilter.HoldsOf amexCard amexOrLarge.balance ∧
            Dictionary.MeetsRuns { issuerNetworks := [("American Express", "Amex")] }
              amexCard amexOrLarge) := by
  have hissuer : ∀ c ∈ amexOrLarge.conditions, c.kind = .issuer → ∃ s, c.value = .text s := by
    intro c hc hkind
    rcases List.mem_cons.mp hc with rfl | hc
    · exact ⟨_, rfl⟩
    · rw [List.mem_singleton.mp hc] at hkind
      cases hkind
  have hreadable : amexCard.Readable := ⟨⟨.null, rfl⟩, ⟨.null, rfl⟩⟩
  obtain ⟨q, hq, hspec⟩ := query_filters_hold_iff [("American Express", "Amex")] .null
    "amex or balance over 1000" amexOrLarge hissuer
  have hall : (Question.query { issuerNetworks := [("American Express", "Amex")] } .null
      (.text "amex or balance over 1000") (some amexOrLarge)).toOption.any
        (fun q => q.filters.all fun f => (Filter.holds amexCard f).isOk) = true := by
    decide +kernel
  have hanswers : ∀ f ∈ q.filters, ∃ b, Filter.holds amexCard f = .ok b := by
    rw [hq] at hall
    exact fun f hf => exists_ok_of_isOk (List.all_eq_true.mp hall f hf)
  exact ⟨hissuer, hreadable, q, hq, hanswers, (hspec amexCard).2 hanswers⟩

end Cardfolio
