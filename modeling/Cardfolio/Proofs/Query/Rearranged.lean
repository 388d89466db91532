import Cardfolio.Proofs.Query.Narrowed

/-!
# Filters in another arrangement

A filter can be written in many ways that ask for the same. The members of a group can stand
in any order and more than once, and a group in a group of its own logic can be opened in
place. `Filter.Rearranged` is everything that comes of these, at any depth and in any number of
steps.

What is asked for is not what is computed. Groups stop early, so of two arrangements the one
may have an answer where the other fails, and so may an arrangement on the way from the one to
the other. Therefore the argument does not compare evaluations step by step. It goes through
what a filter means, `Filter.Met`, which is there whether the filter can be evaluated or not:
an evaluation that comes to an answer comes to that one (`met_of_holds`), and all arrangements
mean the same (`Rearranged.met_iff`).
-/

namespace Cardfolio

theorem Logic.ofName_eq_of_iff {a b : String} (h : a = "OR" ↔ b = "OR") :
    Logic.ofName a = Logic.ofName b := by
  unfold Logic.ofName
  simp only [h]

namespace Filter

mutual

/-- What a card must have to pass a filter. -/
def Met (card : Card) : Filter → Prop
  | .clause c => card.Satisfies c.field c.operator c.value
  | .group .all children => AllMet card children
  | .group .any children => AnyMet card children

def AllMet (card : Card) : List Filter → Prop
  | [] => True
  | f :: rest => Met card f ∧ AllMet card rest

def AnyMet (card : Card) : List Filter → Prop
  | [] => False
  | f :: rest => Met card f ∨ AnyMet card rest

end

variable {card : Card}

theorem allMet_iff {filters : List Filter} : AllMet card filters ↔ ∀ f ∈ filters, Met card f := by
  induction filters with
  | nil => simp only [AllMet, List.not_mem_nil, false_imp_iff, implies_true]
  | cons f rest ih => rw [AllMet, ih, List.forall_mem_cons]

theorem anyMet_iff {filters : List Filter} : AnyMet card filters ↔ ∃ f ∈ filters, Met card f := by
  induction filters with
  | nil => simp only [AnyMet, List.not_mem_nil, false_and, exists_false]
  | cons f rest ih => rw [AnyMet, ih, List.exists_mem_cons_iff]

theorem allMet_append {first second : List Filter} :
    AllMet card (first ++ second) ↔ AllMet card first ∧ AllMet card second := by
  simp only [allMet_iff, List.forall_mem_append]

theorem anyMet_append {first second : List Filter} :
    AnyMet card (first ++ second) ↔ AnyMet card first ∨ AnyMet card second := by
  simp only [anyMet_iff, List.mem_append, or_and_right, exists_or]

mutual

/-- An evaluation that has an answer says whether the filter is met. -/
theorem met_of_holds : ∀ (f : Filter) {b : Bool}, holds card f = .ok b → (b = true ↔ Met card f)
  | .clause c, b, h => by
      rw [holds] at h
      rw [Met, ← Clause.holds_eq_true_iff, h]
      exact ⟨congrArg Except.ok, Except.ok.inj⟩
  | .group .all children, b, h => by
      rw [holds] at h
      rw [Met]
      exact allMet_of_allHold children h
  | .group .any children, b, h => by
      rw [holds] at h
      rw [Met]
      exact anyMet_of_anyHolds children h

theorem allMet_of_allHold : ∀ (filters : List Filter) {b : Bool},
    allHold card filters = .ok b → (b = true ↔ AllMet card filters)
  | [], b, h => by
      rw [allHold] at h
      obtain rfl := Except.ok.inj h
      rw [AllMet]
      exact iff_of_true rfl trivial
  | f :: rest, b, h => by
      rw [allHold] at h
      obtain ⟨first, hfirst, h⟩ := bind_eq_ok.mp h
      have hf := met_of_holds f hfirst
      rw [AllMet, ← hf]
      cases first with
      | true => exact (allMet_of_allHold rest h).trans (and_iff_right rfl).symm
      | false =>
          -- The rest has not been looked at, and it does not matter.
          obtain rfl := Except.ok.inj h
          exact iff_of_false Bool.false_ne_true fun h => Bool.false_ne_true h.1

theorem anyMet_of_anyHolds : ∀ (filters : List Filter) {b : Bool},
    anyHolds card filters = .ok b → (b = true ↔ AnyMet card filters)
  | [], b, h => by
      rw [anyHolds] at h
      obtain rfl := Except.ok.inj h
      rw [AnyMet]
      exact iff_of_false Bool.false_ne_true id
  | f :: rest, b, h => by
      rw [anyHolds] at h
      obtain ⟨first, hfirst, h⟩ := bind_eq_ok.mp h
      have hf := met_of_holds f hfirst
      rw [AnyMet, ← hf]
      cases first with
      | true =>
          obtain rfl := Except.ok.inj h
          exact iff_of_true rfl (Or.inl rfl)
      | false => exact (anyMet_of_anyHolds rest h).trans (or_iff_right Bool.false_ne_true).symm

end

/-- Two filters that differ only in how they are written: by the order and number of the
members of groups, and by groups that are opened in a group of the same logic. A logic is
given by its word, and every word but one asks for all. -/
inductive Rearranged : Filter → Filter → Prop
  | refl (f : Filter) : Rearranged f f
  | symm {f g : Filter} (h : Rearranged f g) : Rearranged g f
  | trans {f g h : Filter} (hfg : Rearranged f g) (hgh : Rearranged g h) : Rearranged f h
  | members (logic : Logic) {fs gs : List Filter} (h : ∀ f, f ∈ fs ↔ f ∈ gs) :
      Rearranged (.group logic fs) (.group logic gs)
  | opened {outer inner : String} (h : inner = "OR" ↔ outer = "OR")
      (before children after : List Filter) :
      Rearranged
        (.group (.ofName outer) (before ++ .group (.ofName inner) children :: after))
        (.group (.ofName outer) (before ++ children ++ after))
  | inside (logic : Logic) (before after : List Filter) {f g : Filter} (h : Rearranged f g) :
      Rearranged (.group logic (before ++ f :: after)) (.group logic (before ++ g :: after))

/-- Two filters in different arrangements mean the same. -/
theorem Rearranged.met_iff {f g : Filter} (h : f.Rearranged g) : f.Met card ↔ g.Met card := by
  induction h with
  | refl f => exact Iff.rfl
  | symm _ ih => exact ih.symm
  | trans _ _ ihfg ihgh => exact ihfg.trans ihgh
  | members logic h =>
      cases logic with
      | all => simp only [Met, allMet_iff, h]
      | any => simp only [Met, anyMet_iff, h]
  | opened h before children after =>
      rw [Logic.ofName_eq_of_iff h]
      generalize Logic.ofName _ = logic
      cases logic with
      | all => simp only [Met, allMet_append, AllMet, and_assoc]
      | any => simp only [Met, anyMet_append, AnyMet, or_assoc]
  | inside logic before after _ ih =>
      cases logic with
      | all => simp only [Met, allMet_append, AllMet, ih]
      | any => simp only [Met, anyMet_append, AnyMet, ih]

/-- Two arrangements that can both be evaluated have the same answer. -/
theorem Rearranged.eq_of_holds {f g : Filter} (h : f.Rearranged g) {a b : Bool}
    (hf : holds card f = .ok a) (hg : holds card g = .ok b) : a = b := by
  rw [Bool.eq_iff_iff]
  exact (met_of_holds f hf).trans (h.met_iff.trans (met_of_holds g hg).symm)

end Filter

namespace Query

theorem exists_allHold_of_choose {filters : List Filter} {entries chosen : List Entry}
    (h : choose filters entries = .ok chosen) :
    ∀ e ∈ entries, ∃ b, Filter.allHold e.card filters = .ok b := by
  induction entries generalizing chosen with
  | nil => exact fun _ he => (List.not_mem_nil he).elim
  | cons e rest ih =>
      obtain ⟨b, hb, h⟩ := bind_eq_ok.mp h
      obtain ⟨others, hothers, _⟩ := bind_eq_ok.mp h
      exact List.forall_mem_cons.mpr ⟨⟨b, hb⟩, ih hothers⟩

/-- Filters in another arrangement choose the same entries. -/
theorem choose_rearranged {fs gs : List Filter}
    (h : (Filter.group .all fs).Rearranged (.group .all gs)) {entries xs ys : List Entry}
    (hfs : choose fs entries = .ok xs) (hgs : choose gs entries = .ok ys) : xs = ys := by
  rw [choose_eq hfs, choose_eq hgs]
  refine List.filter_congr fun e he => ?_
  obtain ⟨a, ha⟩ := exists_allHold_of_choose hfs e he
  obtain ⟨b, hb⟩ := exists_allHold_of_choose hgs e he
  have hfs : Filter.holds e.card (.group .all fs) = .ok a := by rw [Filter.holds, ha]
  have hgs : Filter.holds e.card (.group .all gs) = .ok b := by rw [Filter.holds, hb]
  rw [Entry.passes, Entry.passes, ha, hb]
  exact h.eq_of_holds hfs hgs

/-- A filter has one answer in all of its arrangements that can be evaluated, and so has a
query, when its filters together are in another arrangement. -/
theorem answer_rearranged :
    (∀ f g : Filter, f.Rearranged g → ∀ (card : Card) (a b : Bool),
      Filter.holds card f = .ok a → Filter.holds card g = .ok b → a = b) ∧
    ∀ (q : Query) (filters : List Filter),
      (Filter.group .all q.filters).Rearranged (.group .all filters) →
        ∀ (records : Datum) (a b : Answer), q.answer records = .ok a →
          { q with filters }.answer records = .ok b → a = b := by
  refine ⟨fun f g h card a b hf hg => h.eq_of_holds hf hg, ?_⟩
  intro q filters h records a b ha hb
  obtain ⟨entries, hentries, ha⟩ := bind_eq_ok.mp ha
  obtain ⟨entries', hentries', hb⟩ := bind_eq_ok.mp hb
  obtain rfl := Except.ok.inj (hentries.symm.trans hentries')
  obtain ⟨chosen, hchosen, ha⟩ := bind_eq_ok.mp ha
  obtain ⟨chosen', hchosen', hb⟩ := bind_eq_ok.mp hb
  obtain rfl := choose_rearranged h hchosen hchosen'
  exact Except.ok.inj (ha.symm.trans hb)

def owesLittle : Filter :=
  .clause { field := "current_balance", operator := "<", value := .whole 500 }

/-- Alternatives in alternatives, one of them twice. -/
def chaseOrOthers : Filter :=
  .group .any [ofIssuer "Chase", .group .any [ofIssuer "Citi", ofIssuer "Chase"]]

def citiOrChase : Filter :=
  .group .any [ofIssuer "Citi", ofIssuer "Chase"]

/-- The records that pass some filters. -/
def passed (filters : List Filter) : Query :=
  { filters, dataset := .null }

theorem chaseOrOthers_rearranged : chaseOrOthers.Rearranged citiOrChase := by
  have hopened : chaseOrOthers.Rearranged
      (.group .any [ofIssuer "Chase", ofIssuer "Citi", ofIssuer "Chase"]) :=
    .opened (show "OR" = "OR" ↔ "OR" = "OR" from Iff.rfl) [ofIssuer "Chase"]
      [ofIssuer "Citi", ofIssuer "Chase"] []
  refine hopened.trans (.members .any fun f => ?_)
  simp only [List.mem_cons, List.not_mem_nil, or_false]
  tauto

theorem answer_rearranged_citiOrChase :
    chaseOrOthers.Rearranged citiOrChase ∧
      (Filter.group .all [chaseOrOthers, owesLittle]).Rearranged
        (.group .all [owesLittle, citiOrChase, owesLittle]) ∧
      (∀ e ∈ tiedBalances.map Entry.ofRow, ∃ a b, Filter.holds e.card chaseOrOthers = .ok a ∧
        Filter.holds e.card citiOrChase = .ok b ∧ a = b) ∧
      ∃ a b,
        (passed [chaseOrOthers, owesLittle]).answer (.list (tiedBalances.map .object)) = .ok a ∧
        (passed [owesLittle, citiOrChase, owesLittle]).answer
          (.list (tiedBalances.map .object)) = .ok b ∧ a = b := by
  have h := chaseOrOthers_rearranged
  have hfilters : (Filter.group .all [chaseOrOthers, owesLittle]).Rearranged
      (.group .all [owesLittle, citiOrChase, owesLittle]) := by
    refine (Filter.Rearranged.inside .all [] [owesLittle] h).trans (.members .all fun f => ?_)
    simp only [List.nil_append, List.mem_cons, List.not_mem_nil, or_false]
    tauto
  have hholds : ∀ e ∈ tiedBalances.map Entry.ofRow,
      (Filter.holds e.card chaseOrOthers).isOk = true ∧
        (Filter.holds e.card citiOrChase).isOk = true := by
    decide +kernel
  obtain ⟨a, ha⟩ : ∃ a,
      (passed [chaseOrOthers, owesLittle]).answer (.list (tiedBalances.map .object)) = .ok a :=
    exists_ok_of_isOk (by decide +kernel)
  obtain ⟨b, hb⟩ : ∃ b, (passed [owesLittle, citiOrChase, owesLittle]).answer
      (.list (tiedBalances.map .object)) = .ok b :=
    exists_ok_of_isOk (by decide +kernel)
  refine ⟨h, hfilters, fun e he => ?_, a, b, ha, hb, answer_rearranged.2 _ _ hfilters _ _ _ ha hb⟩
  obtain ⟨hf, hg⟩ := hholds e he
  obtain ⟨x, hx⟩ := exists_ok_of_isOk hf
  obtain ⟨y, hy⟩ := exists_ok_of_isOk hg
  exact ⟨x, y, hx, hy, answer_rearranged.1 _ _ h _ _ _ hx hy⟩

end Query

end Cardfolio
