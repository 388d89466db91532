import Cardfolio.Proofs.Query.Sides
import Cardfolio.Query.Filter

/-!
# What a filter asks for

Filters are evaluated from left to right and stop early. Two things can fail on the way:
looking a computed field up, and writing what is compared as text. `Card.Readable` is the
condition under which the first does not happen, and `Filter.ComparesLong` says where the
second can. Elsewhere every filter has an answer (`Filter.holds_settles`).

A group of alternatives that has an answer means what it should, whatever was skipped
(`anyHolds_eq_true_iff`). A list of filters needs no such condition: it holds exactly when
each of them does, because an evaluation that ends with `true` has evaluated all of them.
-/

namespace Cardfolio

/-- Both computed fields of a card have a value. -/
structure Card.Readable (card : Card) : Prop where
  utilization : ∃ v, card.utilization = .ok v
  availableCredit : ∃ v, card.availableCredit = .ok v

/-- The fields of a readable card can be looked up, by any name. -/
theorem Card.Readable.get {card : Card} (h : card.Readable) (name : String) :
    ∃ v, card.get name = .ok v := by
  unfold Card.get
  split
  · next f _ =>
      cases f with
      | utilization => exact h.utilization
      | availableCredit => exact h.availableCredit
      | _ => exact ⟨_, rfl⟩
  · exact ⟨_, rfl⟩

/-- The value that a card has in a field stands in a comparison to another value. -/
def Card.Satisfies (card : Card) (field operator : String) (target : Datum) : Prop :=
  ∃ value, card.get field = .ok value ∧ value.satisfies operator target = .ok true

theorem Clause.holds_eq_true_iff {c : Clause} {card : Card} :
    c.holds card = .ok true ↔ card.Satisfies c.field c.operator c.value := by
  unfold Clause.holds Card.Satisfies
  exact bind_eq_ok

namespace Filter

theorem holds_clause (card : Card) (c : Clause) : holds card (.clause c) = c.holds card := by
  rw [holds]

theorem allHold_cons_eq_true_iff {card : Card} {f : Filter} {rest : List Filter} :
    allHold card (f :: rest) = .ok true ↔
      holds card f = .ok true ∧ allHold card rest = .ok true := by
  rw [allHold]
  simp only [bind_eq_ok]
  constructor
  · rintro ⟨b, hb, h⟩
    cases b with
    | false => cases h
    | true => exact ⟨hb, h⟩
  · rintro ⟨hf, hrest⟩
    exact ⟨true, hf, hrest⟩

/-- A list of filters holds when every one does. -/
theorem allHold_eq_true_iff {card : Card} {filters : List Filter} :
    allHold card filters = .ok true ↔ ∀ f ∈ filters, holds card f = .ok true := by
  induction filters with
  | nil => exact ⟨fun _ _ h => (List.not_mem_nil h).elim, fun _ => by rw [allHold]⟩
  | cons f rest ih => rw [allHold_cons_eq_true_iff, ih, List.forall_mem_cons]

/-- Alternatives that have an answer together hold when one of them does. -/
theorem anyHolds_eq_true_iff {card : Card} {filters : List Filter} {b : Bool}
    (h : anyHolds card filters = .ok b) :
    anyHolds card filters = .ok true ↔ ∃ f ∈ filters, holds card f = .ok true := by
  induction filters with
  | nil =>
      rw [anyHolds]
      exact ⟨nofun, fun ⟨_, hf, _⟩ => (List.not_mem_nil hf).elim⟩
  | cons f rest ih =>
      rw [anyHolds] at h ⊢
      obtain ⟨first, hfirst, h⟩ := bind_eq_ok.mp h
      rw [List.exists_mem_cons_iff, hfirst]
      cases first with
      | false =>
          show anyHolds card rest = .ok true ↔ _
          rw [ih h]
          exact ⟨Or.inr, fun h => h.resolve_left nofun⟩
      | true => exact ⟨fun _ => Or.inl rfl, fun _ => rfl⟩

/-- The clauses of a filter, at any depth. -/
inductive Has : Filter → Clause → Prop
  | clause (c : Clause) : Has (.clause c) c
  | member {logic : Logic} {children : List Filter} {f : Filter} {c : Clause}
      (hf : f ∈ children) (h : Has f c) : Has (.group logic children) c

/-- A filter compares a value of a card, and it or what it is compared with cannot be written. -/
def ComparesLong (f : Filter) (card : Card) : Prop :=
  ∃ c value, f.Has c ∧ card.get c.field = .ok value ∧
    (value.isWritable = false ∨ c.value.isWritable = false)

theorem ComparesLong.member {card : Card} {children : List Filter} (logic : Logic)
    (h : ∃ f ∈ children, f.ComparesLong card) : (group logic children).ComparesLong card := by
  obtain ⟨f, hf, c, value, hc, hlong⟩ := h
  exact ⟨c, value, .member hf hc, hlong⟩

theorem exists_comparesLong_cons {card : Card} {f : Filter} {rest : List Filter}
    (h : ∃ g ∈ rest, g.ComparesLong card) : ∃ g ∈ f :: rest, g.ComparesLong card :=
  h.imp fun _ hg => hg.imp_left (List.mem_cons_of_mem _)

section

variable {large : Prop} {card : Card} {p : Datum → Prop}

mutual

/-- A filter fails only where looking up a field does, or where it compares what cannot be
written. -/
theorem holds_settles (hget : ∀ name, Settles large False p (card.get name)) :
    ∀ f : Filter, Settles large (f.ComparesLong card) (fun _ => True) (holds card f)
  | .clause c => by
      rw [holds_clause]
      refine ((hget c.field).mono id False.elim fun _ h => h).bind fun value hvalue _ => ?_
      exact (value.satisfies_settles c.operator c.value).mono False.elim
        (fun hlong => ⟨c, value, .clause c, hvalue, hlong⟩) fun _ h => h
  | .group .all children => by
      rw [holds]
      exact (allHold_settles hget children).mono id (.member .all) fun _ h => h
  | .group .any children => by
      rw [holds]
      exact (anyHolds_settles hget children).mono id (.member .any) fun _ h => h

theorem allHold_settles (hget : ∀ name, Settles large False p (card.get name)) :
    ∀ filters : List Filter, Settles large (∃ f ∈ filters, f.ComparesLong card) (fun _ => True)
      (allHold card filters)
  | [] => by
      rw [allHold]
      exact .value trivial
  | f :: rest => by
      rw [allHold]
      refine ((holds_settles hget f).mono id (fun h => ⟨f, List.mem_cons_self, h⟩)
        fun _ h => h).bind fun b _ _ => ?_
      cases b with
      | false => exact .value trivial
      | true => exact (allHold_settles hget rest).mono id exists_comparesLong_cons fun _ h => h

theorem anyHolds_settles (hget : ∀ name, Settles large False p (card.get name)) :
    ∀ filters : List Filter, Settles large (∃ f ∈ filters, f.ComparesLong card) (fun _ => True)
      (anyHolds card filters)
  | [] => by
      rw [anyHolds]
      exact .value trivial
  | f :: rest => by
      rw [anyHolds]
      refine ((holds_settles hget f).mono id (fun h => ⟨f, List.mem_cons_self, h⟩)
        fun _ h => h).bind fun b _ _ => ?_
      cases b with
      | false => exact (anyHolds_settles hget rest).mono id exists_comparesLong_cons fun _ h => h
      | true => exact .value trivial

end

end

/-- On a readable card a filter has an answer unless it compares what cannot be written. -/
theorem holds_settles_of_readable {card : Card} (h : card.Readable) (f : Filter) :
    Settles False (f.ComparesLong card) (fun _ => True) (holds card f) := by
  have hget : ∀ name, Settles False False (fun _ => True) (card.get name) := fun name => by
    obtain ⟨v, hv⟩ := h.get name
    exact hv ▸ .value trivial
  exact holds_settles hget f

end Filter

end Cardfolio
