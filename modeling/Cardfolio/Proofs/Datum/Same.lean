import Cardfolio.Proofs.Number.Order
import Cardfolio.Query.Grouping

/-!
# Values that are one key

`same` is what grouping relies on: it puts values together that are one key. It is
symmetric and transitive, but it is not an equivalence. Doubles that are no number
are one key only when they are one object, and one that has just been made is met
nowhere else. It is not even the same as itself, and neither is anything that holds
it. So nothing said here needs more than the two laws that are left.

Values that hold no others are compared by what they are, and `SameLeaf` lists
the five ways in which two of them can be one key. The laws then go up through the
cells of cards by recursion on one of the cards.
-/

namespace Cardfolio

theorem Moment.same_symm {s t : Moment} (h : s.same t = true) : t.same s = true := by
  unfold same at h ⊢
  split at h
  · next hs ht =>
      rw [ht, hs]
      exact beq_iff_eq.mpr (beq_iff_eq.mp h).symm
  · next hs ht =>
      rw [ht, hs]
      exact beq_iff_eq.mpr (beq_iff_eq.mp h).symm
  · cases h

theorem Moment.same_trans {r s t : Moment} (hrs : r.same s = true) (hst : s.same t = true) :
    r.same t = true := by
  unfold same at hrs hst ⊢
  split at hrs
  · next hr hs =>
      rw [hs] at hst
      split at hst
      · next _ ht =>
          rw [hr, ht]
          exact beq_iff_eq.mpr ((beq_iff_eq.mp hrs).trans (beq_iff_eq.mp hst))
      · next h _ =>
          cases h
      · cases hst
  · next m n hr hs =>
      rw [hs] at hst
      split at hst
      · next h _ =>
          cases h
      · next m' n' h ht =>
          obtain rfl := Option.some.inj h
          rw [hr, ht]
          exact beq_iff_eq.mpr ((beq_iff_eq.mp hrs).trans (beq_iff_eq.mp hst))
      · cases hst
  · cases hrs

namespace Number

theorem sameObject_symm {a b : Number} (h : a.sameObject b = true) : b.sameObject a = true := by
  unfold sameObject at h
  split at h
  · exact beq_iff_eq.mpr (beq_iff_eq.mp h).symm
  · cases h

theorem sameObject_trans {a b c : Number} (hab : a.sameObject b = true)
    (hbc : b.sameObject c = true) : a.sameObject c = true := by
  unfold sameObject at hab
  split at hab
  · rw [beq_iff_eq.mp hab]
    exact hbc
  · cases hab

/-- What is one object has no place among the numbers. -/
theorem place?_of_sameObject {a b : Number} (h : a.sameObject b = true) :
    a.place? = none ∧ b.place? = none := by
  unfold sameObject at h
  split at h
  · exact ⟨rfl, rfl⟩
  · cases h

theorem sameKey_symm {a b : Number} (h : a.sameKey b = true) : b.sameKey a = true := by
  unfold sameKey at h ⊢
  rw [Bool.or_eq_true] at h ⊢
  exact h.imp same_symm sameObject_symm

/-- Of three numbers, two that are equal and two that are one object cannot share one: it would
have a place and have none. -/
theorem sameKey_trans {a b c : Number} (hab : a.sameKey b = true) (hbc : b.sameKey c = true) :
    a.sameKey c = true := by
  unfold sameKey at hab hbc ⊢
  rw [Bool.or_eq_true] at hab hbc ⊢
  rcases hab with hab | hab
  · obtain ⟨p, -, hb⟩ := place_of_same hab
    rcases hbc with hbc | hbc
    · exact Or.inl (same_trans hab hbc)
    · rw [(place?_of_sameObject hbc).1] at hb
      cases hb
  · have hb := (place?_of_sameObject hab).2
    rcases hbc with hbc | hbc
    · obtain ⟨p, hb', -⟩ := place_of_same hbc
      rw [hb] at hb'
      cases hb'
    · exact Or.inr (sameObject_trans hab hbc)

end Number

namespace Datum

/-- The ways in which two values that hold no others are one key. -/
inductive SameLeaf : Datum → Datum → Prop
  | null : SameLeaf null null
  | text (s : String) : SameLeaf (text s) (text s)
  | date (d : Date) : SameLeaf (date d) (date d)
  | moment {s t : Moment} (h : s.same t = true) : SameLeaf (moment s) (moment t)
  | number {a b : Datum} {m n : Number} (ha : a.operand? = some m) (hb : b.operand? = some n)
      (h : m.sameKey n = true) : SameLeaf a b

theorem sameLeaf_of_operands {a b : Datum} {m n : Number} (ha : a.operand? = some m)
    (hb : b.operand? = some n) : a.sameLeaf b = m.sameKey n := by
  cases a <;> cases hb' : b <;> subst hb' <;> simp only [operand?, reduceCtorEq] at ha hb <;>
    simp only [sameLeaf, operand?, ha, hb]

theorem sameLeaf_iff {a b : Datum} : a.sameLeaf b = true ↔ SameLeaf a b := by
  constructor
  · intro h
    unfold sameLeaf at h
    split at h
    · exact .null
    · rw [beq_iff_eq.mp h]
      exact .text _
    · rw [beq_iff_eq.mp h]
      exact .date _
    · exact .moment h
    · split at h
      · next m n ha hb =>
          exact .number ha hb h
      · cases h
  · intro h
    cases h with
    | null => rfl
    | text s => exact beq_iff_eq.mpr rfl
    | date d => exact beq_iff_eq.mpr rfl
    | moment h => exact h
    | number ha hb h =>
        rw [sameLeaf_of_operands ha hb]
        exact h

theorem SameLeaf.symm {a b : Datum} (h : SameLeaf a b) : SameLeaf b a := by
  cases h with
  | null => exact .null
  | text s => exact .text s
  | date d => exact .date d
  | moment h => exact .moment (Moment.same_symm h)
  | number ha hb h => exact .number hb ha (Number.sameKey_symm h)

theorem SameLeaf.trans {a b c : Datum} (hab : SameLeaf a b) (hbc : SameLeaf b c) :
    SameLeaf a c := by
  cases hab with
  | null => exact hbc
  | text s => exact hbc
  | date d => exact hbc
  | moment hst =>
      cases hbc with
      | moment htu => exact .moment (Moment.same_trans hst htu)
      | number hb _ _ => cases hb
  | number ha hb h =>
      cases hbc with
      | null => cases hb
      | text s => cases hb
      | date d => cases hb
      | moment _ => cases hb
      | number hb' hc h' =>
          obtain rfl := Option.some.inj (hb.symm.trans hb')
          exact .number ha hc (Number.sameKey_trans h h')

theorem same_card {a b : Field → Option Datum} :
    same (card a) (card b) = true ↔ ∀ f ∈ Field.stored, sameCell (a f) (b f) = true := by
  rw [same]
  exact List.all_eq_true

theorem same_of_not_card {a b : Datum} (h : ∀ f g, a = card f → b ≠ card g) :
    a.same b = a.sameLeaf b := by
  rw [same]
  exact h

/-- A card and a value that is no card are two keys. -/
theorem same_cases {a b : Datum} (h : a.same b = true) :
    (∃ f g, a = card f ∧ b = card g) ∨ SameLeaf a b := by
  by_cases hcard : ∃ f g, a = card f ∧ b = card g
  · exact Or.inl hcard
  · rw [same_of_not_card fun f g ha hb => hcard ⟨f, g, ha, hb⟩] at h
    exact Or.inr (sameLeaf_iff.mp h)

theorem SameLeaf.same {a b : Datum} (h : SameLeaf a b) : a.same b = true := by
  rw [same_of_not_card]
  · exact sameLeaf_iff.mpr h
  · intro f g ha hb
    subst ha
    cases h with
    | number ha _ _ => cases ha

mutual

theorem same_symm : ∀ {a b : Datum}, a.same b = true → b.same a = true
  | .card f, b, h => by
      rcases same_cases h with ⟨_, g, _, rfl⟩ | hleaf
      · rw [same_card] at h ⊢
        intro field hfield
        exact sameCell_symm (h field hfield)
      · exact hleaf.symm.same
  | .null, b, h | .bool _, b, h | .number _, b, h | .text _, b, h | .list _, b, h
  | .object _, b, h | .date _, b, h | .moment _, b, h => by
      rcases same_cases h with ⟨_, _, hcard, _⟩ | hleaf
      · cases hcard
      · exact hleaf.symm.same

theorem sameCell_symm : ∀ {a b : Option Datum}, sameCell a b = true → sameCell b a = true
  | some a, some b, h => by
      rw [sameCell] at h ⊢
      exact same_symm h
  | none, none, h => h
  | some _, none, h => by simp [sameCell] at h
  | none, some _, h => by simp [sameCell] at h

end

mutual

theorem same_trans : ∀ {a b c : Datum}, a.same b = true → b.same c = true → a.same c = true
  | .card f, b, c, hab, hbc => by
      rcases same_cases hab with ⟨_, g, _, rfl⟩ | hab
      · rcases same_cases hbc with ⟨_, k, _, rfl⟩ | hbc
        · rw [same_card] at hab hbc ⊢
          intro field hfield
          exact sameCell_trans (hab field hfield) (hbc field hfield)
        · cases hbc with
          | number hg _ _ => cases hg
      · cases hab with
        | number hf _ _ => cases hf
  | .null, b, c, hab, hbc | .bool _, b, c, hab, hbc | .number _, b, c, hab, hbc
  | .text _, b, c, hab, hbc | .list _, b, c, hab, hbc | .object _, b, c, hab, hbc
  | .date _, b, c, hab, hbc | .moment _, b, c, hab, hbc => by
      rcases same_cases hab with ⟨_, _, hcard, _⟩ | hab
      · cases hcard
      · rcases same_cases hbc with ⟨g, _, rfl, _⟩ | hbc
        · cases hab with
          | number _ hg _ => cases hg
        · exact (hab.trans hbc).same

theorem sameCell_trans : ∀ {a b c : Option Datum}, sameCell a b = true →
    sameCell b c = true → sameCell a c = true
  | some a, some b, some c, hab, hbc => by
      rw [sameCell] at hab hbc ⊢
      exact same_trans hab hbc
  | none, none, _, _, hbc => hbc
  | some _, none, _, hab, _ => by simp [sameCell] at hab
  | none, some _, _, hab, _ => by simp [sameCell] at hab
  | some _, some _, none, _, hbc => by simp [sameCell] at hbc

end

end Datum

namespace GroupKey

theorem same_symm {a b : GroupKey} (h : a.same b = true) : b.same a = true := by
  cases a <;> cases b <;> simp only [same, Bool.false_eq_true] at h ⊢
  · exact beq_iff_eq.mpr (beq_iff_eq.mp h).symm
  · exact Datum.same_symm h

theorem same_trans {a b c : GroupKey} (hab : a.same b = true) (hbc : b.same c = true) :
    a.same c = true := by
  cases a <;> cases b <;> cases c <;> simp only [same, Bool.false_eq_true] at hab hbc ⊢
  · exact beq_iff_eq.mpr ((beq_iff_eq.mp hab).trans (beq_iff_eq.mp hbc))
  · exact Datum.same_trans hab hbc

end GroupKey

end Cardfolio
