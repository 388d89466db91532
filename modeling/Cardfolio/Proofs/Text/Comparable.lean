import Cardfolio.Text.Compare
import Mathlib.Data.List.TakeWhile

/-!
# What is left of a text

Texts are compared without the blanks at their ends and without case. The one makes
a text shorter and the other never does: each character folds to one or more. So the
comparable form of a text is empty exactly when there was nothing but blanks.
-/

namespace Cardfolio.Text

theorem trim_eq_nil_iff {p : Char → Bool} {cs : List Char} :
    trim p cs = [] ↔ ∀ c ∈ cs, p c = true := by
  rw [trim, List.reverse_eq_nil_iff, List.dropWhile_eq_nil_iff]
  constructor
  · intro h
    rw [← List.dropWhile_eq_nil_iff]
    by_contra hne
    have hhead := List.head_dropWhile_not (p := p) hne
    rw [h _ (List.mem_reverse.mpr (List.head_mem hne))] at hhead
    cases hhead
  · intro h c hc
    rw [List.dropWhile_eq_nil_iff.mpr h] at hc
    cases hc

theorem foldExpansions_ne_nil : ∀ e ∈ foldExpansions, e.2 ≠ [] := by
  decide +kernel

theorem foldChar_ne_nil (c : Char) : foldChar c ≠ [] := by
  unfold foldChar
  split
  · exact List.cons_ne_nil _ _
  · split
    · next codes h =>
        rw [List.lookup_eq_some_iff] at h
        obtain ⟨before, after, htable, _⟩ := h
        have hmem : (c.toNat, codes) ∈ foldExpansions := by
          rw [htable]
          exact List.mem_append_right _ List.mem_cons_self
        exact fun hnil => foldExpansions_ne_nil _ hmem (List.map_eq_nil_iff.mp hnil)
    · exact List.cons_ne_nil _ _

theorem fold_eq_nil_iff {cs : List Char} : fold cs = [] ↔ cs = [] := by
  rw [fold, List.flatMap_eq_nil_iff]
  cases cs with
  | nil => exact ⟨fun _ => rfl, fun _ => nofun⟩
  | cons c rest => exact ⟨fun h => (foldChar_ne_nil c (h c List.mem_cons_self)).elim, nofun⟩

/-- Nothing is left of a text that is blank, and of no other. -/
theorem comparable_eq_nil_iff {cs : List Char} :
    comparable cs = [] ↔ ∀ c ∈ cs, isBlank c = true := by
  rw [comparable, fold_eq_nil_iff, strip, trim_eq_nil_iff]

theorem occursIn_iff {needle cs : List Char} : occursIn needle cs = true ↔ needle <:+: cs := by
  induction cs with
  | nil => rw [occursIn, List.isEmpty_iff, List.infix_nil]
  | cons c cs ih =>
      rw [occursIn, Bool.or_eq_true, List.isPrefixOf_iff_prefix, ih, List.infix_cons_iff]

/-- Every text occurs in itself. -/
theorem occursIn_self (cs : List Char) : occursIn cs cs = true :=
  occursIn_iff.mpr (List.infix_refl cs)

end Cardfolio.Text
