import Cardfolio.Pattern.Basic
import Cardfolio.Proofs.Text.Small

/-!
# What a blank is not

There are few blanks, so what holds of all of them is found by looking at each: a blank is
its own small form, and it is no part of a word, no digit and no letter.
-/

namespace Cardfolio.Text

/-- The code points of the blanks. -/
def blankCodes : List Nat :=
  [9, 10, 11, 12, 13, 28, 29, 30, 31, 32, 133, 160, 5760, 8192, 8193, 8194, 8195, 8196, 8197, 8198,
    8199, 8200, 8201, 8202, 8232, 8233, 8239, 8287, 12288]

theorem toNat_mem_blankCodes {c : Char} (h : isBlank c = true) : c.toNat ∈ blankCodes := by
  simp only [isBlank, Bool.or_eq_true, Bool.and_eq_true, decide_eq_true_eq, beq_iff_eq] at h
  simp only [blankCodes, List.mem_cons, List.not_mem_nil, or_false]
  omega

structure IsPlainBlank (c : Char) : Prop where
  isSmall : IsSmall c
  isWordChar_eq : isWordChar c = false
  isDecimalDigit_eq : isDecimalDigit c = false
  latinLetter?_eq : latinLetter? c = none

theorem forall_mem_blankCodes : ∀ n ∈ blankCodes, Char.ofNat n ≠ 'Σ' ∧ Char.ofNat n ≠ 'İ' ∧
    toSmall (Char.ofNat n) = Char.ofNat n ∧ isWordChar (Char.ofNat n) = false ∧
    isDecimalDigit (Char.ofNat n) = false ∧ latinLetter? (Char.ofNat n) = none := by
  decide +kernel

theorem isPlainBlank_of_isBlank {c : Char} (h : isBlank c = true) : IsPlainBlank c := by
  have := forall_mem_blankCodes c.toNat (toNat_mem_blankCodes h)
  rw [Char.ofNat_toNat] at this
  obtain ⟨hsigma, hdotted, hsmall, hword, hdigit, hletter⟩ := this
  exact ⟨⟨hsigma, hdotted, hsmall⟩, hword, hdigit, hletter⟩

theorem isBlank_of_isDecimalDigit {c : Char} (h : isDecimalDigit c = true) :
    isBlank c = false := by
  rw [Bool.eq_false_iff]
  intro hblank
  rw [(isPlainBlank_of_isBlank hblank).isDecimalDigit_eq] at h
  cases h

theorem smallForms_avoid_blanks : ∀ r ∈ smallForms, ∀ n ∈ blankCodes,
    r.avoids ⟨n, n, 1, n⟩ = true := by
  decide +kernel

theorem toSmall_ascii_isBlank : ∀ n < 128, isBlank (Char.ofNat n).toLower = true →
    (Char.ofNat n).toLower = Char.ofNat n := by
  decide

/-- No letter becomes a blank. -/
theorem isBlank_toSmall (c : Char) : isBlank (toSmall c) = isBlank c := by
  suffices h : isBlank (toSmall c) = true → toSmall c = c by
    rw [Bool.eq_iff_iff]
    exact ⟨fun hblank => h hblank ▸ hblank,
      fun hblank => (isPlainBlank_of_isBlank hblank).isSmall.toSmall_eq.symm ▸ hblank⟩
  intro hblank
  by_cases hc : c.toNat < 128
  · have hlower : toSmall c = c.toLower := if_pos hc
    have hascii := toSmall_ascii_isBlank c.toNat hc
    rw [Char.ofNat_toNat, ← hlower] at hascii
    exact hascii hblank
  · exact toSmall_eq_of_avoids (fun r hr => smallForms_avoid_blanks r hr _
      (toNat_mem_blankCodes hblank)) (Nat.not_lt.mp hc) (Nat.le_refl _) (Nat.le_refl _)

theorem staysOut_isBlank : StaysOut isBlank where
  toSmall c hc := by rw [isBlank_toSmall, hc]
  special := by decide

theorem ne_of_isBlank {c d : Char} (hc : isBlank c = true) (hd : isBlank d = false) : c ≠ d := by
  rintro rfl
  rw [hd] at hc
  cases hc

end Cardfolio.Text
