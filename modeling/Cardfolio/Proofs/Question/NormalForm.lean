import Cardfolio.Proofs.Pattern.Longest
import Cardfolio.Proofs.Question.Threshold
import Cardfolio.Question.Entities

/-!
# Questions in normal form

A question in small letters, with single spaces and without blanks at its ends, is read as it
is. Such questions are put together from phrases and numbers with spaces between them.
-/

namespace Cardfolio

open Pattern Text

/-- A text in the form in which questions are read, without letters that stand for others. -/
structure IsNormal (text : List Char) : Prop where
  plain : IsPlain text
  trimmed : IsTrimmed isBlank text
  spaced : isSpaced text = true

variable {a b text : List Char}

theorem IsNormal.normalize_eq (h : IsNormal text) : Question.normalize text = text := by
  unfold Question.normalize strip
  rw [h.trimmed.trim_eq_self, lower_eq_self fun c hc => (h.plain c hc).1, collapse_eq_self h.spaced]

theorem isPlain_of_isLower {c : Char} (h : c.isLower = true) : IsSmall c ∧ c ∉ strayLetters := by
  have hcode := isLower_iff.mp h
  have hne : ∀ d : Char, 122 < d.toNat → c ≠ d := by
    rintro d hd rfl
    omega
  have hsmall : toSmall c = c := by
    rw [toSmall, if_pos (by omega), toLower_of_isLower h]
  refine ⟨⟨hne _ (by decide), hne _ (by decide), hsmall⟩, ?_⟩
  simp only [strayLetters, List.mem_cons, List.not_mem_nil, or_false, not_or]
  exact ⟨hne _ (by decide), hne _ (by decide)⟩

theorem isPlain_of_lt {c : Char} (h : c.toNat < 65) : IsSmall c ∧ c ∉ strayLetters := by
  have hne : ∀ d : Char, 65 ≤ d.toNat → c ≠ d := by
    rintro d hd rfl
    omega
  refine ⟨isSmall_of_lt h, ?_⟩
  simp only [strayLetters, List.mem_cons, List.not_mem_nil, or_false, not_or]
  exact ⟨hne _ (by decide), hne _ (by decide)⟩

/-- A phrase of small ASCII letters and signs, with single spaces. -/
def isNormalPhrase (text : List Char) : Bool :=
  text.all (fun c => Nat.blt c.toNat 65 || c.isLower) && isSpaced text &&
    text.head?.any (!isBlank ·) && text.getLast?.any (!isBlank ·)

theorem IsNormal.of_phrase (h : isNormalPhrase text = true) : IsNormal text ∧ text ≠ [] := by
  simp only [isNormalPhrase, Bool.and_eq_true, List.all_eq_true] at h
  obtain ⟨⟨⟨hall, hspaced⟩, hhead⟩, hlast⟩ := h
  have hends : ∀ {o : Option Char}, o.any (!isBlank ·) = true → ∀ c ∈ o, isBlank c = false := by
    rintro o ho c rfl
    simpa using ho
  refine ⟨⟨fun c hc => ?_, ⟨hends hhead, hends hlast⟩, hspaced⟩, ?_⟩
  · rcases (Bool.or_eq_true ..).mp (hall c hc) with h | h
    · exact isPlain_of_lt (Nat.le_of_ble_eq_true h)
    · exact isPlain_of_isLower h
  · rintro rfl
    cases hhead

/-- A text of signs and digits without blanks. -/
theorem IsNormal.of_signs (h : ∀ c ∈ text, c.toNat < 65 ∧ isBlank c = false) : IsNormal text where
  plain := fun c hc => isPlain_of_lt (h c hc).1
  trimmed := ⟨fun c hc => (h c (List.mem_of_mem_head? hc)).2,
    fun c hc => (h c (List.mem_of_getLast? hc)).2⟩
  spaced := isSpaced_of_forall fun c hc => (h c hc).2

/-- Two texts with a space between them. -/
theorem IsNormal.join (ha : IsNormal a) (hane : a ≠ []) (hb : IsNormal b) (hbne : b ≠ []) :
    IsNormal (a ++ ' ' :: b) where
  plain := by
    intro c hc
    rw [List.mem_append, List.mem_cons] at hc
    rcases hc with hc | rfl | hc
    · exact ha.plain c hc
    · exact isPlain_of_lt (by decide)
    · exact hb.plain c hc
  trimmed := by
    obtain ⟨c, cs, rfl⟩ := List.exists_cons_of_ne_nil hane
    obtain ⟨d, ds, rfl⟩ := List.exists_cons_of_ne_nil hbne
    refine ⟨fun x hx => ha.trimmed.head x hx, fun x hx => hb.trimmed.last x ?_⟩
    rw [List.getLast?_append_cons, List.getLast?_cons_cons] at hx
    exact hx
  spaced := isSpaced_join ha.spaced ha.trimmed.last hb.spaced hb.trimmed.head

end Cardfolio
