import Cardfolio.Proofs.Text.WordByWord
import Cardfolio.Text.Compare

/-!
# Respelled texts

A text is respelled by changing the case of ASCII letters and the blanks at its ends. What is made
of a text without looking at either is the same for both spellings. To see that something does
not look at case, put the text in small letters first: taking blanks or other signs off passes
that through to what is left, because no letter is among the signs (`IsCaseless`), and folding
does it anyway. So the comparable form of a text does not depend on its spelling.

Case is one change of characters among others, so what is said of taking signs off is said of any
change that leaves the signs what they are, and turns nothing else into one (`Keeps`).
-/

namespace Cardfolio.Text

variable {p : Char → Bool} {cs ds : List Char}

/-- A change of characters under which those with a property keep it, and no others get it. -/
def Keeps (f : Char → Char) (p : Char → Bool) : Prop :=
  ∀ c, p (f c) = p c

namespace Keeps

variable {f : Char → Char} (h : Keeps f p)

include h

theorem comp_eq : p ∘ f = p :=
  funext h

theorem any_map (cs : List Char) : (cs.map f).any p = cs.any p := by
  rw [List.any_map, h.comp_eq]

theorem all_map (cs : List Char) : (cs.map f).all p = cs.all p := by
  rw [List.all_map, h.comp_eq]

theorem filter_map (cs : List Char) : (cs.map f).filter p = (cs.filter p).map f := by
  rw [List.filter_map, h.comp_eq]

theorem dropWhile_map (cs : List Char) : (cs.map f).dropWhile p = (cs.dropWhile p).map f := by
  rw [List.dropWhile_map, h.comp_eq]

theorem takeWhile_map (cs : List Char) : (cs.map f).takeWhile p = (cs.takeWhile p).map f := by
  rw [List.takeWhile_map, h.comp_eq]

theorem trimEnd_map (cs : List Char) : trimEnd p (cs.map f) = (trimEnd p cs).map f := by
  rw [trimEnd, ← List.map_reverse, h.dropWhile_map, ← List.map_reverse, trimEnd]

theorem trim_map (cs : List Char) : trim p (cs.map f) = (trim p cs).map f := by
  show trimEnd p ((cs.map f).dropWhile p) = _
  rw [h.dropWhile_map, h.trimEnd_map]
  rfl

end Keeps

theorem trimEnd_append {back : List Char} (hback : ∀ c ∈ back, p c = true) :
    trimEnd p (cs ++ back) = trimEnd p cs := by
  rw [trimEnd, List.reverse_append,
    List.dropWhile_append_of_pos fun c hc => hback c (List.mem_reverse.mp hc), trimEnd]

theorem trim_padded {front back : List Char} (hfront : ∀ c ∈ front, p c = true)
    (hback : ∀ c ∈ back, p c = true) : trim p (front ++ (cs ++ back)) = trim p cs := by
  show trimEnd p ((front ++ (cs ++ back)).dropWhile p) = trimEnd p (cs.dropWhile p)
  rw [List.dropWhile_append_of_pos hfront, List.dropWhile_append]
  split
  · next hempty =>
      rw [List.dropWhile_eq_nil_iff.mpr hback, List.isEmpty_iff.mp hempty]
  · exact trimEnd_append hback

/-- A property of characters that does not depend on the case of ASCII letters. -/
def IsCaseless (p : Char → Bool) : Prop :=
  Keeps Char.toLower p

/-- What holds of the letters of ASCII, looked at one by one. -/
theorem forall_letters {P : Char → Prop}
    (h : ∀ n < 128, (Char.ofNat n).isAlpha = true → P (Char.ofNat n)) {c : Char}
    (hc : c.isAlpha = true) : P c := by
  have hascii := h c.toNat (of_isAlpha hc).1
  rw [Char.ofNat_toNat] at hascii
  exact hascii hc

/-- What all letters have in common, or none has, does not depend on case. -/
theorem isCaseless_of_letters (b : Bool)
    (h : ∀ n < 128, (Char.ofNat n).isAlpha = true → p (Char.ofNat n) = b) : IsCaseless p := by
  have hletter : ∀ c, c.isAlpha = true → p c = b :=
    fun c hc => forall_letters (P := fun c => p c = b) h hc
  intro c
  cases hc : c.isAlpha with
  | true => rw [hletter _ (of_isAlpha hc).2.1, hletter c hc]
  | false => rw [toLower_eq_self hc]

theorem isCaseless_isBlank : IsCaseless isBlank :=
  isCaseless_of_letters false (by decide)

theorem toLower_toLower (c : Char) : c.toLower.toLower = c.toLower := by
  cases hc : c.isAlpha with
  | true => exact forall_letters (P := fun c => c.toLower.toLower = c.toLower) (by decide) hc
  | false => rw [toLower_eq_self hc, toLower_eq_self hc]

/-- No letter becomes what is no letter. -/
theorem toLower_eq_iff {c d : Char} (hd : d.isAlpha = false) : c.toLower = d ↔ c = d := by
  constructor
  · intro h
    have hlower : c.toLower = d.toLower := h.trans (toLower_eq_self hd).symm
    rcases eq_or_isAlpha hlower with heq | hletters
    · exact heq
    · rw [hd] at hletters
      cases hletters.2
  · rintro rfl
    exact toLower_eq_self hd

theorem recased_iff : Recased cs ds ↔ cs.map Char.toLower = ds.map Char.toLower := by
  rw [Recased, ← List.forall₂_eq_eq_eq, List.forall₂_map_left_iff, List.forall₂_map_right_iff]

theorem foldChar_toLower (c : Char) : foldChar c.toLower = foldChar c := by
  cases hc : c.isAlpha with
  | true => exact forall_letters (P := fun c => foldChar c.toLower = foldChar c) (by decide) hc
  | false => rw [toLower_eq_self hc]

theorem fold_map_toLower (cs : List Char) : fold (cs.map Char.toLower) = fold cs := by
  rw [fold, List.flatMap_map]
  exact congrArg (cs.flatMap ·) (funext foldChar_toLower)

/-- Texts that differ in the case of ASCII letters and in the blanks at their ends only. -/
inductive Respelled : List Char → List Char → Prop
  | mk {cs ds : List Char} (h : Recased cs ds) {front front' back back' : List Char}
      (hfront : ∀ c ∈ front, isBlank c = true) (hfront' : ∀ c ∈ front', isBlank c = true)
      (hback : ∀ c ∈ back, isBlank c = true) (hback' : ∀ c ∈ back', isBlank c = true) :
      Respelled (front ++ (cs ++ back)) (front' ++ (ds ++ back'))

theorem Respelled.strip_recased (h : Respelled cs ds) : Recased (strip cs) (strip ds) := by
  obtain ⟨h, hfront, hfront', hback, hback'⟩ := h
  rw [recased_iff, strip, strip, trim_padded hfront hback, trim_padded hfront' hback',
    ← isCaseless_isBlank.trim_map, ← isCaseless_isBlank.trim_map, recased_iff.mp h]

/-- The texts without their blanks are all that needs to be looked at. -/
theorem respelled_iff : Respelled cs ds ↔ Recased (strip cs) (strip ds) := by
  refine ⟨Respelled.strip_recased, fun h => ?_⟩
  obtain ⟨front, back, hcs, hfront, hback⟩ := exists_around_trim isBlank cs
  obtain ⟨front', back', hds, hfront', hback'⟩ := exists_around_trim isBlank ds
  rw [hcs, hds]
  exact .mk h hfront hfront' hback hback'

instance (cs ds : List Char) : Decidable (Respelled cs ds) :=
  decidable_of_iff _ respelled_iff.symm

/-- A text is compared by what is the same for all its spellings. -/
theorem Respelled.comparable_eq (h : Respelled cs ds) : comparable cs = comparable ds := by
  rw [comparable, ← fold_map_toLower, recased_iff.mp h.strip_recased, fold_map_toLower, comparable]

end Cardfolio.Text
