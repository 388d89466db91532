import Cardfolio.Proofs.Pattern.WordStarts
import Cardfolio.Proofs.Text.WordByWord

/-!
# Words in any case

A word of the vocabulary is spelled by letters of either case, and by a few that only stand for an
ASCII letter. What spells it is told by the letters that its characters stand for (`ReadsAs`). In
ASCII this is the word itself once it is put in small letters.
-/

namespace Cardfolio

/-- Characters that stand for the letters of a word in small letters. -/
def Text.ReadsAs (w : List Char) (v : String) : Prop :=
  w.map latinLetter? = v.toList.map some

namespace Pattern

open Text

variable {w : List Char} {v : String}

/-- What spells a word stands for its letters. -/
theorem spells_lit_iff (hv : ∀ c ∈ v.toList, c.isLower = true) : (lit v).Spells w ↔ ReadsAs w v :=
  spells_lit_iff_map hv

end Pattern

namespace Text

variable {c d : Char} {w : List Char} {v : String}

theorem latinLetter?_of_toLower (hd : d.isLower = true) (h : c.toLower = d) :
    latinLetter? c = some d := by
  have halpha : c.isAlpha = true := by
    by_contra hnot
    rw [Bool.not_eq_true] at hnot
    have hletter : d.isAlpha = true := isAlpha_iff.mpr (Or.inr (isLower_iff.mp hd))
    rw [← h, toLower_eq_self hnot, hnot] at hletter
    cases hletter
  rw [latinLetter?, if_pos halpha, h]

theorem toLower_of_latinLetter? (hc : c.toNat < 128) (h : latinLetter? c = some d) :
    c.toLower = d := by
  unfold latinLetter? at h
  split at h
  · exact Option.some.inj h
  · -- The other letters are outside of ASCII.
    have hother : c ∉ ['ſ', 'ı', 'İ', '\u212a'] := by
      intro hmem
      have hcodes : ∀ c ∈ ['ſ', 'ı', 'İ', '\u212a'], 128 ≤ c.toNat := by decide
      exact absurd (hcodes c hmem) (by omega)
    simp only [List.mem_cons, List.not_mem_nil, or_false, not_or] at hother
    obtain ⟨hs, hi, hdot, hk⟩ := hother
    rw [if_neg hs, if_neg (by simp [hi, hdot]), if_neg hk] at h
    cases h

theorem readsAs_of_map_toLower (hv : ∀ c ∈ v.toList, c.isLower = true)
    (h : w.map Char.toLower = v.toList) : ReadsAs w v := by
  rw [ReadsAs, ← h, List.map_map]
  refine List.map_congr_left fun c hc => ?_
  have hmem : c.toLower ∈ v.toList := h ▸ List.mem_map_of_mem hc
  exact latinLetter?_of_toLower (hv _ hmem) rfl

theorem map_toLower_of_readsAs (hw : ∀ c ∈ w, c.toNat < 128) (h : ReadsAs w v) :
    w.map Char.toLower = v.toList := by
  unfold ReadsAs at h
  generalize v.toList = cs at h
  induction w generalizing cs with
  | nil => exact (List.map_eq_nil_iff.mp h.symm).symm
  | cons c w ih =>
      obtain ⟨hc, hw⟩ := List.forall_mem_cons.mp hw
      obtain ⟨d, cs, rfl, hd, hcs⟩ := List.map_eq_cons_iff.mp h.symm
      rw [List.map_cons, toLower_of_latinLetter? hc hd.symm, ih hw cs hcs.symm]

theorem ReadsAs.isWordChar (h : ReadsAs w v) : ∀ c ∈ w, isWordChar c = true := by
  intro c hc
  have hmem : latinLetter? c ∈ v.toList.map some := h ▸ List.mem_map_of_mem hc
  obtain ⟨d, _, hd⟩ := List.mem_map.mp hmem
  exact isWordChar_of_latinLetter? hd.symm

theorem ReadsAs.append {w' : List Char} {v' : String} (h : ReadsAs w v) (h' : ReadsAs w' v') :
    ReadsAs (w ++ w') (v ++ v') := by
  rw [ReadsAs, List.map_append, h, h', String.toList_append, List.map_append]

end Text

end Cardfolio
