import Cardfolio.Proofs.Question.Sources
import Cardfolio.Proofs.Text.WordByWord

/-!
# Questions that read alike

Of a question only the words count, and these in small letters: its normal form is made of them,
with a space between them, and whether it is blank is whether it has any. So a question reads
like its normal form, and like every question that differs from it in the case of ASCII letters
or in the blanks around and between its words. The property that it asks for is found in
the normal form too, and taking the normal form once more changes nothing.
-/

namespace Cardfolio.Question

open Text

variable {settings : Settings} {cs ds : List Char}

theorem normalize_eq (cs : List Char) :
    normalize cs = [' '].intercalate ((words cs).map lower) := by
  have htrimmed : IsTrimmed Text.isBlank (lower (strip cs)) := (isTrimmed_trim _ cs).lower
  rw [normalize, htrimmed.collapse_eq, words_lower, words_strip]

theorem isBlank_iff : isBlank cs = true ↔ words cs = [] := by
  rw [isBlank, List.isEmpty_iff, ← words_strip]
  constructor
  · intro h
    rw [h]
    rfl
  · intro h
    cases hstrip : strip cs with
    | nil => rfl
    | cons c rest =>
        have hc : Text.isBlank c = false :=
          (isTrimmed_trim Text.isBlank cs).head c (by rw [← strip, hstrip]; rfl)
        have hany : (strip cs).any (!Text.isBlank ·) = true := by
          rw [hstrip, List.any_cons, hc]
          rfl
        exact (words_ne_nil hany h).elim

/-- Texts with the same words, when these are in small letters. -/
def SameWords (cs ds : List Char) : Prop :=
  (words cs).map lower = (words ds).map lower

theorem sameWords_normalize (cs : List Char) : SameWords (normalize cs) cs := by
  have hwords : words (normalize cs) = (words cs).map lower := by
    rw [normalize_eq]
    refine words_intercalate fun w hw => ?_
    obtain ⟨v, hv, rfl⟩ := List.mem_map.mp hw
    exact ⟨mt lower_eq_nil_iff.mp (ne_nil_of_mem_words hv),
      staysOut_isBlank.of_mem_lower (isBlank_of_mem_words hv)⟩
  rw [SameWords, hwords, List.map_map]
  exact List.map_congr_left fun w _ => lower_lower w

theorem SameWords.normalize_eq (h : SameWords cs ds) : normalize cs = normalize ds := by
  rw [Question.normalize_eq, h, Question.normalize_eq]

theorem SameWords.isBlank_eq (h : SameWords cs ds) : isBlank cs = isBlank ds := by
  rw [Bool.eq_iff_iff, isBlank_iff, isBlank_iff, ← List.map_eq_nil_iff (f := lower), h,
    List.map_eq_nil_iff]

theorem SameWords.property?_eq (h : SameWords cs ds) : property? cs = property? ds := by
  rw [property?, h.isBlank_eq, h.normalize_eq, property?]

theorem SameWords.read_eq {text text' : String} (h : SameWords text.toList text'.toList) :
    read settings text = read settings text' := by
  rw [read, h.isBlank_eq, h.normalize_eq, read]

/-- The property of a reading is the one that is found in the text itself. -/
theorem property_of_read {text : String} {e : Entities} (h : read settings text = .ok e) :
    e.property = property? text.toList :=
  (mentions_of_read h).property.trans (sameWords_normalize text.toList).property?_eq

/-- The ways to write the same question differently. -/
inductive Rewritten : List Char → List Char → Prop
  | recased {cs ds : List Char} (h : Recased cs ds) : Rewritten cs ds
  | respaced {gap gap' : List Char} (before after : List Char) (hne : gap ≠ []) (hne' : gap' ≠ [])
      (hgap : ∀ c ∈ gap, Text.isBlank c = true) (hgap' : ∀ c ∈ gap', Text.isBlank c = true) :
      Rewritten (before ++ (gap ++ after)) (before ++ (gap' ++ after))
  | padded {front back : List Char} (cs : List Char) (hfront : ∀ c ∈ front, Text.isBlank c = true)
      (hback : ∀ c ∈ back, Text.isBlank c = true) : Rewritten cs (front ++ (cs ++ back))
  | trans {cs ds es : List Char} (h : Rewritten cs ds) (h' : Rewritten ds es) : Rewritten cs es

theorem Rewritten.sameWords (h : Rewritten cs ds) : SameWords ds cs := by
  induction h with
  | recased h => rw [SameWords, ← words_lower, ← words_lower, h.lower_eq]
  | respaced before after hne hne' hgap hgap' =>
      rw [SameWords, words_append_blanks hne hgap, words_append_blanks hne' hgap']
  | padded cs hfront hback =>
      rw [SameWords, words_blanks_append hfront, words_append_gap hback]
  | trans _ _ ih ih' => exact ih'.trans ih

/-- A question reads like its normal form and like every other way to write it, and its property
is the one that is found in it without reading the rest. -/
theorem read_normalizes (settings : Settings) (text : String) :
    read settings (String.ofList (normalize text.toList)) = read settings text ∧
      (∀ text' : String, Rewritten text.toList text'.toList →
        read settings text' = read settings text) ∧
      ∀ e, read settings text = .ok e → e.property = property? text.toList := by
  refine ⟨SameWords.read_eq ?_, fun text' h => h.sameWords.read_eq, fun e h => property_of_read h⟩
  rw [String.toList_ofList]
  exact sameWords_normalize text.toList

theorem read_normalizes_capitals :
    read {} "TOTAL BALANCE BY ISSUER" = read {} "total balance by issuer" ∧
      read {} "total balance\t by issuer" = read {} "total balance by issuer" ∧
      ∃ e, read {} "total balance by issuer" = .ok e ∧ e.property = some "balance" := by
  have h := (read_normalizes {} "total balance by issuer").2
  have hspace : "total balance by issuer".toList
      = "total balance".toList ++ ([' '] ++ "by issuer".toList) := by decide +kernel
  have htab : "total balance\t by issuer".toList
      = "total balance".toList ++ (['\t', ' '] ++ "by issuer".toList) := by decide +kernel
  refine ⟨h.1 _ (.recased (by decide +kernel)), h.1 _ ?_, ?_⟩
  · rw [hspace, htab]
    exact .respaced _ _ (List.cons_ne_nil _ _) (List.cons_ne_nil _ _) (by decide) (by decide)
  · obtain ⟨e, he⟩ : ∃ e, read {} "total balance by issuer" = .ok e :=
      exists_read_of_short (by decide) (by decide +kernel)
    refine ⟨e, he, (h.2 e he).trans ?_⟩
    decide +kernel

end Cardfolio.Question
