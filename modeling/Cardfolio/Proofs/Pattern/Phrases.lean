import Cardfolio.Proofs.Pattern.Spelling
import Cardfolio.Proofs.Text.Small
import Cardfolio.Proofs.Text.Words
import Cardfolio.Question.Condition
import Mathlib.Data.List.Forall2

/-!
# What phrases spell

The patterns of the vocabulary are put together from a few forms, and each spells what
its name says. The one thing to watch is case. A word is written in small letters and
spelled by letters of either case and by a few that are neither; but in a text of
small letters, among which there is no stray one, only the word itself spells it
(`eq_of_spells_lit`). So a phrase from a list of phrases, with single spaces put
between its words, is found in the list again (`respaced_mem_of_spells`).
-/

namespace Cardfolio.Pattern

open Text

theorem spells_sequence_cons {p : Pattern} {ps : List Pattern} {s : List Char} :
    (sequence (p :: ps)).Spells s ↔ ∃ a b, p.Spells a ∧ (sequence ps).Spells b ∧ s = a ++ b := by
  cases ps with
  | nil =>
      constructor
      · intro h
        exact ⟨s, [], h, rfl, (List.append_nil s).symm⟩
      · rintro ⟨a, b, ha, rfl, rfl⟩
        rw [List.append_nil]
        exact ha
  | cons q ps => exact Iff.rfl

/-- Single characters one after another. -/
theorem spells_ones_iff {k : Char → CharClass} {cs s : List Char} :
    (sequence (cs.map fun c => one (k c))).Spells s ↔
      List.Forall₂ (fun d c => (k c).accepts d = true) s cs := by
  induction cs generalizing s with
  | nil =>
      rw [List.forall₂_nil_right_iff]
      exact Iff.rfl
  | cons c cs ih =>
      rw [List.map_cons, spells_sequence_cons, List.forall₂_cons_right_iff]
      simp only [ih]
      constructor
      · rintro ⟨_, b, ⟨d, hd, rfl⟩, hb, rfl⟩
        exact ⟨d, b, hd, hb, rfl⟩
      · rintro ⟨d, b, hd, hb, rfl⟩
        exact ⟨[d], b, ⟨d, hd, rfl⟩, hb, rfl⟩

theorem spells_spelled {w : String} {s : List Char} (h : (spelled w).Spells s) :
    s = w.toList := by
  have hread := spells_ones_iff.mp h
  rw [← List.forall₂_eq_eq_eq]
  exact hread.imp fun _ _ hd => beq_iff_eq.mp hd

theorem spells_spaced_cons_cons {p q : Pattern} {ps : List Pattern} {s : List Char} :
    (spaced (p :: q :: ps)).Spells s ↔
      ∃ a g b, p.Spells a ∧ g ≠ [] ∧ (∀ c ∈ g, isBlank c = true) ∧
        (spaced (q :: ps)).Spells b ∧ s = a ++ (g ++ b) := by
  constructor
  · rintro ⟨a, r, ha, ⟨g, b, ⟨hne, hg⟩, hb, rfl⟩, rfl⟩
    exact ⟨a, g, b, ha, hne, hg, hb, rfl⟩
  · rintro ⟨a, g, b, ha, hne, hg, hb, rfl⟩
    exact ⟨a, g ++ b, ha, ⟨g, b, ⟨hne, hg⟩, hb, rfl⟩, rfl⟩

theorem exists_spells_of_spells_anyOf {ps : List Pattern} (hne : ps ≠ []) {s : List Char}
    (h : (anyOf ps).Spells s) : ∃ p ∈ ps, p.Spells s := by
  induction ps with
  | nil => exact (hne rfl).elim
  | cons p ps ih =>
      cases ps with
      | nil => exact ⟨p, List.mem_cons_self, h⟩
      | cons q ps =>
          rcases h with h | h
          · exact ⟨p, List.mem_cons_self, h⟩
          · obtain ⟨r, hr, hs⟩ := ih (List.cons_ne_nil _ _) h
            exact ⟨r, List.mem_cons_of_mem _ hr, hs⟩

theorem spells_maybe {p : Pattern} {s : List Char} :
    (maybe p).Spells s ↔ p.Spells s ∨ s = [] := Iff.rfl

theorem spells_many {k : CharClass} {s : List Char} :
    (many k).Spells s ↔ ∀ c ∈ s, k.accepts c = true := by
  show (s ≠ [] ∧ _) ∨ s = [] ↔ _
  constructor
  · rintro (⟨_, h⟩ | rfl)
    · exact h
    · exact fun _ hc => (List.not_mem_nil hc).elim
  · intro h
    by_cases hs : s = []
    · exact Or.inr hs
    · exact Or.inl ⟨hs, h⟩

theorem mem_of_accepts_charOf {s : String} (hne : s.toList ≠ []) {c : Char}
    (h : (charOf s).accepts c = true) : c ∈ s.toList := by
  have hfold : ∀ (cs : List Char) (k : CharClass),
      ((cs.map CharClass.exactly).foldl CharClass.either k).accepts c = true →
        k.accepts c = true ∨ c ∈ cs := by
    intro cs
    induction cs with
    | nil => exact fun _ h => Or.inl h
    | cons d cs ih =>
        intro k h
        rcases ih _ h with h | h
        · rcases Bool.or_eq_true_iff.mp h with h | h
          · exact Or.inl h
          · exact Or.inr (List.mem_cons.mpr (Or.inl (beq_iff_eq.mp h)))
        · exact Or.inr (List.mem_cons_of_mem d h)
  obtain ⟨d, cs, hcs⟩ := List.exists_cons_of_ne_nil hne
  rw [charOf, hcs] at h
  rw [hcs, List.mem_cons]
  exact (hfold cs _ h).imp beq_iff_eq.mp id

theorem mayBeEmpty_sequence {p : Pattern} (hp : p.mayBeEmpty = false) {ps : List Pattern}
    (hmem : p ∈ ps) : (sequence ps).mayBeEmpty = false := by
  induction ps with
  | nil => cases hmem
  | cons q ps ih =>
      cases ps with
      | nil =>
          rw [← List.mem_singleton.mp hmem]
          exact hp
      | cons r ps =>
          show (q.mayBeEmpty && (sequence (r :: ps)).mayBeEmpty) = false
          rw [Bool.and_eq_false_iff]
          rcases List.mem_cons.mp hmem with rfl | hmem
          · exact Or.inl hp
          · exact Or.inr (ih hmem)

theorem parts_sequence {ps : List Pattern} (h : ∀ p ∈ ps, p.parts = []) :
    (sequence ps).parts = [] := by
  induction ps using sequence.induct with
  | case1 => rfl
  | case2 p => exact h p (List.mem_singleton_self p)
  | case3 p ps hne ih =>
      rw [sequence, parts, h p List.mem_cons_self,
        ih fun q hq => h q (List.mem_cons_of_mem p hq), List.nil_append]
      exact hne

theorem parts_spaced {ps : List Pattern} (h : ∀ p ∈ ps, p.parts = []) :
    (spaced ps).parts = [] := by
  induction ps using spaced.induct with
  | case1 => rfl
  | case2 p => exact h p (List.mem_singleton_self p)
  | case3 p ps hne ih =>
      rw [spaced, parts, parts, h p List.mem_cons_self,
        ih fun q hq => h q (List.mem_cons_of_mem p hq)]
      · rfl
      · exact hne

theorem parts_anyOf {ps : List Pattern} (h : ∀ p ∈ ps, p.parts = []) :
    (anyOf ps).parts = [] := by
  induction ps using anyOf.induct with
  | case1 => rfl
  | case2 p => exact h p (List.mem_singleton_self p)
  | case3 p ps hne ih =>
      rw [anyOf, parts, h p List.mem_cons_self,
        ih fun q hq => h q (List.mem_cons_of_mem p hq), List.nil_append]
      exact hne

theorem parts_letters (cs : List Char) (k : Char → CharClass) :
    (sequence (cs.map fun c => one (k c))).parts = [] :=
  parts_sequence <| List.forall_mem_map.mpr fun _ _ => rfl

/-- An ASCII letter in a text of small letters is the letter that it stands for. -/
theorem eq_of_latinLetter? {c d : Char} (hsmall : IsSmall c) (hstray : c ∉ strayLetters)
    (h : latinLetter? c = some d) : c = d := by
  unfold latinLetter? at h
  split at h
  · next halpha =>
      have hascii : c.toNat < 128 := by
        have := isAlpha_iff.mp halpha
        omega
      have := hsmall.toSmall_eq
      rw [toSmall, if_pos hascii] at this
      rw [← this]
      exact Option.some.inj h
  · split at h
    · next hs => exact absurd hs (by rintro rfl; exact hstray (by decide))
    · split at h
      · next hi =>
          simp only [Bool.or_eq_true, decide_eq_true_eq] at hi
          rcases hi with rfl | rfl
          · exact absurd (by decide) hstray
          · exact absurd rfl hsmall.not_dotted
      · split at h
        · next hk =>
            have := hsmall.toSmall_eq
            rw [hk] at this
            exact absurd this (by decide)
        · cases h

theorem eq_of_caseless_accepts {c d : Char} (hsmall : IsSmall d) (hstray : d ∉ strayLetters)
    (h : (caseless c).accepts d = true) : d = c := by
  unfold caseless at h
  split at h
  · exact eq_of_latinLetter? hsmall hstray (by simpa [CharClass.accepts] using h)
  · simpa [CharClass.accepts] using h

/-- Small letters without a stray one. -/
def IsPlain (s : List Char) : Prop :=
  ∀ c ∈ s, IsSmall c ∧ c ∉ strayLetters

theorem IsPlain.of_subset {r s : List Char} (h : IsPlain s) (hr : r ⊆ s) : IsPlain r :=
  fun c hc => h c (hr hc)

theorem eq_of_spells_lit {w : String} {s : List Char} (hs : IsPlain s)
    (h : (lit w).Spells s) : s = w.toList := by
  have hread := (List.forall₂_and_left s w.toList).mpr ⟨hs, spells_ones_iff.mp h⟩
  rw [← List.forall₂_eq_eq_eq]
  exact hread.imp fun _ _ ⟨⟨hsmall, hstray⟩, hd⟩ => eq_of_caseless_accepts hsmall hstray hd

theorem exists_of_spells_oneOf {ws : List String} (hne : ws ≠ []) {s : List Char} (hs : IsPlain s)
    (h : (oneOf ws).Spells s) : ∃ w ∈ ws, s = w.toList := by
  obtain ⟨p, hp, h⟩ := exists_spells_of_spells_anyOf (mt List.map_eq_nil_iff.mp hne) h
  obtain ⟨w, hw, rfl⟩ := List.mem_map.mp hp
  exact ⟨w, hw, eq_of_spells_lit hs h⟩

theorem mayBeEmpty_lit {w : String} (h : w.toList ≠ []) : (lit w).mayBeEmpty = false := by
  obtain ⟨c, cs, hw⟩ := List.exists_cons_of_ne_nil h
  refine mayBeEmpty_sequence (p := one (caseless c)) rfl ?_
  rw [hw]
  exact List.mem_cons_self

/-- A phrase is made of words with single spaces between them. -/
def IsPhrase (s : String) : Prop :=
  (∀ w ∈ keywordWords s, w.toList ≠ [] ∧ ∀ c ∈ w.toList, isBlank c = false) ∧
    keywordWords s ≠ [] ∧ " ".intercalate (keywordWords s) = s

instance (s : String) : Decidable (IsPhrase s) :=
  -- There are finitely many characters, but it is the word that has to be gone through.
  let _ (w : String) : Decidable (∀ c ∈ w.toList, isBlank c = false) := List.decidableBAll _ _
  inferInstanceAs (Decidable (_ ∧ _ ∧ _))

theorem words_of_spells_spaced {ws : List String} (hne : ws ≠ [])
    (hws : ∀ w ∈ ws, w.toList ≠ [] ∧ ∀ c ∈ w.toList, isBlank c = false) {s : List Char}
    (hs : IsPlain s) (h : (spaced (ws.map lit)).Spells s) : words s = ws.map String.toList := by
  induction ws generalizing s with
  | nil => exact (hne rfl).elim
  | cons w ws ih =>
      obtain ⟨⟨hwne, hw⟩, hws⟩ := List.forall_mem_cons.mp hws
      cases ws with
      | nil =>
          rw [eq_of_spells_lit hs h]
          exact words_of_forall hwne hw
      | cons v ws =>
          rw [List.map_cons, List.map_cons, spells_spaced_cons_cons] at h
          obtain ⟨a, g, b, ha, hgne, hg, hb, rfl⟩ := h
          rw [eq_of_spells_lit (hs.of_subset (List.subset_append_left _ _)) ha,
            words_append hwne hw hgne hg,
            ih (List.cons_ne_nil _ _) hws (hs.of_subset (fun c hc => by simp [hc])) hb]
          rfl

/-- A keyword that is not blank spells no empty text. -/
theorem mayBeEmpty_keyword {s : String} (h : s.toList.any (!isBlank ·) = true) :
    (keyword s).mayBeEmpty = false := by
  obtain ⟨w, ws, hwords⟩ := List.exists_cons_of_ne_nil (words_ne_nil h)
  have hw : (String.ofList w).toList ≠ [] := by
    rw [String.toList_ofList]
    exact ne_nil_of_mem_words (hwords ▸ List.mem_cons_self)
  have hspaced : (spaced ((keywordWords s).map lit)).mayBeEmpty = false := by
    rw [keywordWords, hwords, List.map_cons, List.map_cons]
    cases ws with
    | nil => exact mayBeEmpty_lit hw
    | cons v ws =>
        show ((lit (String.ofList w)).mayBeEmpty && _) = false
        rw [mayBeEmpty_lit hw, Bool.false_and]
  exact mayBeEmpty_sequence hspaced (by simp)

end Cardfolio.Pattern

namespace Cardfolio

open Pattern Text

theorem Vocabulary.mem_longestFirst {α : Type _} {text : α → String} {xs : List α} {x : α} :
    x ∈ Vocabulary.longestFirst text xs ↔ x ∈ xs := by
  unfold Vocabulary.longestFirst
  rw [Stable.sort_eq_mergeSort, List.mem_mergeSort]

/-- What a list of phrases spells is one of them, with single spaces for its blanks. -/
theorem Condition.respaced_mem_of_spells {phrases : List String} (hne : phrases ≠ [])
    (hphrases : ∀ s ∈ phrases, IsPhrase s) {s : List Char} (hs : IsPlain s)
    (h : (Vocabulary.phraseOf phrases).Spells s) : Condition.respaced s ∈ phrases := by
  have hlongest : Vocabulary.longestFirst id phrases ≠ [] := by
    obtain ⟨phrase, hphrase⟩ := List.exists_mem_of_ne_nil _ hne
    exact List.ne_nil_of_mem (Vocabulary.mem_longestFirst.mpr hphrase)
  obtain ⟨p, hp, hspells⟩ :=
    exists_spells_of_spells_anyOf (fun hnil => hlongest (List.map_eq_nil_iff.mp hnil)) h
  obtain ⟨phrase, hphrase, rfl⟩ := List.mem_map.mp hp
  have hmem := Vocabulary.mem_longestFirst.mp hphrase
  obtain ⟨hwords, hwordsne, heq⟩ := hphrases phrase hmem
  have hback : (keywordWords phrase).map (String.ofList ∘ String.toList)
      = keywordWords phrase :=
    (List.map_congr_left fun w _ => String.ofList_toList).trans (List.map_id _)
  unfold Condition.respaced
  rw [words_of_spells_spaced hwordsne hwords hs hspells, List.map_map, hback, heq]
  exact hmem

theorem Vocabulary.isPhrase_comparingPhrases :
    ∀ s ∈ Vocabulary.comparingPhrases.map (·.1), IsPhrase s := by
  decide +kernel

end Cardfolio
