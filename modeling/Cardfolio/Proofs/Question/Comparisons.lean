import Cardfolio.Proofs.Question.Amounts

/-!
# What is read as a numeric comparison

A match of the comparison pattern has a field, a comparing phrase and a number, each spelled
by its own part of the pattern. The number is read as an amount is, with the sign blanked
out, and fails as an amount does. The phrase is looked up in the table of phrases that the
pattern was made from; it is found there whenever the text is in small letters without a
stray one.
-/

namespace Cardfolio

open Pattern Text

theorem Vocabulary.parts_phraseOf (phrases : List String) : (phraseOf phrases).parts = [] :=
  parts_anyOf <| List.forall_mem_map.mpr fun _ _ =>
    parts_spaced <| List.forall_mem_map.mpr fun w _ => parts_letters w.toList caseless

theorem Vocabulary.parts_comparison :
    comparison.parts = [("field", phraseOf comparedFields),
      ("op", phraseOf (comparingPhrases.map (·.1))), ("value", threshold)] := by
  have hvalue : threshold.parts = [] := rfl
  have hfiller : (few filler 3).parts = [] := rfl
  have hroom : room.parts = [] := rfl
  simp only [comparison, notAfter, Pattern.sequence, parts, parts_phraseOf, hvalue, hfiller, hroom,
    List.nil_append, List.cons_append]

theorem Vocabulary.sureNames_comparison : ∀ name ∈ ["field", "op", "value"],
    name ∈ comparison.sureNames := by
  simp [comparison, Pattern.sequence, sureNames]

theorem Vocabulary.mayBeEmpty_comparison : comparison.mayBeEmpty = false := by
  have hthreshold : (piece "value" threshold).mayBeEmpty = false := rfl
  exact mayBeEmpty_sequence hthreshold (by simp)

namespace Condition

variable {text : List Char} {m : Match}

/-- In a text of small letters without a stray one, what a part for phrases has read is one of
them. -/
theorem respaced_pieceText_mem (htext : IsPlain text) (hm : Vocabulary.comparison.Occurs text m)
    {name : String} {phrases : List String} (hname : name ∈ ["field", "op", "value"])
    (hpart : ∀ q, (name, q) ∈ Vocabulary.comparison.parts → q = Vocabulary.phraseOf phrases)
    (hne : phrases ≠ []) (hphrases : ∀ s ∈ phrases, IsPhrase s) :
    respaced (m.pieceText name) ∈ phrases := by
  obtain ⟨q, hq, hspells, hwithin⟩ := hm.exists_part (Vocabulary.sureNames_comparison name hname)
  rw [hpart q hq] at hspells
  have hplain : IsPlain (m.pieceText name) :=
    htext.of_subset (hwithin.trans hm.isInfix_text).subset
  exact respaced_mem_of_spells hne hphrases hplain hspells

/-- The comparing phrase is in the table. -/
theorem exists_operator (htext : IsPlain text) (hm : Vocabulary.comparison.Occurs text m) :
    ∃ operator, Vocabulary.comparingPhrases.lookup (respaced (m.pieceText "op"))
      = some operator := by
  have hmem : respaced (m.pieceText "op") ∈ Vocabulary.comparingPhrases.map (·.1) :=
    respaced_pieceText_mem htext hm (by decide)
      (fun q hq => by simpa [Vocabulary.parts_comparison] using hq) (by decide)
      Vocabulary.isPhrase_comparingPhrases
  rw [← Option.isSome_iff_exists, ← Option.not_isNone, Bool.not_eq_true', Bool.eq_false_iff]
  intro hnone
  rw [Option.isNone_iff_eq_none, List.lookup_eq_none_iff] at hnone
  obtain ⟨entry, hentry, heq⟩ := List.mem_map.mp hmem
  have := hnone entry hentry
  rw [heq, bne_self_eq_false] at this
  cases this

theorem isNaN_threshold? {raw : List Char} {n : Number} (h : threshold? raw = .ok (some n)) :
    n.isNaN = false := by
  obtain ⟨found, hfound, h⟩ := bind_eq_ok.mp h
  split at h
  · obtain rfl := Option.some.inj (Except.ok.inj h)
    exact Amount.isNaN_first hfound
  · split at h
    · obtain rfl := Option.some.inj (Except.ok.inj h)
      rfl
    · cases h

/-- Digits are left alone when signs are blanked out. -/
theorem isInfix_of_map {raw run : List Char} (hrun : ∀ c ∈ run, isDecimalDigit c = true)
    (h : run <:+: raw.map fun c => if c = '-' then ' ' else c) : run <:+: raw := by
  obtain ⟨left, right, heq⟩ := h
  obtain ⟨front, back, rfl, hfront, _⟩ := List.append_eq_map_iff.mp heq
  obtain ⟨left', middle, rfl, _, hmiddle⟩ := List.append_eq_map_iff.mp hfront.symm
  have hsame : middle.map (fun c => if c = '-' then ' ' else c) = middle := by
    refine (List.map_congr_left fun c hc => ?_).trans (List.map_id _)
    have := hrun _ (hmiddle ▸ List.mem_map_of_mem hc)
    split at this
    · exact absurd this (by decide)
    · next hne => exact if_neg hne
  rw [← hmiddle, hsame]
  exact ⟨left', back, rfl⟩

/-- A number cannot be read only when it has more than 305 digits side by side. -/
theorem exists_run_of_threshold?_eq_error {raw : List Char} (hraw : ∀ c ∈ raw, IsSmall c)
    {f : Fault} (h : threshold? raw = .error f) :
    f = .overflow ∧ ∃ run, run <:+: raw ∧ 305 < run.length ∧
      ∀ c ∈ run, isDecimalDigit c = true := by
  rcases bind_eq_error.mp h with h | ⟨found, _, h⟩
  · obtain ⟨hf, run, hwithin, hlength, hdigits⟩ := Amount.exists_run_of_first_eq_error h
    rw [lower_eq_self] at hwithin
    · exact ⟨hf, run, isInfix_of_map hdigits hwithin, hlength, hdigits⟩
    · intro c hc
      obtain ⟨d, hd, rfl⟩ := List.mem_map.mp hc
      split
      · exact ⟨by decide, by decide, by decide⟩
      · exact hraw d hd
  · split at h
    · cases h
    · split at h
      · cases h
      · cases h

theorem ofComparison_eq_ok {c : Condition} (h : ofComparison m = .ok (some c)) :
    c.span = m.span ∧ ∃ n, c.value = .number n ∧ n.isNaN = false := by
  obtain ⟨found, hfound, h⟩ := bind_eq_ok.mp h
  split at h
  · cases h
  · dsimp only at h
    split at h
    · cases h
    · rw [← Option.some.inj (Except.ok.inj h)]
      exact ⟨rfl, _, rfl, isNaN_threshold? hfound⟩

theorem ofComparison_eq_error {f : Fault} (h : ofComparison m = .error f) :
    threshold? (m.pieceText "value") = .error f ∨
      ∃ phrase, f = .unknownPhrase phrase ∧ phrase = respaced (m.pieceText "op") ∧
        Vocabulary.comparingPhrases.lookup phrase = none := by
  rcases bind_eq_error.mp h with h | ⟨found, _, h⟩
  · exact Or.inl h
  · split at h
    · cases h
    · dsimp only at h
      split at h
      · next hnone =>
          exact Or.inr ⟨_, (Except.error.inj h).symm, rfl, hnone⟩
      · cases h

/-- The condition of a match, if it is read as one. -/
theorem join_eq_some {c : Condition} :
    (ofComparison m).toOption.join = some c ↔ ofComparison m = .ok (some c) := by
  cases ofComparison m with
  | error f => exact ⟨nofun, nofun⟩
  | ok r => exact ⟨congrArg Except.ok, Except.ok.inj⟩

/-- Comparisons are read match by match. -/
theorem comparisons_eq {found : List Condition} (h : comparisons text = .ok found) :
    found = (Vocabulary.comparison.findAll text).filterMap
      fun m => (ofComparison m).toOption.join := by
  obtain ⟨results, hresults, h⟩ := bind_eq_ok.mp h
  have hmap : results = (Vocabulary.comparison.findAll text).map
      fun m => (ofComparison m).toOption.join := by
    refine eq_map_of_mapM_eq_ok hresults fun m _ r hr => ?_
    rw [hr]
    rfl
  rw [← Except.ok.inj h, hmap, List.filterMap_map]
  rfl

/-- The comparisons that are read in a text are its matches that can be read. -/
theorem mem_comparisons_iff {found : List Condition} (h : comparisons text = .ok found)
    {c : Condition} :
    c ∈ found ↔ ∃ m ∈ Vocabulary.comparison.findAll text, ofComparison m = .ok (some c) := by
  rw [comparisons_eq h, List.mem_filterMap]
  simp only [join_eq_some]

theorem exists_of_mem_comparisons {found : List Condition} (h : comparisons text = .ok found)
    {c : Condition} (hc : c ∈ found) :
    ∃ m, Vocabulary.comparison.Occurs text m ∧ ofComparison m = .ok (some c) := by
  obtain ⟨m, hm, heq⟩ := (mem_comparisons_iff h).mp hc
  exact ⟨m, occurs_of_mem_findAll hm, heq⟩

/-- In a text of small letters, comparisons fail for a phrase with a stray letter or for a
number with more than 305 digits side by side. -/
theorem comparisons_eq_error (htext : ∀ c ∈ text, IsSmall c) {f : Fault}
    (h : comparisons text = .error f) :
    (∃ phrase, f = .unknownPhrase phrase ∧ ∃ c ∈ strayLetters, c ∈ text) ∨
      (f = .overflow ∧ ∃ run, run <:+: text ∧ 305 < run.length ∧
        ∀ c ∈ run, isDecimalDigit c = true) := by
  rcases bind_eq_error.mp h with h | ⟨_, _, h⟩
  · obtain ⟨m, hm, herror⟩ := exists_of_mapM_eq_error h
    have hoccurs := occurs_of_mem_findAll hm
    rcases ofComparison_eq_error herror with herror | ⟨phrase, hf, rfl, hnone⟩
    · obtain ⟨_, _, _, hwithin⟩ :=
        hoccurs.exists_part (Vocabulary.sureNames_comparison "value" (by decide))
      have hpiece := hwithin.trans hoccurs.isInfix_text
      obtain ⟨hf, run, hrun, hlength, hdigits⟩ :=
        exists_run_of_threshold?_eq_error (fun c hc => htext c (hpiece.subset hc)) herror
      exact Or.inr ⟨hf, run, hrun.trans hpiece, hlength, hdigits⟩
    · refine Or.inl ⟨_, hf, ?_⟩
      by_contra hstray
      have hplain : IsPlain text :=
        fun c hc => ⟨htext c hc, fun hmem => hstray ⟨c, hmem, hc⟩⟩
      obtain ⟨operator, hoperator⟩ := exists_operator hplain hoccurs
      rw [hnone] at hoperator
      cases hoperator
  · cases h

end Condition

end Cardfolio
