import Cardfolio.Proofs.Text.Ends
import Cardfolio.Proofs.Text.Words
import Mathlib.Data.List.Forall2

/-!
# Lower-casing word by word

Whether a capital sigma is final depends on the letters around it, and the one that counts may
be any number of marks away. But it is not past a blank, because a blank is neither a mark nor a
letter with case. So the words of a text are lower-cased one by one, and the blanks between them
stay what they were.

Blanks taken off at the ends and a single space for each run of the others leave just the words
with a space between them. What these blanks have been is forgotten, and so is the case of an
ASCII letter: both of its forms count as a letter with case, and have the same small form.
-/

namespace Cardfolio.Text

variable {p : Char → Bool} {cs ds : List Char} {b c : Char}

/-- Behind a blank, a text that does not end in one leaves its words. -/
theorem joinRunsFrom_eq_intercalate (h : ∀ c ∈ cs.getLast?, isBlank c = false) :
    joinRunsFrom isBlank ' ' true cs = [' '].intercalate (words cs) := by
  induction cs using induction_on_parts isBlank with
  | part w hw =>
      rw [joinRunsFrom_eq_self hw]
      cases w with
      | nil => rfl
      | cons c w => rw [words_of_forall (List.cons_ne_nil c w) hw, List.intercalate_singleton]
  | gap w b rest hw hb ih =>
      have hrest : rest ≠ [] := by
        rintro rfl
        rw [h b (by rw [List.getLast?_append]; rfl)] at hb
        cases hb
      obtain ⟨last, hlast⟩ := Option.isSome_iff_exists.mp (List.getLast?_isSome.mpr hrest)
      have hlast' : (w ++ b :: rest).getLast? = some last := by
        rw [List.getLast?_append, List.getLast?_cons, hlast]
        rfl
      have hnotBlank : isBlank last = false := h last hlast'
      have ih := ih fun c hc => by rwa [← Option.some.inj (hlast.symm.trans hc)]
      cases w with
      | nil =>
          rw [List.nil_append, joinRunsFrom, if_pos hb, if_pos rfl, ih, words_blank_cons hb]
      | cons c w =>
          have hwords : words rest ≠ [] :=
            words_ne_nil (List.any_eq_true.mpr
              ⟨last, List.mem_of_getLast? hlast, by rw [hnotBlank]; rfl⟩)
          rw [joinRunsFrom_append hw, joinRunsFrom, if_pos hb, List.isEmpty_cons, Bool.false_and,
            if_neg Bool.false_ne_true, ih, words_append_blank hb,
            words_of_forall (List.cons_ne_nil c w) hw, List.singleton_append,
            List.intercalate_cons_of_ne_nil hwords, List.append_assoc]
          rfl

theorem IsTrimmed.collapse_eq (h : IsTrimmed isBlank cs) :
    collapse cs = [' '].intercalate (words cs) := by
  rw [← joinRunsFrom_eq_intercalate h.last]
  cases cs with
  | nil => rfl
  | cons c cs => rw [collapse, joinRuns, joinRunsFrom, joinRunsFrom, h.head c rfl]; rfl

/-- A character past which nothing counts for a capital sigma: it has no case, stays what it is,
and is none of the marks that are looked past. -/
structure EndsWords (b : Char) : Prop where
  isSmall : IsSmall b
  not_ignorable : caseIgnorable.contains b = false
  not_cased : casedLetters.contains b = false

theorem forall_mem_blankCodes_noCase : ∀ n ∈ blankCodes,
    caseIgnorable.contains (Char.ofNat n) = false ∧
      casedLetters.contains (Char.ofNat n) = false := by
  decide +kernel

theorem endsWords_of_isBlank (h : isBlank b = true) : EndsWords b := by
  have hcode := forall_mem_blankCodes_noCase b.toNat (toNat_mem_blankCodes h)
  rw [Char.ofNat_toNat] at hcode
  exact ⟨(isPlainBlank_of_isBlank h).isSmall, hcode.1, hcode.2⟩

/-- Nothing counts past the end of a word. -/
theorem nearCased_append_end (hb : EndsWords b) (cs ds : List Char) :
    nearCased (cs ++ b :: ds) = nearCased cs := by
  have hdrop : (b :: ds).dropWhile caseIgnorable.contains = b :: ds :=
    List.dropWhile_cons_of_neg (by rw [hb.not_ignorable]; exact Bool.false_ne_true)
  rw [nearCased, nearCased, List.dropWhile_append, hdrop]
  split
  · next h =>
      rw [List.isEmpty_iff.mp h]
      exact hb.not_cased
  · next h =>
      obtain ⟨c, rest, hrest⟩ := List.exists_cons_of_ne_nil (mt List.isEmpty_iff.mpr h)
      rw [hrest]
      rfl

theorem lowerAfter_append_end (hb : EndsWords b) (before behind cs : List Char) :
    lowerAfter (before ++ b :: behind) cs = lowerAfter before cs := by
  induction cs generalizing before with
  | nil => rfl
  | cons c cs ih =>
      rw [lowerAfter, lowerAfter, ← List.cons_append, ih (c :: before), lowerBetween,
        nearCased_append_end hb, lowerBetween]

theorem lower_append_end (hb : EndsWords b) (cs ds : List Char) :
    lower (cs ++ b :: ds) = lower cs ++ b :: lower ds := by
  suffices h : ∀ before, lowerAfter before (cs ++ b :: ds)
      = lowerAfter before cs ++ b :: lowerAfter [] ds from h []
  induction cs with
  | nil =>
      intro before
      show lowerBetween before b ds ++ lowerAfter ([] ++ b :: before) ds = b :: lowerAfter [] ds
      rw [hb.isSmall.lowerBetween_eq, lowerAfter_append_end hb]
      rfl
  | cons c cs ih =>
      intro before
      rw [List.cons_append, lowerAfter, lowerAfter, ih, List.append_assoc, lowerBetween,
        nearCased_append_end hb, lowerBetween]

theorem lower_gap_append {gap : List Char} (hgap : ∀ c ∈ gap, EndsWords c) (ds : List Char) :
    lower (gap ++ ds) = gap ++ lower ds := by
  induction gap with
  | nil => rfl
  | cons c gap ih =>
      obtain ⟨hc, hgap⟩ := List.forall_mem_cons.mp hgap
      have hlower : lower ([] ++ c :: (gap ++ ds)) = [] ++ c :: lower (gap ++ ds) :=
        lower_append_end hc [] (gap ++ ds)
      rw [List.cons_append, List.cons_append, ← ih hgap]
      exact hlower

/-- The text in front of a gap and the text behind it are made small one by one. -/
theorem lower_append_gap_append {gap : List Char} (hne : gap ≠ [])
    (hgap : ∀ c ∈ gap, EndsWords c) (cs ds : List Char) :
    lower (cs ++ (gap ++ ds)) = lower cs ++ (gap ++ lower ds) := by
  obtain ⟨c, gap, rfl⟩ := List.exists_cons_of_ne_nil hne
  obtain ⟨hc, hgap⟩ := List.forall_mem_cons.mp hgap
  rw [List.cons_append, lower_append_end hc, lower_gap_append hgap, List.cons_append]

theorem lower_append_gap {gap : List Char} (hgap : ∀ c ∈ gap, EndsWords c) (cs : List Char) :
    lower (cs ++ gap) = lower cs ++ gap := by
  cases gap with
  | nil => rw [List.append_nil, List.append_nil]
  | cons c gap =>
      have h := lower_append_gap_append (List.cons_ne_nil c gap) hgap cs []
      rwa [List.append_nil, show lower [] = [] from rfl, List.append_nil] at h

theorem lower_append_blank (hb : isBlank b = true) (cs ds : List Char) :
    lower (cs ++ b :: ds) = lower cs ++ b :: lower ds :=
  lower_append_end (endsWords_of_isBlank hb) cs ds

theorem lower_eq_nil_iff : lower cs = [] ↔ cs = [] :=
  lowerAfter_eq_nil

theorem words_lower (cs : List Char) : words (lower cs) = (words cs).map lower := by
  have hword : ∀ w, (∀ c ∈ w, isBlank c = false) → words (lower w) = (words w).map lower := by
    intro w hw
    cases w with
    | nil => rfl
    | cons c w =>
        rw [words_of_forall (List.cons_ne_nil c w) hw,
          words_of_forall (mt lower_eq_nil_iff.mp (List.cons_ne_nil c w))
            (staysOut_isBlank.of_mem_lower hw)]
        rfl
  induction cs using induction_on_parts isBlank with
  | part w hw => exact hword w hw
  | gap w b rest hw hb ih =>
      rw [lower_append_blank hb, words_append_blank hb, words_append_blank hb, ih, hword w hw,
        List.map_append]

theorem isAlpha_ascii : ∀ n < 128, (Char.ofNat n).isAlpha = true →
    (Char.ofNat n).toLower.isAlpha = true ∧ caseIgnorable.contains (Char.ofNat n) = false ∧
      casedLetters.contains (Char.ofNat n) = true := by
  decide +kernel

theorem of_isAlpha (h : c.isAlpha = true) : c.toNat < 128 ∧ c.toLower.isAlpha = true ∧
    caseIgnorable.contains c = false ∧ casedLetters.contains c = true := by
  have hlt : c.toNat < 128 := by
    have := isAlpha_iff.mp h
    omega
  have hascii := isAlpha_ascii c.toNat hlt
  rw [Char.ofNat_toNat] at hascii
  exact ⟨hlt, hascii h⟩

theorem toLower_eq_self (h : c.isAlpha = false) : c.toLower = c := by
  unfold Char.toLower
  rw [dif_neg]
  intro hupper
  have halpha : c.isAlpha = true := isAlpha_iff.mpr
    (Or.inl ⟨UInt32.le_iff_toNat_le.mp hupper.1, UInt32.le_iff_toNat_le.mp hupper.2⟩)
  rw [halpha] at h
  cases h

/-- Characters that are alike but for their case are the same or are ASCII letters. -/
theorem eq_or_isAlpha {d : Char} (h : c.toLower = d.toLower) :
    c = d ∨ c.isAlpha = true ∧ d.isAlpha = true := by
  cases hc : c.isAlpha with
  | true =>
      cases hd : d.isAlpha with
      | true => exact Or.inr ⟨rfl, rfl⟩
      | false =>
          have hlower := (of_isAlpha hc).2.1
          rw [h, toLower_eq_self hd, hd] at hlower
          cases hlower
  | false =>
      cases hd : d.isAlpha with
      | true =>
          have hlower := (of_isAlpha hd).2.1
          rw [← h, toLower_eq_self hc, hc] at hlower
          cases hlower
      | false => exact Or.inl (by rw [← toLower_eq_self hc, h, toLower_eq_self hd])

/-- Texts that differ in the case of ASCII letters only. -/
def Recased : List Char → List Char → Prop :=
  List.Forall₂ fun c d => c.toLower = d.toLower

instance (cs ds : List Char) : Decidable (Recased cs ds) :=
  inferInstanceAs (Decidable (List.Forall₂ (fun c d => c.toLower = d.toLower) cs ds))

theorem Recased.nearCased_eq (h : Recased cs ds) : nearCased cs = nearCased ds := by
  induction h with
  | nil => rfl
  | @cons c d cs ds hcd hrest ih =>
      rcases eq_or_isAlpha hcd with rfl | ⟨hc, hd⟩
      · cases hignored : caseIgnorable.contains c with
        | true =>
            rw [nearCased, nearCased, List.dropWhile_cons_of_pos hignored,
              List.dropWhile_cons_of_pos hignored]
            exact ih
        | false =>
            have hnot : ¬caseIgnorable.contains c = true := Bool.eq_false_iff.mp hignored
            rw [nearCased, nearCased, List.dropWhile_cons_of_neg hnot,
              List.dropWhile_cons_of_neg hnot]
            rfl
      · -- Both are letters with case, so neither text is looked at any further.
        obtain ⟨_, _, hc, hc'⟩ := of_isAlpha hc
        obtain ⟨_, _, hd, hd'⟩ := of_isAlpha hd
        rw [nearCased, nearCased, List.dropWhile_cons_of_neg (by simp [hc]),
          List.dropWhile_cons_of_neg (by simp [hd])]
        show casedLetters.contains c = casedLetters.contains d
        rw [hc', hd']

theorem lowerBetween_of_isAlpha (h : c.isAlpha = true) (before after : List Char) :
    lowerBetween before c after = [c.toLower] := by
  have hlt := (of_isAlpha h).1
  have hsigma : c ≠ 'Σ' := by
    rintro rfl
    exact absurd hlt (by decide)
  have hdotted : c ≠ 'İ' := by
    rintro rfl
    exact absurd hlt (by decide)
  rw [lowerBetween, if_neg hsigma, if_neg hdotted, toSmall, if_pos hlt]

theorem Recased.lower_eq (h : Recased cs ds) : lower cs = lower ds := by
  suffices h : ∀ before before', Recased before before' →
      lowerAfter before cs = lowerAfter before' ds from h [] [] List.Forall₂.nil
  induction h with
  | nil => exact fun _ _ _ => rfl
  | @cons c d cs ds hcd hrest ih =>
      intro before before' hbefore
      rw [lowerAfter, lowerAfter, ih _ _ (List.Forall₂.cons hcd hbefore)]
      congr 1
      rcases eq_or_isAlpha hcd with rfl | ⟨hc, hd⟩
      · rw [lowerBetween, hbefore.nearCased_eq, Recased.nearCased_eq hrest, lowerBetween]
      · rw [lowerBetween_of_isAlpha hc, lowerBetween_of_isAlpha hd, hcd]

end Cardfolio.Text
