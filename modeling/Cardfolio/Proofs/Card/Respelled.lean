import Cardfolio.Proofs.Card.Names
import Cardfolio.Proofs.Text.Respelled

/-!
# Spellings of a name

A name is looked up in its normal form, and the normal form does not tell how the name was
spelled: in which case its ASCII letters were, which blanks and hyphens stood in a run of them,
and what blanks, hyphens and underscores there were at the ends.

Three steps make the normal form, and each is seen to forget its part wherever the others leave
it. Small letters forget case; blanks, hyphens and underscores end words, so what stands between
them is made small by itself. A run of separators leaves one underscore, which is all that is
left of it. And at the ends everything that is left of separators is underscores, as many as
there may be, and underscores are taken off there. Blanks that were taken off in the beginning
would have been taken off in the end.
-/

namespace Cardfolio

open Text

namespace Alias

variable {cs ds gap gap' front back : List Char} {c : Char}

theorem isJoint_of_isSeparator (h : isSeparator c = true) : isJoint c = true :=
  Bool.or_eq_true_iff.mpr (Or.inl h)

theorem isJoint_of_isBlank (h : isBlank c = true) : isJoint c = true :=
  isJoint_of_isSeparator (Bool.or_eq_true_iff.mpr (Or.inl h))

theorem endsWords_of_isJoint (h : isJoint c = true) : EndsWords c := by
  unfold isJoint isSeparator at h
  simp only [Bool.or_eq_true, beq_iff_eq] at h
  rcases h with (h | rfl) | rfl
  · exact endsWords_of_isBlank h
  · exact ⟨isSmall_of_lt (by decide), by decide +kernel, by decide +kernel⟩
  · exact ⟨⟨by decide, by decide, by decide +kernel⟩, by decide +kernel, by decide +kernel⟩

/-- Joints leave nothing but underscores. -/
theorem eq_underscore_of_mem_joinRunsFrom {inRun : Bool} (hgap : ∀ c ∈ gap, isJoint c = true) :
    ∀ c ∈ joinRunsFrom isSeparator '_' inRun gap, (c == '_') = true := by
  intro c hc
  rcases mem_of_mem_joinRunsFrom hc with rfl | ⟨hmem, hsep⟩
  · rfl
  · have hjoint := hgap c hmem
    rwa [isJoint, hsep, Bool.false_or] at hjoint

/-- A joint that has been written before the name makes no difference to its ends. -/
theorem trim_joinRunsFrom (inRun : Bool) (cs : List Char) :
    trim (· == '_') (joinRunsFrom isSeparator '_' inRun cs)
      = trim (· == '_') (joinRuns isSeparator '_' cs) := by
  cases inRun with
  | false => rfl
  | true =>
      cases cs with
      | nil => rfl
      | cons c cs =>
          rw [joinRuns, joinRunsFrom, joinRunsFrom]
          split
          · rw [if_pos rfl, if_neg Bool.false_ne_true]
            simp [trim]
          · rfl

/-- What joints at the ends leave is taken off. -/
theorem trim_joinRuns_padded (hfront : ∀ c ∈ front, isJoint c = true)
    (hback : ∀ c ∈ back, isJoint c = true) (cs : List Char) :
    trim (· == '_') (joinRuns isSeparator '_' (front ++ (cs ++ back)))
      = trim (· == '_') (joinRuns isSeparator '_' cs) := by
  obtain ⟨inRun, happend⟩ := exists_joinRunsFrom_append isSeparator '_' false front
  obtain ⟨_, happend'⟩ := exists_joinRunsFrom_append isSeparator '_' inRun cs
  rw [joinRuns, happend, happend', trim_padded (eq_underscore_of_mem_joinRunsFrom hfront)
    (eq_underscore_of_mem_joinRunsFrom hback), trim_joinRunsFrom]

theorem lower_padded (hfront : ∀ c ∈ front, isJoint c = true)
    (hback : ∀ c ∈ back, isJoint c = true) (cs : List Char) :
    lower (front ++ (cs ++ back)) = front ++ (lower cs ++ back) := by
  rw [lower_gap_append fun c hc => endsWords_of_isJoint (hfront c hc),
    lower_append_gap fun c hc => endsWords_of_isJoint (hback c hc)]

/-- The blanks at the ends need not be taken off first. -/
theorem normalize_eq_trim (cs : List Char) :
    normalize cs = trim (· == '_') (joinRuns isSeparator '_' (lower cs)) := by
  obtain ⟨front, back, hcs, hfront, hback⟩ := exists_around_trim isBlank cs
  have hfront : ∀ c ∈ front, isJoint c = true := fun c hc => isJoint_of_isBlank (hfront c hc)
  have hback : ∀ c ∈ back, isJoint c = true := fun c hc => isJoint_of_isBlank (hback c hc)
  conv => rhs; rw [hcs, lower_padded hfront hback, trim_joinRuns_padded hfront hback]
  rfl

/-- The ways to spell a name differently: the case of ASCII letters, other blanks and hyphens for a
run of them, and blanks, hyphens and underscores at the ends. -/
inductive Respelled : List Char → List Char → Prop
  | recased {cs ds : List Char} (h : Recased cs ds) : Respelled cs ds
  | respaced {gap gap' : List Char} (before after : List Char) (hne : gap ≠ []) (hne' : gap' ≠ [])
      (hgap : ∀ c ∈ gap, isSeparator c = true) (hgap' : ∀ c ∈ gap', isSeparator c = true) :
      Respelled (before ++ (gap ++ after)) (before ++ (gap' ++ after))
  | padded {front back : List Char} (cs : List Char) (hfront : ∀ c ∈ front, isJoint c = true)
      (hback : ∀ c ∈ back, isJoint c = true) : Respelled cs (front ++ (cs ++ back))
  | trans {cs ds es : List Char} (h : Respelled cs ds) (h' : Respelled ds es) : Respelled cs es

theorem Respelled.normalize_eq (h : Respelled cs ds) : normalize ds = normalize cs := by
  induction h with
  | recased h => rw [normalize_eq_trim, normalize_eq_trim, h.lower_eq]
  | @respaced gap gap' before after hne hne' hgap hgap' =>
      have hends : ∀ {gap : List Char}, (∀ c ∈ gap, isSeparator c = true) →
          ∀ c ∈ gap, EndsWords c := fun h c hc =>
        endsWords_of_isJoint (isJoint_of_isSeparator (h c hc))
      rw [normalize_eq_trim, normalize_eq_trim, lower_append_gap_append hne (hends hgap),
        lower_append_gap_append hne' (hends hgap'), joinRuns_respaced '_' hne' hne hgap' hgap]
  | padded cs hfront hback =>
      rw [normalize_eq_trim, normalize_eq_trim, lower_padded hfront hback,
        trim_joinRuns_padded hfront hback]
  | trans _ _ ih ih' => exact ih'.trans ih

theorem isCaseless_isJoint : IsCaseless isJoint :=
  isCaseless_of_letters false (by decide)

/-- What a name has beside joints it keeps. -/
theorem Respelled.any_part (h : Respelled cs ds) (hcs : cs.any (!isJoint ·) = true) :
    ds.any (!isJoint ·) = true := by
  have hjoints : ∀ {gap : List Char}, (∀ c ∈ gap, isJoint c = true) →
      gap.any (!isJoint ·) = false := by
    intro gap hgap
    simpa using hgap
  have hseparators : ∀ {gap : List Char}, (∀ c ∈ gap, isSeparator c = true) →
      gap.any (!isJoint ·) = false := fun hgap =>
    hjoints fun c hc => isJoint_of_isSeparator (hgap c hc)
  induction h with
  | @recased cs ds h =>
      have hcaseless : IsCaseless (!isJoint ·) := fun c => congrArg (!·) (isCaseless_isJoint c)
      rwa [← hcaseless.any_map, ← recased_iff.mp h, hcaseless.any_map]
  | respaced before after hne hne' hgap hgap' =>
      rw [List.any_append, List.any_append, hseparators hgap] at hcs
      rw [List.any_append, List.any_append, hseparators hgap']
      exact hcs
  | padded cs hfront hback =>
      rw [List.any_append, List.any_append, hcs, Bool.true_or, Bool.or_true]
  | trans _ _ ih ih' => exact ih' (ih hcs)

theorem strip_ne_nil (h : cs.any (!isJoint ·) = true) : strip cs ≠ [] := by
  intro hstrip
  have hblank : cs.any (!isBlank ·) = true := by
    obtain ⟨c, hc, hjoint⟩ := List.any_eq_true.mp h
    refine List.any_eq_true.mpr ⟨c, hc, ?_⟩
    rw [Bool.not_eq_true'] at hjoint ⊢
    exact Bool.eq_false_iff.mpr fun hblank =>
      Bool.eq_false_iff.mp hjoint (isJoint_of_isBlank hblank)
  have hwords := words_ne_nil hblank
  rw [← words_strip, hstrip] at hwords
  exact hwords rfl

end Alias

namespace AliasTable

theorem resolve?_of_any_part (table : AliasTable) {name : String}
    (h : name.toList.any (!Alias.isJoint ·) = true) : table.resolve? name
      = (table.lookup? (Alias.normalize name.toList)).or
        (table.lookup? (Alias.singular (Alias.normalize name.toList))) := by
  have hnot : ¬(strip name.toList).isEmpty = true :=
    mt List.isEmpty_iff.mp (Alias.strip_ne_nil h)
  rw [resolve?, if_neg hnot]

/-- All spellings of a name stand for the same field, if there is more to it than blanks, hyphens
and underscores. -/
theorem resolve?_respelled (table : AliasTable) {name name' : String}
    (hname : ∃ c ∈ name.toList, Alias.isJoint c = false)
    (h : Alias.Respelled name.toList name'.toList) :
    table.resolve? name' = table.resolve? name := by
  have hany : name.toList.any (!Alias.isJoint ·) = true := by
    simpa using hname
  rw [table.resolve?_of_any_part hany, table.resolve?_of_any_part (h.any_part hany),
    h.normalize_eq]

/-- Fees in capitals, with a tab and a hyphen between the words and underscores at the ends. -/
theorem resolve?_respelled_annualFees :
    (∃ c ∈ "annual fees".toList, Alias.isJoint c = false) ∧
      Alias.Respelled "annual fees".toList "__ANNUAL\t-FEES _".toList ∧
      standard.resolve? "annual fees" = some .annualFee ∧
      standard.resolve? "__ANNUAL\t-FEES _" = standard.resolve? "annual fees" := by
  have hpart : ∃ c ∈ "annual fees".toList, Alias.isJoint c = false :=
    ⟨'a', by decide, by decide⟩
  have hcapitals : Alias.Respelled "annual fees".toList
      ("ANNUAL".toList ++ ([' '] ++ "FEES".toList)) := .recased (by decide +kernel)
  have hgap : Alias.Respelled ("ANNUAL".toList ++ ([' '] ++ "FEES".toList))
      ("ANNUAL".toList ++ (['\t', '-'] ++ "FEES".toList)) :=
    .respaced _ _ (List.cons_ne_nil _ _) (List.cons_ne_nil _ _) (by decide) (by decide)
  have htext : "__ANNUAL\t-FEES _".toList
      = ['_', '_'] ++ ("ANNUAL".toList ++ (['\t', '-'] ++ "FEES".toList) ++ [' ', '_']) := by
    decide
  have hends : Alias.Respelled ("ANNUAL".toList ++ (['\t', '-'] ++ "FEES".toList))
      "__ANNUAL\t-FEES _".toList := by
    rw [htext]
    exact .padded _ (by decide) (by decide)
  have h := (hcapitals.trans hgap).trans hends
  exact ⟨hpart, h, by decide +kernel, standard.resolve?_respelled hpart h⟩

end AliasTable

end Cardfolio
