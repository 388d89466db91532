import Cardfolio.Proofs.Pattern.Longest
import Cardfolio.Proofs.Pattern.Spellings
import Cardfolio.Proofs.Pattern.Standing
import Cardfolio.Proofs.Pattern.WordStarts

/-!
# Words between edges

The edges of words cut a text into its runs of word characters. A pattern that spells nothing but
word characters therefore stands between two edges exactly where it spells a whole run, and
whether it is found is a question about the runs of the text, one by one (`standsIn_whole_iff`).
In small letters, a run that is spelled by a pattern with few spellings is one of them.
-/

namespace Cardfolio

open Text

/-- The maximal runs of word characters. -/
def Text.wordRuns (cs : List Char) : List (List Char) :=
  partsBy (!isWordChar ·) cs

/-- Whether a class has word characters only. -/
def CharClass.isWordClass : CharClass → Bool
  | exactly c => isWordChar c
  | letter _ | latin | word => true
  | either a b => a.isWordClass && b.isWordClass
  | digit | blank | notNewline => false

theorem CharClass.isWordChar_of_accepts {k : CharClass} (hk : k.isWordClass = true) {c : Char}
    (h : k.accepts c = true) : isWordChar c = true := by
  induction k with
  | exactly d =>
      rw [beq_iff_eq.mp h]
      exact hk
  | letter d => exact isWordChar_of_latinLetter? (beq_iff_eq.mp h)
  | latin =>
      obtain ⟨d, hd⟩ := Option.isSome_iff_exists.mp h
      exact isWordChar_of_latinLetter? hd
  | word => exact h
  | either a b iha ihb =>
      obtain ⟨ha, hb⟩ := Bool.and_eq_true_iff.mp hk
      exact (Bool.or_eq_true_iff.mp h).elim (iha ha) (ihb hb)
  | digit | blank | notNewline => cases hk

namespace Pattern

variable {p : Pattern} {text before after s w : List Char}

theorem stops_reverse_iff {k : CharClass} :
    Stops k before.reverse ↔ ∀ c ∈ before.getLast?, k.accepts c = false := by
  rw [Stops, List.head?_reverse]

theorem isBlank_of_isWordChar {c : Char} (h : isWordChar c = true) : isBlank c = false := by
  rw [Bool.eq_false_iff]
  intro hblank
  rw [(isPlainBlank_of_isBlank hblank).isWordChar_eq] at h
  cases h

theorem of_mem_wordRuns (h : w ∈ wordRuns text) : w ≠ [] ∧ ∀ c ∈ w, isWordChar c = true := by
  obtain ⟨hne, hw⟩ := of_mem_partsBy h
  exact ⟨hne, fun c hc => by simpa using hw c hc⟩

/-- A whole run of word characters, between what stands in front of it and behind it. -/
structure IsRunAt (text before w after : List Char) : Prop where
  text_eq : text = before ++ (w ++ after)
  ne_nil : w ≠ []
  word : ∀ c ∈ w, isWordChar c = true
  stopsBefore : Stops .word before.reverse
  stopsAfter : Stops .word after

theorem IsRunAt.wordRuns_eq (h : IsRunAt text before w after) :
    wordRuns text = wordRuns before ++ w :: wordRuns after := by
  obtain ⟨rfl, hne, hw, hbefore, hafter⟩ := h
  rw [stops_reverse_iff] at hbefore
  refine partsBy_append_part hne (fun c hc => ?_) (fun c hc => ?_) fun c hc => ?_
  · rw [hw c hc]
    rfl
  · rw [show isWordChar c = false from hbefore c hc]
    rfl
  · rw [show isWordChar c = false from hafter c hc]
    rfl

theorem exists_isRunAt (h : w ∈ wordRuns text) : ∃ before after, IsRunAt text before w after := by
  obtain ⟨before, after, htext, hbefore, hafter⟩ := exists_around_of_mem_partsBy h
  obtain ⟨hne, hw⟩ := of_mem_wordRuns h
  refine ⟨before, after, htext, hne, hw, ?_, fun c hc => ?_⟩
  · rw [stops_reverse_iff]
    intro c hc
    show isWordChar c = false
    simpa using hbefore c hc
  · show isWordChar c = false
    simpa using hafter c hc

theorem stops_of_append {k : CharClass} (h : Stops k (s ++ after)) : Stops k s := by
  cases s with
  | nil => exact stops_nil
  | cons c s => exact h

theorem IsRunAt.eq_of_le {P : List Char → Bool} {before' after' w' : List Char}
    (hsingle : (wordRuns text).countP P = 1) (h : IsRunAt text before w after)
    (h' : IsRunAt text before' w' after') (hP : P w = true) (hP' : P w' = true)
    (hle : before.length ≤ before'.length) : before = before' := by
  obtain ⟨z, rfl, hz⟩ : ∃ z, before' = before ++ z ∧ w ++ after = z ++ (w' ++ after') := by
    rcases List.append_eq_append_iff.mp (h.text_eq.symm.trans h'.text_eq) with hz | ⟨z, hz, hrest⟩
    · exact hz
    · rw [hz, List.length_append] at hle
      obtain rfl : z = [] := List.eq_nil_of_length_eq_zero (by omega)
      exact ⟨[], by rw [hz, List.append_nil, List.append_nil], hrest.symm⟩
  by_contra hne
  obtain ⟨c, z, rfl⟩ : ∃ c z', z = z' ++ [c] := by
    rcases List.eq_nil_or_concat z with rfl | ⟨z, c, rfl⟩
    · exact (hne (List.append_nil before).symm).elim
    · exact ⟨c, z, List.concat_eq_append⟩
  have hstops : isWordChar c = false := by
    refine h'.stopsBefore c ?_
    simp
  rcases List.append_eq_append_iff.mp hz with ⟨t, ht, hafter⟩ | ⟨t, ht, _⟩
  · -- The second run stands behind the first one, so both are counted.
    have hrun : IsRunAt after t w' after' := by
      refine ⟨hafter, h'.ne_nil, h'.word, ?_, h'.stopsAfter⟩
      have hreverse := h'.stopsBefore
      rw [ht, List.reverse_append, List.reverse_append, List.append_assoc] at hreverse
      exact stops_of_append hreverse
    rw [h.wordRuns_eq, hrun.wordRuns_eq, List.countP_append, List.countP_cons_of_pos hP,
      List.countP_append, List.countP_cons_of_pos hP'] at hsingle
    omega
  · have hc := h.word c (by rw [ht]; simp)
    rw [hstops] at hc
    cases hc

/-- A text that has a single run with a property has it at one place. -/
theorem IsRunAt.eq_of_countP {P : List Char → Bool} {before' after' w' : List Char}
    (hsingle : (wordRuns text).countP P = 1) (h : IsRunAt text before w after)
    (h' : IsRunAt text before' w' after') (hP : P w = true) (hP' : P w' = true) :
    before = before' := by
  rcases Nat.le_total before.length before'.length with hle | hle
  · exact h.eq_of_le hsingle h' hP hP' hle
  · exact (h'.eq_of_le hsingle h hP' hP hle).symm

theorem wordRuns_of_blank {g : List Char} (hg : ∀ c ∈ g, isBlank c = true) : wordRuns g = [] := by
  rw [wordRuns, ← List.append_nil g, partsBy_gap_append]
  · rfl
  · intro c hc
    rw [(isPlainBlank_of_isBlank (hg c hc)).isWordChar_eq]
    rfl

theorem wordRuns_strip (text : List Char) : wordRuns (strip text) = wordRuns text := by
  obtain ⟨lead, rest, htext, hlead, hrest⟩ := exists_around_trim isBlank text
  have hnone : ∀ {c : Char}, isBlank c = true → (!isWordChar c) = true := by
    intro c hc
    rw [(isPlainBlank_of_isBlank hc).isWordChar_eq]
    rfl
  have h := partsBy_gap_append (fun c hc => hnone (hlead c hc)) (strip text ++ rest)
  rw [partsBy_append_gap fun c hc => hnone (hrest c hc)] at h
  change text = lead ++ (strip text ++ rest) at htext
  rw [← htext] at h
  exact h.symm

theorem isEdge_ahead_word (hne : w ≠ []) (hw : ∀ c ∈ w, isWordChar c = true)
    (hbefore : Stops .word before) : Cursor.isEdge ⟨before, w ++ after⟩ = true := by
  obtain ⟨c, cs, rfl⟩ := List.exists_cons_of_ne_nil hne
  exact isEdge_ahead hbefore (hw c List.mem_cons_self)

theorem isEdge_behind_word (hne : w ≠ []) (hw : ∀ c ∈ w, isWordChar c = true)
    (hafter : Stops .word after) : Cursor.isEdge ⟨w.reverse ++ before, after⟩ = true := by
  obtain ⟨c, cs, hcs⟩ := List.exists_cons_of_ne_nil (List.reverse_ne_nil_iff.mpr hne)
  rw [hcs]
  exact isEdge_behind (hw c (List.mem_reverse.mp (hcs ▸ List.mem_cons_self))) hafter

theorem stops_append {k : CharClass} (hs : Stops k s) (hafter : Stops k after) :
    Stops k (s ++ after) := by
  cases s with
  | nil => exact hafter
  | cons c s => exact hs

theorem stops_word_of_blank {gap : List Char} (hgap : ∀ c ∈ gap, isBlank c = true) :
    Stops .word gap :=
  fun c hc => (isPlainBlank_of_isBlank (hgap c (List.mem_of_mem_head? hc))).isWordChar_eq

theorem stops_gap_append {g : List Char} (hne : g ≠ []) (hg : ∀ c ∈ g, isBlank c = true)
    (after : List Char) : Stops .word (g ++ after) :=
  fun c hc => (isPlainBlank_of_isBlank (of_mem_head_gap hne hg after c hc)).isWordChar_eq

theorem stops_reverse_gap {g : List Char} (hne : g ≠ []) (hg : ∀ c ∈ g, isBlank c = true)
    (before : List Char) : Stops .word (before ++ g).reverse := by
  rw [List.reverse_append]
  exact stops_gap_append (List.reverse_ne_nil_iff.mpr hne)
    (fun c hc => hg c (List.mem_reverse.mp hc)) _

/-! ## Patterns for single words -/

/-- Whether a pattern looks at nothing but what it spells. -/
def looksNowhere : Pattern → Bool
  | here | one _ | run _ => true
  | seq p q | alt p q => p.looksNowhere && q.looksNowhere
  | piece _ p => p.looksNowhere
  | edge | atStart | atEnd | notAhead _ | notBehind _ => false

/-- A pattern that looks nowhere else stands wherever its spellings do. -/
theorem stands_of_spells (hp : p.looksNowhere = true) (h : p.Spells s) :
    p.Stands before s after := by
  induction p generalizing before s after with
  | here | one | run => exact h
  | seq p q ihp ihq =>
      obtain ⟨hp, hq⟩ := Bool.and_eq_true_iff.mp hp
      obtain ⟨a, b, ha, hb, rfl⟩ := h
      exact ⟨a, b, rfl, ihp hp ha, ihq hq hb⟩
  | alt p q ihp ihq =>
      obtain ⟨hp, hq⟩ := Bool.and_eq_true_iff.mp hp
      exact h.imp (ihp hp) (ihq hq)
  | piece name p ih => exact ih hp h
  | edge | atStart | atEnd | notAhead | notBehind => cases hp

/-- Whether a pattern spells word characters only. -/
def isOfWords : Pattern → Bool
  | one k | run k => k.isWordClass
  | seq p q | alt p q => p.isOfWords && q.isOfWords
  | piece _ p => p.isOfWords
  | here | edge | atStart | atEnd | notAhead _ | notBehind _ => true

theorem isWordChar_of_spells (hp : p.isOfWords = true) (h : p.Spells s) :
    ∀ c ∈ s, isWordChar c = true := by
  induction p generalizing s with
  | one k =>
      obtain ⟨c, hc, rfl⟩ := h
      rw [List.forall_mem_singleton]
      exact CharClass.isWordChar_of_accepts hp hc
  | run k => exact fun c hc => CharClass.isWordChar_of_accepts hp (h.2 c hc)
  | seq p q ihp ihq =>
      obtain ⟨hp, hq⟩ := Bool.and_eq_true_iff.mp hp
      obtain ⟨a, b, ha, hb, rfl⟩ := h
      exact List.forall_mem_append.mpr ⟨ihp hp ha, ihq hq hb⟩
  | alt p q ihp ihq =>
      obtain ⟨hp, hq⟩ := Bool.and_eq_true_iff.mp hp
      exact h.elim (ihp hp) (ihq hq)
  | piece name p ih => exact ih hp h
  | here | edge | atStart | atEnd | notAhead | notBehind =>
      rw [show s = [] from h]
      exact fun _ hc => (List.not_mem_nil hc).elim

theorem stands_anyOf_iff {ps : List Pattern} (hne : ps ≠ []) :
    (anyOf ps).Stands before s after ↔ ∃ p ∈ ps, p.Stands before s after := by
  match ps with
  | [p] => simp [anyOf]
  | p :: q :: ps =>
      show p.Stands before s after ∨ (anyOf (q :: ps)).Stands before s after ↔ _
      rw [stands_anyOf_iff (List.cons_ne_nil q ps)]
      simp only [List.mem_cons, exists_eq_or_imp]

theorem occursIn_anyOf_iff {ps : List Pattern} (hne : ps ≠ []) :
    (anyOf ps).occursIn text = true ↔ ∃ p ∈ ps, p.occursIn text = true := by
  simp only [occursIn_iff_standsIn]
  constructor
  · rintro ⟨left, s, right, htext, h⟩
    obtain ⟨p, hp, h⟩ := (stands_anyOf_iff hne).mp h
    exact ⟨p, hp, left, s, right, htext, h⟩
  · rintro ⟨p, hp, left, s, right, htext, h⟩
    exact ⟨left, s, right, htext, (stands_anyOf_iff hne).mpr ⟨p, hp, h⟩⟩

/-- What can stand between two edges as a single word. -/
structure IsForWords (p : Pattern) : Prop where
  looksNowhere : p.looksNowhere = true
  isOfWords : p.isOfWords = true
  notEmpty : p.mayBeEmpty = false

instance (p : Pattern) : Decidable (IsForWords p) :=
  decidable_of_iff (p.looksNowhere = true ∧ p.isOfWords = true ∧ p.mayBeEmpty = false)
    ⟨fun ⟨h, h', h''⟩ => ⟨h, h', h''⟩, fun ⟨h, h', h''⟩ => ⟨h, h', h''⟩⟩

/-- Between two edges a pattern for words spells a whole run of word characters. -/
theorem stands_whole_iff (hp : IsForWords p) : (whole p).Stands before s after ↔
    p.Spells s ∧ Stops .word before ∧ Stops .word after := by
  constructor
  · rintro ⟨_, _, rfl, ⟨rfl, hedge⟩, w, _, rfl, hw, rfl, hedge'⟩
    rw [List.reverse_nil, List.nil_append] at hedge'
    rw [List.append_nil] at hedge
    rw [List.nil_append, List.append_nil]
    have hspells := hw.spells
    have hchars := isWordChar_of_spells hp.isOfWords hspells
    have hne := ne_nil_of_spells hp.notEmpty hspells
    obtain ⟨c, cs, rfl⟩ := List.exists_cons_of_ne_nil hne
    exact ⟨hspells, stops_of_isEdge_ahead (hchars c List.mem_cons_self) hedge,
      stops_of_isEdge_behind_word hne hchars hedge'⟩
  · rintro ⟨hspells, hbefore, hafter⟩
    have hchars := isWordChar_of_spells hp.isOfWords hspells
    have hne := ne_nil_of_spells hp.notEmpty hspells
    exact ⟨[], s, rfl, ⟨rfl, isEdge_ahead_word hne hchars hbefore⟩, s, [],
      (List.append_nil s).symm, stands_of_spells hp.looksNowhere hspells, rfl,
      isEdge_behind_word hne hchars hafter⟩

/-- Behind an edge and in front of what is no word character, a pattern for words spells a whole
run. -/
theorem isRunAt_of_isEdge (hp : IsForWords p) (hspells : p.Spells w)
    (hedge : Cursor.isEdge ⟨before.reverse, w ++ after⟩ = true) (hafter : Stops .word after) :
    IsRunAt (before ++ (w ++ after)) before w after := by
  have hchars := isWordChar_of_spells hp.isOfWords hspells
  have hne := ne_nil_of_spells hp.notEmpty hspells
  refine ⟨rfl, hne, hchars, ?_, hafter⟩
  obtain ⟨c, cs, rfl⟩ := List.exists_cons_of_ne_nil hne
  exact stops_of_isEdge_ahead (hchars c List.mem_cons_self) hedge

theorem standsIn_whole_iff (hp : IsForWords p) :
    (whole p).StandsIn text ↔ ∃ w ∈ wordRuns text, p.Spells w := by
  constructor
  · rintro ⟨left, w, right, rfl, hstands⟩
    obtain ⟨hspells, hleft, hright⟩ := (stands_whole_iff hp).mp hstands
    have hrun : IsRunAt (left ++ (w ++ right)) left w right :=
      ⟨rfl, ne_nil_of_spells hp.notEmpty hspells, isWordChar_of_spells hp.isOfWords hspells, hleft,
        hright⟩
    rw [hrun.wordRuns_eq]
    exact ⟨w, List.mem_append_right _ List.mem_cons_self, hspells⟩
  · rintro ⟨w, hw, hspells⟩
    obtain ⟨before, after, hrun⟩ := exists_isRunAt hw
    exact ⟨before, w, after, hrun.text_eq,
      (stands_whole_iff hp).mpr ⟨hspells, hrun.stopsBefore, hrun.stopsAfter⟩⟩

/-! ## Small letters -/

/-- In small letters, what a pattern with few spellings spells as a run of word characters. -/
theorem mem_of_spells_wordRun {forms : List (List Char)} (h : p.spellings? = some forms)
    (htext : IsPlain text) (hw : w ∈ wordRuns text) (hspells : p.Spells w) : w ∈ forms := by
  obtain ⟨before, after, hrun⟩ := exists_isRunAt hw
  refine mem_of_spells h (htext.of_subset fun c hc => by simp [hrun.text_eq, hc])
    (isSpaced_of_forall fun c hc => isBlank_of_isWordChar (hrun.word c hc)) hspells

/-- In small letters, a pattern for words that has few spellings is found when one of them is a
run of word characters. -/
theorem occursIn_whole_iff {forms : List (List Char)} (hp : IsForWords p)
    (hforms : p.spellings? = some forms) (hfills : forms.all p.fills = true)
    (htext : IsPlain text) :
    (whole p).occursIn text = true ↔ ∃ w ∈ forms, w ∈ wordRuns text := by
  rw [occursIn_iff_standsIn, standsIn_whole_iff hp]
  constructor
  · rintro ⟨w, hw, hspells⟩
    exact ⟨w, mem_of_spells_wordRun hforms htext hw hspells, hw⟩
  · rintro ⟨w, hw, hmem⟩
    exact ⟨w, hmem, spells_of_fills (List.all_eq_true.mp hfills w hw)⟩

end Pattern

end Cardfolio
