import Cardfolio.Proofs.Pattern.AnyCase
import Cardfolio.Proofs.Pattern.Removal
import Cardfolio.Proofs.Pattern.WordRuns
import Cardfolio.Question.GroupingPhrase

/-!
# The shape of the grouping phrase

A phrase is what stands behind an introduction, cut down in three steps: from the first stop word
on, the punctuation at its end, and an article at its beginning. Each step could undo what the one
before has done. That it does not depends on what can follow. Behind the text that is left of a
cut there is a blank or a sign of punctuation, never a character of a word; so a stop word at
its end would have been one in the longer text too, and the text in front of the first stop word
holds none (`HasStop.append`). Blanks and signs at the end are gone with the second step, and the
others only shorten the text from the front.

Where the phrase stands in the question is carried along: each pattern that introduces a phrase
ends with the word `by` or `per` and blanks, and all that is taken away in front of the phrase are
blanks and an article.
-/

namespace Cardfolio.GroupingPhrase

open Pattern Text

variable {text s back g w : List Char}

/-- A stop word behind blanks. -/
def HasStop (s : List Char) : Prop :=
  ∃ left g w right, s = left ++ (g ++ (w ++ right)) ∧ g ≠ [] ∧
    (∀ c ∈ g, isBlank c = true) ∧ (∃ v ∈ stopWords, ReadsAs w v) ∧ Stops .word right

theorem HasStop.prepend (h : HasStop s) (front : List Char) : HasStop (front ++ s) := by
  obtain ⟨left, g, w, right, rfl, hstop⟩ := h
  exact ⟨front ++ left, g, w, right, by rw [List.append_assoc], hstop⟩

/-- A stop word stays one in front of what is no character of a word. -/
theorem HasStop.append (h : HasStop s) (hback : Stops .word back) : HasStop (s ++ back) := by
  obtain ⟨left, g, w, right, rfl, hne, hg, hw, hright⟩ := h
  exact ⟨left, g, w, right ++ back, by simp only [List.append_assoc], hne, hg, hw,
    stops_append hright hback⟩

theorem isForWords_stopWords : ∀ v ∈ stopWords,
    IsForWords (lit v) ∧ ∀ c ∈ v.toList, c.isLower = true := by
  decide

theorem stands_stop {before right : List Char} (hne : g ≠ [])
    (hg : ∀ c ∈ g, isBlank c = true) (hw : ∃ v ∈ stopWords, ReadsAs w v)
    (hright : Stops .word right) (hline : '\n' ∉ right) :
    stop.Stands before (g ++ (w ++ right)) [] := by
  obtain ⟨v, hv, hreads⟩ := hw
  obtain ⟨hwords, hlower⟩ := isForWords_stopWords v hv
  have hspells : (lit v).Spells w := (spells_lit_iff hlower).mpr hreads
  refine ⟨g, w ++ right, rfl, ⟨hne, hg⟩, w, right, rfl, ?_, [], right, rfl, ⟨rfl, ?_⟩,
    right, [], (List.append_nil right).symm, ?_, rfl, rfl⟩
  · exact (stands_anyOf_iff (by decide)).mpr
      ⟨lit v, List.mem_map_of_mem hv, stands_of_spells hwords.looksNowhere hspells⟩
  · exact isEdge_behind_word (ne_nil_of_spells hwords.notEmpty hspells)
      (isWordChar_of_spells hwords.isOfWords hspells) (by rwa [List.append_nil])
  · refine stands_of_spells rfl (spells_many.mpr fun c hc => ?_)
    exact bne_iff_ne.mpr (ne_of_mem_of_not_mem hc hline)

theorem eq_nil_of_isEnd {before after : List Char} (hline : '\n' ∉ after)
    (h : Cursor.isEnd ⟨before, after⟩ = true) : after = [] := by
  rcases Bool.or_eq_true_iff.mp h with h | h
  · exact List.isEmpty_iff.mp h
  · obtain rfl : after = ['\n'] := beq_iff_eq.mp h
    exact (hline (List.mem_singleton_self _)).elim

/-- In front of the first stop word there is none. -/
theorem exists_remove_stop (hline : '\n' ∉ text) :
    ∃ rest, text = stop.remove text ++ rest ∧ ¬ HasStop (stop.remove text) := by
  have hend : ∀ a s r, text = a ++ (s ++ r) → stop.Stands a.reverse s r → r = [] := by
    rintro a _ r htext ⟨_, _, rfl, _, _, _, rfl, _, _, _, rfl, _, _, _, rfl, _, _, hend⟩
    refine eq_nil_of_isEnd (fun hmem => hline ?_) hend
    rw [htext]
    simp [hmem]
  obtain ⟨rest, htext, hnone, hrest⟩ := exists_remove_eq_front hend
  refine ⟨rest, htext, ?_⟩
  generalize stop.remove text = kept at htext hnone hrest
  rintro ⟨left, g, w, right, rfl, hne, hg, hw, hright⟩
  have hstops : Stops .word rest := by
    intro c hc
    obtain ⟨g, _, hg, ⟨hgne, hgblank⟩, _⟩ := hrest (List.ne_nil_of_mem (List.mem_of_mem_head? hc))
    rw [hg] at hc
    obtain ⟨d, g, rfl⟩ := List.exists_cons_of_ne_nil hgne
    obtain rfl := Option.some.inj hc
    exact (isPlainBlank_of_isBlank (hgblank _ List.mem_cons_self)).isWordChar_eq
  refine hnone left (g ++ (w ++ right)) (g ++ (w ++ (right ++ rest))) []
    (List.append_ne_nil_of_left_ne_nil hne _) rfl (by simp) ?_
  refine stands_stop hne hg hw (stops_append hright hstops) fun hmem => hline ?_
  rw [htext]
  simp_all

/-- The signs that a phrase does not end with. -/
def signs : List Char := "?.!,;:".toList

theorem accepts_signs : ∀ c ∈ signs, (charOf "?.!,;:").accepts c = true := by
  decide

theorem isWordChar_signs : ∀ c ∈ signs, isWordChar c = false := by
  decide

theorem isWordChar_of_cut {c : Char}
    (h : (CharClass.either .blank (charOf "?.!,;:")).accepts c = true) : isWordChar c = false := by
  rcases Bool.or_eq_true_iff.mp h with h | h
  · exact (isPlainBlank_of_isBlank h).isWordChar_eq
  · exact isWordChar_signs c (mem_of_accepts_charOf (by decide) h)

/-- What is left in front of the punctuation ends with neither a blank nor a sign. -/
theorem exists_remove_punctuation (hline : '\n' ∉ text) :
    ∃ rest, text = punctuation.remove text ++ rest ∧ Stops .word rest ∧
      ∀ c ∈ (punctuation.remove text).getLast?, isBlank c = false ∧ c ∉ signs := by
  have hend : ∀ a s r, text = a ++ (s ++ r) → punctuation.Stands a.reverse s r → r = [] := by
    rintro a _ r htext ⟨_, _, rfl, _, _, hend⟩
    refine eq_nil_of_isEnd (fun hmem => hline ?_) hend
    rw [htext]
    simp [hmem]
  obtain ⟨rest, htext, hnone, hrest⟩ := exists_remove_eq_front hend
  have hcut : ∀ c ∈ rest, (CharClass.either .blank (charOf "?.!,;:")).accepts c = true := by
    intro c hc
    obtain ⟨a, _, ha, ⟨_, hclass⟩, rfl, _⟩ := hrest (List.ne_nil_of_mem hc)
    rw [ha, List.append_nil] at hc
    exact hclass c hc
  refine ⟨rest, htext, fun c hc => isWordChar_of_cut (hcut c (List.mem_of_mem_head? hc)), ?_⟩
  intro c hc
  obtain ⟨front, hfront⟩ := List.getLast?_eq_some_iff.mp hc
  have hnot : ¬ (CharClass.either .blank (charOf "?.!,;:")).accepts c = true := by
    intro hclass
    refine hnone front [c] (c :: rest) [] (List.cons_ne_nil c []) hfront (by simp) ?_
    exact ⟨c :: rest, [], (List.append_nil _).symm,
      ⟨List.cons_ne_nil c rest, List.forall_mem_cons.mpr ⟨hclass, hcut⟩⟩, rfl, rfl⟩
  obtain ⟨hblank, hsign⟩ := Bool.or_eq_false_iff.mp (Bool.eq_false_iff.mpr hnot)
  refine ⟨hblank, fun hmem => ?_⟩
  rw [accepts_signs c hmem] at hsign
  cases hsign

/-- An article and blanks, or nothing. -/
def IsArticle (s : List Char) : Prop :=
  s = [] ∨ ∃ w g, s = w ++ g ∧ (∃ v ∈ articles, ReadsAs w v) ∧ g ≠ [] ∧
    ∀ c ∈ g, isBlank c = true

theorem isLower_articles : ∀ v ∈ articles, ∀ c ∈ v.toList, c.isLower = true := by
  decide

theorem exists_remove_article (text : List Char) :
    ∃ lead, text = lead ++ article.remove text ∧ IsArticle lead := by
  obtain ⟨lead, htext, hlead⟩ := exists_remove_eq_back (p := article) rfl text
  refine ⟨lead, htext, hlead.imp id ?_⟩
  rintro ⟨_, _, rfl, ⟨rfl, _⟩, w, g, rfl, hw, hne, hg⟩
  obtain ⟨p, hp, hspells⟩ := exists_spells_of_spells_anyOf (by decide) hw.spells
  obtain ⟨v, hv, rfl⟩ := List.mem_map.mp hp
  exact ⟨w, g, rfl, ⟨v, hv, (spells_lit_iff (isLower_articles v hv)).mp hspells⟩, hne, hg⟩

/-- A text without blanks at its ends, signs behind it and stop words in it. -/
structure IsTrimmedPhrase (phrase : List Char) : Prop where
  trimmed : IsTrimmed isBlank phrase
  noSign : ∀ c ∈ phrase.getLast?, c ∉ signs
  noStop : ¬ HasStop phrase

/-- What is left after trimming, and what has been taken away on its sides. -/
theorem exists_trim (hline : '\n' ∉ text) : IsTrimmedPhrase (trim text) ∧
    ∃ lead art back, text = lead ++ (art ++ (trim text ++ back)) ∧
      (∀ c ∈ lead, isBlank c = true) ∧ IsArticle art := by
  unfold trim
  dsimp only
  obtain ⟨rest, htext, hnoStop⟩ := exists_remove_stop hline
  generalize stop.remove text = kept at htext hnoStop ⊢
  have hline : '\n' ∉ kept := fun hmem => hline (htext ▸ List.mem_append_left _ hmem)
  obtain ⟨rest', hkept, hstops, hlast⟩ := exists_remove_punctuation hline
  generalize punctuation.remove kept = cut at hkept hlast ⊢
  obtain ⟨lead, back, hcut, hlead, hback⟩ := exists_around_trim isBlank cut
  obtain ⟨art, hstrip, hart⟩ := exists_remove_article (strip cut)
  generalize article.remove (strip cut) = bare at hstrip ⊢
  obtain ⟨lead', back', hbare, hlead', hback'⟩ := exists_around_trim isBlank bare
  have htrimmed : IsTrimmed isBlank (strip bare) := isTrimmed_trim isBlank bare
  change bare = lead' ++ (strip bare ++ back') at hbare
  change cut = lead ++ (strip cut ++ back) at hcut
  generalize strip bare = phrase at hbare htrimmed ⊢
  -- Nothing but blanks has been taken away behind the phrase, and there were none.
  have hends : cut = (lead ++ (art ++ (lead' ++ phrase))) ++ (back' ++ back) := by
    rw [hcut, hstrip, hbare]
    simp only [List.append_assoc]
  have hnil : back' ++ back = [] := by
    refine eq_nil_of_last (fun c hc => (hlast c (hends ▸ hc)).1) fun c hc => ?_
    exact (List.mem_append.mp hc).elim (hback' c) (hback c)
  rw [hnil, List.append_nil] at hends
  refine ⟨⟨htrimmed, fun c hc => (hlast c ?_).2, fun hstop => hnoStop ?_⟩, ?_⟩
  · rw [hends]
    simp only [List.getLast?_append, Option.mem_def.mp hc, Option.some_or]
    rfl
  · rw [hkept, hends]
    refine HasStop.append ?_ hstops
    simpa only [List.append_assoc] using hstop.prepend (lead ++ (art ++ lead'))
  · rw [htext, hkept, hends]
    rcases hart with rfl | ⟨w, g, rfl, hw, hgne, hg⟩
    · exact ⟨lead ++ lead', [], rest' ++ rest, by simp,
        List.forall_mem_append.mpr ⟨hlead, hlead'⟩, .inl rfl⟩
    · exact ⟨lead, w ++ (g ++ lead'), rest' ++ rest, by simp, hlead, .inr ⟨w, g ++ lead', rfl,
        hw, List.append_ne_nil_of_left_ne_nil hgne _,
        List.forall_mem_append.mpr ⟨hg, hlead'⟩⟩⟩

/-! ## Introductions -/

/-- The text stands behind the word `by` or `per` and blanks. -/
def IsIntroduced (text s : List Char) : Prop :=
  ∃ front w g back, text = front ++ (w ++ (g ++ (s ++ back))) ∧ Stops .word front.reverse ∧
    (∃ v ∈ ["by", "per"], ReadsAs w v) ∧ g ≠ [] ∧ ∀ c ∈ g, isBlank c = true

/-- What introduces a phrase after a verb or a noun. -/
theorem isIntroduced_of_stands_spaced {verb : Pattern} {left right : List Char}
    (h : (sequence [edge, spaced [verb, lit "by"], gap]).Stands left.reverse s right) :
    IsIntroduced (left ++ (s ++ right)) right := by
  obtain ⟨_, _, rfl, ⟨rfl, _⟩, _, g, rfl, ⟨a, _, rfl, _, g', w, rfl, ⟨hne', hg'⟩, hby⟩,
    hne, hg⟩ := h
  have hreads : ReadsAs w "by" := (spells_lit_iff (by decide)).mp hby.spells
  refine ⟨left ++ (a ++ g'), w, g, [], by simp, ?_, ⟨"by", by decide, hreads⟩, hne, hg⟩
  rw [← List.append_assoc]
  exact stops_reverse_gap hne' hg' (left ++ a)

/-- What introduces a phrase as a single word. -/
theorem isIntroduced_of_stands_word {v : String} (hv : v ∈ ["by", "per"]) {left right : List Char}
    (h : (sequence [edge, lit v, gap]).Stands left.reverse s right) :
    IsIntroduced (left ++ (s ++ right)) right := by
  have hforms : ∀ v ∈ ["by", "per"], (∀ c ∈ v.toList, c.isLower = true) ∧ IsForWords (lit v) := by
    decide
  obtain ⟨hlower, hwords⟩ := hforms v hv
  obtain ⟨_, _, rfl, ⟨rfl, hedge⟩, w, g, rfl, hw, hne, hg⟩ := h
  rw [List.append_assoc] at hedge
  have hrun := isRunAt_of_isEdge hwords hw.spells hedge (stops_gap_append hne hg right)
  exact ⟨left, w, g, [], by simp, hrun.stopsBefore, ⟨v, hv, (spells_lit_iff hlower).mp hw.spells⟩,
    hne, hg⟩

theorem IsIntroduced.of_append {r : List Char} (h : IsIntroduced text (s ++ r)) :
    IsIntroduced text s := by
  obtain ⟨front, w, g, back, rfl, hrest⟩ := h
  exact ⟨front, w, g, r ++ back, by simp, hrest⟩

theorem isIntroduced_of_occurs {introduction : Pattern} (hmem : introduction ∈ introductions)
    {m : Match} (h : introduction.Occurs text m) : IsIntroduced text (m.pieceText "phrase") := by
  obtain ⟨words, hwords, rfl⟩ := List.mem_map.mp hmem
  have h : (sequence ([edge, words, gap] ++ [piece "phrase" _])).Occurs text m := h
  obtain ⟨left, s, right, rfl, hstands⟩ := h.exists_stands_piece
  refine IsIntroduced.of_append (r := right) ?_
  simp only [List.mem_cons, List.not_mem_nil, or_false] at hwords
  rcases hwords with rfl | rfl | rfl | rfl | rfl | rfl
  · exact isIntroduced_of_stands_spaced hstands
  · exact isIntroduced_of_stands_spaced hstands
  · exact isIntroduced_of_stands_spaced hstands
  · exact isIntroduced_of_stands_spaced hstands
  · exact isIntroduced_of_stands_spaced hstands
  · exact isIntroduced_of_stands_word (by decide) hstands

theorem isIntroduced_of_bareBy {m : Match} (h : m ∈ bareBy.findAll text) :
    IsIntroduced text m.stop.after := by
  obtain ⟨left, s, rfl, hstands⟩ := (occurs_of_mem_findAll h).exists_stands
  exact isIntroduced_of_stands_word (by decide) hstands

theorem IsIntroduced.of_strip (h : IsIntroduced (strip text) s) : IsIntroduced text s := by
  obtain ⟨lead, rest, htext, hlead, _⟩ := exists_around_trim isBlank text
  obtain ⟨front, w, g, back, hstrip, hstops, hw⟩ := h
  refine ⟨lead ++ front, w, g, back ++ rest, ?_, ?_, hw⟩
  · change text = lead ++ (strip text ++ rest) at htext
    rw [htext, hstrip]
    simp only [List.append_assoc]
  · rw [List.reverse_append]
    exact stops_append hstops
      (stops_word_of_blank fun c hc => hlead c (List.mem_reverse.mp hc))

/-! ## The phrase -/

/-- What a phrase to group by looks like, and where it stands in the question: behind `by` or
`per`, blanks, and an article if there is one. -/
structure IsGroupingPhrase (question phrase : List Char) : Prop extends IsTrimmedPhrase phrase where
  notEmpty : phrase ≠ []
  introduced : ∃ art, IsArticle art ∧ IsIntroduced question (art ++ phrase)

theorem isGroupingPhrase_of_trimmed? {question rest phrase : List Char} (hline : '\n' ∉ question)
    (hintroduced : IsIntroduced question rest) (h : trimmed? rest = some phrase) :
    IsGroupingPhrase question phrase := by
  have hphrase : trim rest = phrase ∧ phrase ≠ [] := by
    unfold trimmed? at h
    split at h
    · cases h
    · next hne => exact ⟨Option.some.inj h, Option.some.inj h ▸ hne⟩
  obtain ⟨rfl, hne⟩ := hphrase
  obtain ⟨front, w, g, back, rfl, hstops, hw, hgne, hg⟩ := hintroduced
  have hline : '\n' ∉ rest := fun hmem => hline (by simp [hmem])
  obtain ⟨htrimmed, lead, art, back', hrest, hlead, hart⟩ := exists_trim hline
  refine ⟨htrimmed, hne, art, hart, front, w, g ++ lead, back' ++ back, ?_, hstops, hw,
    List.append_ne_nil_of_left_ne_nil hgne _, List.forall_mem_append.mpr ⟨hg, hlead⟩⟩
  generalize trim rest = phrase at hrest
  rw [hrest]
  simp only [List.append_assoc]

/-- The phrase that a question of one line groups by is a part of the question. It stands behind
`by` or `per`, up to an article, has no blank at its ends, ends with no sign of punctuation, and
has no stop word behind blanks. -/
theorem find?_isGroupingPhrase {question phrase : List Char} (hline : '\n' ∉ question)
    (h : find? question = some phrase) : IsGroupingPhrase question phrase := by
  unfold find? at h
  dsimp only at h
  rcases Option.or_eq_some_iff.mp h with h | ⟨_, h⟩
  · obtain ⟨introduction, hmem, h⟩ := List.exists_of_findSome?_eq_some h
    obtain ⟨m, hm, h⟩ := Option.bind_eq_some_iff.mp h
    exact isGroupingPhrase_of_trimmed? hline
      (isIntroduced_of_occurs hmem (occurs_of_find? hm)).of_strip h
  · obtain ⟨m, hm, h⟩ := List.exists_of_findSome?_eq_some h
    split at h
    · cases h
    · exact isGroupingPhrase_of_trimmed? hline (isIntroduced_of_bareBy hm).of_strip h

theorem find?_isGroupingPhrase_perCardType :
    find? "Show the balance PER each Card Type!, sorted by apr".toList
        = some "Card Type".toList ∧
      IsGroupingPhrase "Show the balance PER each Card Type!, sorted by apr".toList
        "Card Type".toList := by
  have hphrase : find? "Show the balance PER each Card Type!, sorted by apr".toList
      = some "Card Type".toList := by decide +kernel
  exact ⟨hphrase, find?_isGroupingPhrase (by decide) hphrase⟩

end Cardfolio.GroupingPhrase
