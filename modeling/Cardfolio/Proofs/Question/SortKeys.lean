import Cardfolio.Proofs.Pattern.AnyCase
import Cardfolio.Proofs.Pattern.Removal
import Cardfolio.Proofs.Pattern.WordRuns
import Cardfolio.Question.GroupingPhrase

/-!
# Sort keys

`sort my cards by apr` and `show my cards by apr` name a sort key, and no groups. The question is
not asked what the pattern of such a phrase prefers, nor which of its matches comes first: the
phrase stands in the question, so the pattern is found, and wherever it is found its match ends
with the word `by`. There is only one such word. So each match reaches over it, and the bare `by`
is guarded, whatever else a match takes in (`guards_by`).

The explicit introductions cannot be meant either. Each of them has one of a few words in front of
`by`, or is the word `per`.
-/

namespace Cardfolio.GroupingPhrase

open Pattern Text

/-- The words of a text, in small letters. -/
def spokenWords (text : List Char) : List (List Char) :=
  (wordRuns text).map (·.map Char.toLower)

/-- Words with which `by` introduces groups. -/
def introducingWords : List String :=
  ["grouped", "group", "organized", "organised", "breakdown", "distribution"]

/-- Verbs of ordering and filtering, which may have endings. -/
def orderingVerbs : List String := ["sort", "order", "rank", "filter", "arrange"]

/-- Verbs of listing. -/
def listingVerbs : List String := ["show", "list", "display"]

/-- A question in ASCII with a single bare `by`, and no `per`. -/
structure HasBareBy (text : List Char) : Prop where
  ascii : ∀ c ∈ text, c.toNat < 128
  single : (spokenWords text).count "by".toList = 1
  noPer : "per".toList ∉ spokenWords text
  bare : ∀ v ∈ introducingWords, ¬ [v.toList, "by".toList] <:+: spokenWords text

/-- Blanks with at most `n` words between them. -/
inductive FewWords : Nat → List Char → Prop
  | gap {n : Nat} {g : List Char} (hne : g ≠ []) (hg : ∀ c ∈ g, isBlank c = true) : FewWords n g
  | word {n : Nat} {g w rest : List Char} (hne : g ≠ []) (hg : ∀ c ∈ g, isBlank c = true)
      (hwne : w ≠ []) (hw : ∀ c ∈ w, isWordChar c = true) (hrest : FewWords n rest) :
      FewWords (n + 1) (g ++ (w ++ rest))

/-- A verb of ordering or filtering, up to three words, and `by`. -/
def IsOrdering (phrase : List Char) : Prop :=
  ∃ verb words by', phrase = verb ++ (words ++ by') ∧ (∀ c ∈ verb, isWordChar c = true) ∧
    (∃ v ∈ orderingVerbs, v.toList <+: verb.map Char.toLower) ∧
    FewWords 3 words ∧ by'.map Char.toLower = "by".toList

/-- A verb of listing, up to three words, the cards, and `by`. -/
def IsListing (phrase : List Char) : Prop :=
  ∃ verb words cards g by', phrase = verb ++ (words ++ (cards ++ (g ++ by'))) ∧
    (∃ v ∈ listingVerbs, verb.map Char.toLower = v.toList) ∧ FewWords 3 words ∧
    (∃ v ∈ ["card", "cards"], cards.map Char.toLower = v.toList) ∧
    (g ≠ [] ∧ ∀ c ∈ g, isBlank c = true) ∧ by'.map Char.toLower = "by".toList

/-- A phrase of the kind stands in the text, and the words at its ends are whole words. -/
def HasPhrase (kind : List Char → Prop) (text : List Char) : Prop :=
  ∃ front phrase back, text = front ++ (phrase ++ back) ∧ kind phrase ∧
    Stops .word front.reverse ∧ Stops .word back

variable {text s before after a b g : List Char}

/-! ## Reading them -/

theorem isForWords_verbs : ∀ v ∈ orderingVerbs ++ listingVerbs,
    IsForWords (lit v) ∧ ∀ c ∈ v.toList, c.isLower = true := by
  decide

theorem few_spells_nil {p : Pattern} (n : Nat) : (few p n).Spells [] := by
  cases n with
  | zero => rfl
  | succ n => exact .inl rfl

theorem FewWords.exists_spells {n : Nat} (h : FewWords n s) : ∃ a g, s = a ++ g ∧
    (few (seq Pattern.gap (run .word)) n).Spells a ∧ g ≠ [] ∧ ∀ c ∈ g, isBlank c = true := by
  induction h with
  | gap hne hg => exact ⟨[], _, rfl, few_spells_nil _, hne, hg⟩
  | @word n g w rest hne hg hwne hw _ ih =>
      obtain ⟨a, g', rfl, ha, hg'⟩ := ih
      refine ⟨g ++ (w ++ a), g', by simp only [List.append_assoc], .inr ?_, hg'⟩
      exact ⟨g ++ w, a, ⟨g, w, ⟨hne, hg⟩, ⟨hwne, hw⟩, rfl⟩, ha, (List.append_assoc g w a).symm⟩

theorem FewWords.stops {n : Nat} (h : FewWords n s) (after : List Char) :
    Stops .word (s ++ after) := by
  cases h with
  | gap hne hg => exact stops_gap_append hne hg after
  | word hne hg =>
      rw [List.append_assoc]
      exact stops_gap_append hne hg _

theorem spells_plural_card {v : String} (hv : v ∈ ["card", "cards"])
    (h : a.map Char.toLower = v.toList) : (plural "card").Spells a := by
  have hlower : ∀ v ∈ ["card", "s"], ∀ c ∈ v.toList, c.isLower = true := by decide
  have hspells : ∀ v ∈ ["card", "s"], ∀ a : List Char, a.map Char.toLower = v.toList →
      (lit v).Spells a := fun v hv a h =>
    (spells_lit_iff (hlower v hv)).mpr (readsAs_of_map_toLower (hlower v hv) h)
  simp only [List.mem_cons, List.not_mem_nil, or_false] at hv
  rcases hv with rfl | rfl
  · exact ⟨a, [], hspells "card" (by decide) a h, .inr rfl, (List.append_nil a).symm⟩
  · obtain ⟨x, y, rfl, hx, hy⟩ := List.map_eq_append_iff.mp
      (h.trans (show "cards".toList = "card".toList ++ "s".toList from rfl))
    exact ⟨x, y, hspells "card" (by decide) x hx, .inl (hspells "s" (by decide) y hy), rfl⟩

theorem spells_of_mem_verbs {v : String} (hv : v ∈ orderingVerbs ++ listingVerbs)
    (h : a.map Char.toLower = v.toList) : (lit v).Spells a :=
  (spells_lit_iff (isForWords_verbs v hv).2).mpr
    (readsAs_of_map_toLower (isForWords_verbs v hv).2 h)

theorem stands_oneOf {verbs : List String} (hverbs : verbs ⊆ orderingVerbs ++ listingVerbs)
    {v : String} (hv : v ∈ verbs) (h : a.map Char.toLower = v.toList) :
    (oneOf verbs).Stands before a after :=
  (stands_anyOf_iff (List.ne_nil_of_mem (List.mem_map_of_mem hv))).mpr ⟨lit v,
    List.mem_map_of_mem hv, stands_of_spells (isForWords_verbs v (hverbs hv)).1.looksNowhere
      (spells_of_mem_verbs (hverbs hv) h)⟩

/-- Blanks and the word `by` at the end of a pattern. -/
theorem stands_by (hne : g ≠ []) (hg : ∀ c ∈ g, isBlank c = true)
    (hby : b.map Char.toLower = "by".toList) (hafter : Stops .word after) :
    (sequence [gap, lit "by", edge]).Stands before (g ++ b) after := by
  have hlower : ∀ c ∈ "by".toList, c.isLower = true := by decide
  have hreads := readsAs_of_map_toLower hlower hby
  refine ⟨g, b, rfl, ⟨hne, hg⟩, b, [], (List.append_nil b).symm, ?_, rfl, ?_⟩
  · exact stands_of_spells (by decide) ((spells_lit_iff hlower).mpr hreads)
  · refine isEdge_behind_word ?_ hreads.isWordChar hafter
    rintro rfl
    cases hby

theorem standsIn_orderingBy (h : HasPhrase IsOrdering text) : orderingBy.StandsIn text := by
  obtain ⟨front, _, back, rfl, ⟨verb, words, b, rfl, hverb, ⟨v, hv, t, ht⟩, hwords, hby⟩, hfront,
    hback⟩ := h
  obtain ⟨start, rest, rfl, hstart, _⟩ := List.map_eq_append_iff.mp ht.symm
  obtain ⟨a, g, rfl, ha, hgne, hg⟩ := hwords.exists_spells
  have hsub : orderingVerbs ⊆ orderingVerbs ++ listingVerbs := List.subset_append_left _ _
  have hspells := spells_of_mem_verbs (hsub hv) hstart
  have hfor := (isForWords_verbs v (hsub hv)).1
  refine ⟨front, (start ++ (rest ++ a)) ++ (g ++ b), back, by simp only [List.append_assoc], ?_⟩
  have hsplit : orderingBy = sequence ([edge, oneOf orderingVerbs, many .word, fewWords] ++
      [gap, lit "by", edge]) := rfl
  rw [hsplit]
  refine stands_sequence_append.mpr ⟨_, _, rfl, ?_, stands_by hgne hg hby hback⟩
  refine ⟨[], _, rfl, ⟨rfl, ?_⟩, start, rest ++ a, rfl, stands_oneOf hsub hv hstart,
    rest, a, rfl, ?_, stands_of_spells (by decide) ha⟩
  · show Cursor.isEdge ⟨_, (start ++ (rest ++ a)) ++ _⟩ = true
    rw [List.append_assoc start]
    exact isEdge_ahead_word (ne_nil_of_spells hfor.notEmpty hspells)
      (isWordChar_of_spells hfor.isOfWords hspells) hfront
  · exact stands_of_spells rfl (spells_many.mpr fun c hc => hverb c (List.mem_append_right _ hc))

theorem standsIn_listingBy (h : HasPhrase IsListing text) : listingBy.StandsIn text := by
  obtain ⟨front, _, back, rfl, ⟨verb, words, cards, g', b, rfl, ⟨v, hv, hverb⟩, hwords,
    ⟨w, hw, hcards⟩, ⟨hgne', hg'⟩, hby⟩, hfront, hback⟩ := h
  obtain ⟨a, g, rfl, ha, hgne, hg⟩ := hwords.exists_spells
  have hsub : listingVerbs ⊆ orderingVerbs ++ listingVerbs := List.subset_append_right _ _
  refine ⟨front, (verb ++ (a ++ (g ++ cards))) ++ (g' ++ b), back,
    by simp only [List.append_assoc], ?_⟩
  have hsplit : listingBy = sequence ([whole (oneOf listingVerbs), fewWords, gap, plural "card"] ++
      [gap, lit "by", edge]) := rfl
  have hspells : (oneOf listingVerbs).Spells verb :=
    Stands.spells (stands_oneOf hsub hv hverb : (oneOf listingVerbs).Stands [] verb [])
  rw [hsplit]
  refine stands_sequence_append.mpr ⟨_, _, rfl, ?_, stands_by hgne' hg' hby hback⟩
  refine ⟨verb, _, rfl, ?_, a, g ++ cards, rfl, stands_of_spells (by decide) ha, g, cards, rfl,
    ⟨hgne, hg⟩, ?_⟩
  · refine (stands_whole_iff (by decide)).mpr ⟨hspells, hfront, ?_⟩
    have hstops := hwords.stops (cards ++ (g' ++ b ++ back))
    simp only [List.append_assoc] at hstops ⊢
    exact hstops
  · exact stands_of_spells (by decide) (spells_plural_card hw hcards)

/-! ## The guards -/

/-- A pattern that ends with blanks and the word `by`. -/
def EndsWithBy (p : Pattern) : Prop :=
  ∃ ps, p = sequence (ps ++ [gap, lit "by", edge])

theorem endsWithBy_orderingBy : EndsWithBy orderingBy :=
  ⟨[edge, oneOf orderingVerbs, many .word, fewWords], rfl⟩

theorem endsWithBy_listingBy : EndsWithBy listingBy :=
  ⟨[whole (oneOf listingVerbs), fewWords, gap, plural "card"], rfl⟩

/-- The word with which such a pattern ends. -/
theorem exists_isRunAt_by {p : Pattern} (hp : EndsWithBy p)
    (h : p.Stands before.reverse s after) : ∃ a b, s = a ++ b ∧ ReadsAs b "by" ∧
      IsRunAt (before ++ (s ++ after)) (before ++ a) b after := by
  obtain ⟨ps, rfl⟩ := hp
  obtain ⟨a, _, rfl, _, g, _, rfl, ⟨hgne, hg⟩, b, _, rfl, hby, rfl, hedge⟩ :=
    stands_sequence_append.mp h
  have hreads : ReadsAs b "by" := (spells_lit_iff (by decide)).mp hby.spells
  have hne : b ≠ [] := ne_nil_of_spells (by decide) hby.spells
  refine ⟨a ++ g, b, by simp only [List.append_assoc, List.append_nil], hreads, ?_, hne,
    hreads.isWordChar, ?_, ?_⟩
  · simp only [List.append_assoc, List.append_nil]
  · rw [← List.append_assoc]
    exact stops_reverse_gap hgne hg _
  · exact stops_of_isEdge_behind_word hne hreads.isWordChar hedge

namespace HasBareBy

variable {x y w : List Char}

theorem countP_by (h : HasBareBy text) :
    (wordRuns text).countP (fun w => w.map Char.toLower == "by".toList) = 1 := by
  have := h.single
  rwa [spokenWords, List.count, List.countP_map] at this

theorem toLower_of_readsAs (h : HasBareBy text) (hw : w ⊆ text) {v : String}
    (hreads : ReadsAs w v) : w.map Char.toLower = v.toList :=
  map_toLower_of_readsAs (fun c hc => h.ascii c (hw hc)) hreads

/-- There is one `by`. -/
theorem eq_of_readsAs (h : HasBareBy text) {x' y' w' : List Char} (hrun : IsRunAt text x w y)
    (hrun' : IsRunAt text x' w' y') (hw : ReadsAs w "by") (hw' : ReadsAs w' "by") : x = x' := by
  have hlower : ∀ {x w y : List Char}, IsRunAt text x w y → ReadsAs w "by" →
      (w.map Char.toLower == "by".toList) = true := by
    intro x w y hrun hw
    refine beq_iff_eq.mpr (h.toLower_of_readsAs (fun c hc => ?_) hw)
    simp [hrun.text_eq, hc]
  exact hrun.eq_of_countP h.countP_by hrun' (hlower hrun hw) (hlower hrun' hw')

/-- A pattern that ends with `by` and stands anywhere has a match that reaches over the only
`by`. -/
theorem exists_guard (h : HasBareBy text) {p : Pattern} (hp : EndsWithBy p)
    (hsome : p.mayBeEmpty = false) (hstands : p.StandsIn text) (hrun : IsRunAt text x w y)
    (hw : ReadsAs w "by") :
    ∃ m ∈ p.findAll text, m.span.start ≤ x.length ∧ x.length < m.span.stop := by
  obtain ⟨m, hm⟩ := (occursIn_iff hsome).mp (occursIn_iff_standsIn.mpr hstands)
  obtain ⟨left, s, htext, hs, hspan⟩ := (occurs_of_mem_findAll hm).exists_stands_at
  obtain ⟨a, b, rfl, hb, hrun'⟩ := exists_isRunAt_by hp hs
  rw [← htext] at hrun'
  have hx := h.eq_of_readsAs hrun hrun' hw hb
  have hpositive := List.length_pos_of_ne_nil hrun'.ne_nil
  refine ⟨m, hm, ?_⟩
  rw [hspan, hx]
  simp only [List.length_append]
  omega

/-- No bare `by` is left. -/
theorem afterBy?_eq_none (h : HasBareBy text)
    (hkey : HasPhrase IsOrdering text ∨ HasPhrase IsListing text) : afterBy? text = none := by
  unfold afterBy?
  refine List.findSome?_eq_none_iff.mpr fun m hm => if_pos ?_
  obtain ⟨left, _, htext, hstands, hspan⟩ := (occurs_of_mem_findAll hm).exists_stands_at
  obtain ⟨_, _, rfl, ⟨rfl, hedge⟩, b, g, rfl, hby, hgne, hg⟩ := hstands
  have hreads : ReadsAs b "by" := (spells_lit_iff (by decide)).mp hby.spells
  simp only [List.nil_append, List.append_assoc] at htext hedge
  have hrun := isRunAt_of_isEdge (by decide) hby.spells hedge
    (stops_gap_append hgne hg m.stop.after)
  rw [← htext] at hrun
  have hguard : ∃ s ∈ guarded text, s.start ≤ left.length ∧ left.length < s.stop := by
    rcases hkey with hkey | hkey
    · obtain ⟨m', hm', hover⟩ := h.exists_guard endsWithBy_orderingBy (by decide)
        (standsIn_orderingBy hkey) hrun hreads
      exact ⟨m'.span, List.mem_flatMap.mpr ⟨orderingBy, by simp, List.mem_map_of_mem hm'⟩, hover⟩
    · obtain ⟨m', hm', hover⟩ := h.exists_guard endsWithBy_listingBy (by decide)
        (standsIn_listingBy hkey) hrun hreads
      exact ⟨m'.span, List.mem_flatMap.mpr ⟨listingBy, by simp, List.mem_map_of_mem hm'⟩, hover⟩
  obtain ⟨s, hs, hstart, hstop⟩ := hguard
  rw [hspan]
  exact List.any_eq_true.mpr ⟨s, hs, by simp [hstart, hstop]⟩

theorem not_standsIn_introduction (h : HasBareBy text) {verb : Pattern} (hwords : IsForWords verb)
    (hverb : ∀ a, (∀ c ∈ a, c.toNat < 128) → verb.Spells a →
      ∃ v ∈ introducingWords, a.map Char.toLower = v.toList) (rest : Pattern) :
    ¬ (sequence [edge, spaced [verb, lit "by"], gap, rest]).StandsIn text := by
  rintro ⟨left, _, right, htext, _, _, rfl, ⟨rfl, hedge⟩, _, _, rfl,
    ⟨a, _, rfl, ha, g, b, rfl, ⟨hgne, hg⟩, hby⟩, g', r, rfl, ⟨hgne', hg'⟩, _⟩
  simp only [List.nil_append, List.append_assoc] at htext hedge
  have hrun := isRunAt_of_isEdge hwords ha.spells hedge (stops_gap_append hgne hg _)
  rw [← htext] at hrun
  have hreads : ReadsAs b "by" := (spells_lit_iff (by decide)).mp hby.spells
  have hrun' : IsRunAt (g ++ (b ++ (g' ++ (r ++ right)))) g b (g' ++ (r ++ right)) :=
    ⟨rfl, ne_nil_of_spells (by decide) hby.spells, hreads.isWordChar,
      stops_reverse_gap hgne hg [], stops_gap_append hgne' hg' _⟩
  obtain ⟨v, hv, hlower⟩ := hverb a (fun c hc => h.ascii c (by simp [htext, hc])) ha.spells
  have hby' : b.map Char.toLower = "by".toList :=
    h.toLower_of_readsAs (fun c hc => by simp [htext, hc]) hreads
  refine h.bare v hv ⟨spokenWords left, spokenWords (g' ++ (r ++ right)), ?_⟩
  rw [spokenWords, spokenWords, spokenWords, hrun.wordRuns_eq, hrun'.wordRuns_eq,
    wordRuns_of_blank hg, ← hlower, ← hby']
  simp

theorem not_standsIn_per (h : HasBareBy text) (rest : Pattern) :
    ¬ (sequence [edge, lit "per", gap, rest]).StandsIn text := by
  rintro ⟨left, _, right, htext, _, _, rfl, ⟨rfl, hedge⟩, w, _, rfl, hw,
    g, r, rfl, ⟨hgne, hg⟩, _⟩
  simp only [List.nil_append, List.append_assoc] at htext hedge
  have hrun := isRunAt_of_isEdge (by decide) hw.spells hedge (stops_gap_append hgne hg (r ++ right))
  rw [← htext] at hrun
  have hper : w.map Char.toLower = "per".toList :=
    h.toLower_of_readsAs (fun c hc => by simp [htext, hc])
      ((spells_lit_iff (by decide)).mp hw.spells)
  refine h.noPer ?_
  rw [spokenWords, hrun.wordRuns_eq, ← hper]
  simp

theorem exists_introducingWord_lit {v : String} (hv : v ∈ introducingWords) (a : List Char)
    (ha : ∀ c ∈ a, c.toNat < 128) (hspells : (lit v).Spells a) :
    ∃ v ∈ introducingWords, a.map Char.toLower = v.toList := by
  have hlower : ∀ v ∈ introducingWords, ∀ c ∈ v.toList, c.isLower = true := by decide
  exact ⟨v, hv, map_toLower_of_readsAs ha ((spells_lit_iff (hlower v hv)).mp hspells)⟩

theorem exists_introducingWord_organized (a : List Char) (ha : ∀ c ∈ a, c.toNat < 128)
    (hspells : (sequence [lit "organi", one (.either (.letter 's') (.letter 'z')), lit "ed"]).Spells
      a) : ∃ v ∈ introducingWords, a.map Char.toLower = v.toList := by
  obtain ⟨x, _, hx, ⟨_, y, ⟨c, hc, rfl⟩, hy, rfl⟩, rfl⟩ := hspells
  have hstart : ReadsAs x "organi" := (spells_lit_iff (by decide)).mp hx
  have hend : ReadsAs y "ed" := (spells_lit_iff (by decide)).mp hy
  have hletter : ReadsAs [c] "s" ∨ ReadsAs [c] "z" := by
    refine (Bool.or_eq_true_iff.mp hc).imp (fun hs => ?_) fun hz => ?_
    · exact congrArg (fun d => [d]) (beq_iff_eq.mp hs)
    · exact congrArg (fun d => [d]) (beq_iff_eq.mp hz)
  rcases hletter with hs | hz
  · exact ⟨"organised", by decide, map_toLower_of_readsAs ha (hstart.append (hs.append hend))⟩
  · exact ⟨"organized", by decide, map_toLower_of_readsAs ha (hstart.append (hz.append hend))⟩

theorem introduced?_eq_none (h : HasBareBy text) :
    ∀ introduction ∈ introductions, introduced? text introduction = none := by
  intro introduction hmem
  have hnone : ¬ introduction.StandsIn text := by
    obtain ⟨words, hwords, rfl⟩ := List.mem_map.mp hmem
    simp only [List.mem_cons, List.not_mem_nil, or_false] at hwords
    rcases hwords with rfl | rfl | rfl | rfl | rfl | rfl
    · exact h.not_standsIn_introduction (by decide) (exists_introducingWord_lit (by decide)) _
    · exact h.not_standsIn_introduction (by decide) (exists_introducingWord_lit (by decide)) _
    · exact h.not_standsIn_introduction (by decide) exists_introducingWord_organized _
    · exact h.not_standsIn_introduction (by decide) (exists_introducingWord_lit (by decide)) _
    · exact h.not_standsIn_introduction (by decide) (exists_introducingWord_lit (by decide)) _
    · exact h.not_standsIn_per _
  rw [introduced?, find?_eq_none_iff.mpr hnone]
  rfl

/-! ## Without the blanks at the ends -/

theorem strip (h : HasBareBy text) : HasBareBy (strip text) where
  ascii := fun c hc => h.ascii c (mem_of_mem_trim hc)
  single := by
    rw [spokenWords, wordRuns_strip]
    exact h.single
  noPer := by
    rw [spokenWords, wordRuns_strip]
    exact h.noPer
  bare := by
    rw [spokenWords, wordRuns_strip]
    exact h.bare

end HasBareBy

/-- What has no blank at its ends stands between the blanks at the ends of the text. -/
theorem exists_around_strip (hne : s ≠ []) (hs : IsTrimmed isBlank s)
    (htext : text = before ++ (s ++ after)) : ∃ lead before' after' trail,
      before = lead ++ before' ∧ after = after' ++ trail ∧
        strip text = before' ++ (s ++ after') := by
  obtain ⟨lead, trail, hstrip, hlead, htrail⟩ := exists_around_trim isBlank text
  change text = lead ++ (strip text ++ trail) at hstrip
  generalize strip text = core at hstrip
  rw [htext] at hstrip
  obtain ⟨z, rfl, hz⟩ : ∃ z, before = lead ++ z ∧ core ++ trail = z ++ (s ++ after) := by
    rcases List.append_eq_append_iff.mp hstrip with ⟨z, hz, hrest⟩ | hz
    · cases z with
      | nil => exact ⟨[], by rw [hz, List.append_nil, List.append_nil], hrest.symm⟩
      | cons c z =>
          have hblank : isBlank c = true := hlead c (by rw [hz]; simp)
          obtain ⟨d, s, rfl⟩ := List.exists_cons_of_ne_nil hne
          obtain rfl := (List.cons.inj hrest).1
          rw [hs.head d rfl] at hblank
          cases hblank
    · exact hz
  rw [← List.append_assoc] at hz
  refine ⟨lead, z, ?_⟩
  rcases List.append_eq_append_iff.mp hz with ⟨y, hy, rfl⟩ | ⟨y, rfl, rfl⟩
  · -- What stands behind the text without blanks is blank, so `s` does not reach into it.
    have hlast : ∀ c ∈ (core ++ y).getLast?, isBlank c = false := by
      intro c hc
      rw [← hy, List.getLast?_append_of_ne_nil _ hne] at hc
      exact hs.last c hc
    obtain rfl := eq_nil_of_last hlast fun c hc => htrail c (List.mem_append_left _ hc)
    rw [List.append_nil] at hy
    exact ⟨[], after, rfl, rfl, by rw [← hy, List.append_nil]⟩
  · exact ⟨y, trail, rfl, rfl, by rw [List.append_assoc]⟩

theorem HasPhrase.strip {kind : List Char → Prop}
    (hkind : ∀ phrase, kind phrase → phrase ≠ [] ∧ IsTrimmed isBlank phrase)
    (h : HasPhrase kind text) : HasPhrase kind (strip text) := by
  obtain ⟨front, phrase, back, htext, hphrase, hfront, hback⟩ := h
  obtain ⟨hne, htrimmed⟩ := hkind phrase hphrase
  obtain ⟨lead, front, back, trail, rfl, rfl, hstrip⟩ := exists_around_strip hne htrimmed htext
  rw [List.reverse_append] at hfront
  exact ⟨front, phrase, back, hstrip, hphrase, stops_of_append hfront, stops_of_append hback⟩

theorem isTrimmed_of_words (hne : a ≠ [] ∧ b ≠ []) (ha : ∀ c ∈ a, isWordChar c = true)
    (hb : ∀ c ∈ b, isWordChar c = true) (between : List Char) :
    a ++ (between ++ b) ≠ [] ∧ IsTrimmed isBlank (a ++ (between ++ b)) := by
  refine ⟨List.append_ne_nil_of_left_ne_nil hne.1 _, fun c hc => ?_, fun c hc => ?_⟩
  · obtain ⟨d, a, rfl⟩ := List.exists_cons_of_ne_nil hne.1
    obtain rfl := Option.some.inj hc
    exact isBlank_of_isWordChar (ha _ List.mem_cons_self)
  · obtain ⟨d, hd⟩ := Option.isSome_iff_exists.mp (List.getLast?_isSome.mpr hne.2)
    rw [List.getLast?_append, List.getLast?_append, hd, Option.some_or, Option.some_or] at hc
    obtain rfl := Option.some.inj hc
    exact isBlank_of_isWordChar (hb _ (List.mem_of_getLast? hd))

theorem IsOrdering.isTrimmed {phrase : List Char} (h : IsOrdering phrase) :
    phrase ≠ [] ∧ IsTrimmed isBlank phrase := by
  obtain ⟨verb, words, b, rfl, hverb, ⟨v, hv, hprefix⟩, _, hby⟩ := h
  have hne : verb ≠ [] := by
    rintro rfl
    have hnil : v.toList = [] := List.prefix_nil.mp hprefix
    revert v
    decide
  refine isTrimmed_of_words ⟨hne, ?_⟩ hverb
    (readsAs_of_map_toLower (by decide) hby).isWordChar words
  rintro rfl
  cases hby

theorem IsListing.isTrimmed {phrase : List Char} (h : IsListing phrase) :
    phrase ≠ [] ∧ IsTrimmed isBlank phrase := by
  obtain ⟨verb, words, cards, g, b, rfl, ⟨v, hv, hverb⟩, _, _, _, hby⟩ := h
  have hspells := spells_of_mem_verbs (List.mem_append_right _ hv) hverb
  have hfor := (isForWords_verbs v (List.mem_append_right _ hv)).1
  have hne : b ≠ [] := by
    rintro rfl
    cases hby
  simpa only [List.append_assoc] using isTrimmed_of_words
    ⟨ne_nil_of_spells hfor.notEmpty hspells, hne⟩ (isWordChar_of_spells hfor.isOfWords hspells)
    (readsAs_of_map_toLower (by decide) hby).isWordChar (words ++ (cards ++ g))

/-- A sort key is never taken for groups: behind a verb of ordering or filtering, and behind a
listing of the cards, the only `by` introduces no phrase. -/
theorem find?_eq_none_of_sortKey (h : HasBareBy text)
    (hkey : HasPhrase IsOrdering text ∨ HasPhrase IsListing text) : find? text = none := by
  have hstrip := h.strip
  have hintroduced : introductions.findSome? (introduced? (strip text)) = none :=
    List.findSome?_eq_none_iff.mpr hstrip.introduced?_eq_none
  rw [find?, hintroduced, Option.none_or]
  refine hstrip.afterBy?_eq_none (hkey.imp ?_ ?_)
  · exact HasPhrase.strip fun _ => IsOrdering.isTrimmed
  · exact HasPhrase.strip fun _ => IsListing.isTrimmed

/-- Another verb in front takes up the words up to the listing, which goes on to `by`. -/
theorem find?_eq_none_of_sortKey_showMyCards :
    HasBareBy " Ranked, or SHOW\tall my Cards by Apr? ".toList ∧
      HasPhrase IsListing " Ranked, or SHOW\tall my Cards by Apr? ".toList ∧
      find? " Ranked, or SHOW\tall my Cards by Apr? ".toList = none := by
  have hbare : HasBareBy " Ranked, or SHOW\tall my Cards by Apr? ".toList :=
    ⟨by decide +kernel, by decide +kernel, by decide +kernel, by decide +kernel⟩
  have hwords : FewWords 3 "\tall my ".toList :=
    .word (g := ['\t']) (w := "all".toList) (by decide) (by decide) (by decide) (by decide)
      (.word (g := [' ']) (w := "my".toList) (by decide) (by decide) (by decide) (by decide)
        (.gap (g := [' ']) (by decide) (by decide)))
  have hlisting : HasPhrase IsListing " Ranked, or SHOW\tall my Cards by Apr? ".toList := by
    refine ⟨" Ranked, or ".toList, "SHOW\tall my Cards by".toList, " Apr? ".toList, by decide, ?_,
      stops_of_cons (c := ' ') (by decide), stops_of_cons (c := ' ') (by decide)⟩
    exact ⟨"SHOW".toList, "\tall my ".toList, "Cards".toList, [' '], "by".toList, by decide,
      ⟨"show", by decide, by decide⟩, hwords, ⟨"cards", by decide, by decide⟩, by decide,
      by decide⟩
  exact ⟨hbare, hlisting, find?_eq_none_of_sortKey hbare (.inr hlisting)⟩

end Cardfolio.GroupingPhrase
