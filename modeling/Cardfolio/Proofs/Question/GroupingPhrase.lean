import Cardfolio.Proofs.Pattern.Spellings
import Cardfolio.Proofs.Pattern.Standing
import Cardfolio.Proofs.Question.NormalForm
import Cardfolio.Proofs.Text.WordByWord
import Mathlib.Data.List.Basic

/-!
# Where the grouping phrase is found

A question that names its groups behind a bare `by` can have that word read in three other ways:
as part of an introduction such as `grouped by`, as what belongs to a verb of ordering, and as
what belongs to a listing of the cards. All of them need a word in front of `by`, and each of
these words has an r in it. So in a question without that letter in front of its only `by`, and
without `per`, none of the other patterns stands, and the phrase is all that follows.

That a pattern does not stand is proved by taking it apart: what it spells in front of `by` would
be in the words in front of `by`, and these are known, since a text falls apart into its
words in one way only. In the same way a phrase keeps what trimming would take off: a stop
word behind its first word, an article at its beginning, and punctuation.
-/

namespace Cardfolio.GroupingPhrase

open Pattern Text

theorem findSome?_eq_of_forall {α β : Type _} {f : α → Option β} {xs : List α} {r : Option β}
    (hne : xs ≠ []) (h : ∀ x ∈ xs, f x = r) : xs.findSome? f = r := by
  obtain ⟨x, xs, rfl⟩ := List.exists_cons_of_ne_nil hne
  obtain ⟨hx, hxs⟩ := List.forall_mem_cons.mp h
  rw [List.findSome?_cons, hx]
  cases r with
  | none => exact List.findSome?_eq_none_iff.mpr hxs
  | some y => rfl

variable {text x y g : List Char}

/-- A text in normal form in which nothing but blanks stands between the words. -/
structure IsWordy (text : List Char) : Prop extends IsNormal text where
  wordy : ∀ c ∈ text, isWordChar c = true ∨ isBlank c = true

namespace IsWordy

theorem isBlank_of_stops (h : IsWordy text) (hsub : y ⊆ text) (hy : Stops .word y) :
    ∀ c ∈ y.head?, isBlank c = true := fun c hc =>
  (h.wordy c (hsub (List.mem_of_mem_head? hc))).resolve_left (Bool.eq_false_iff.mp (hy c hc))

theorem isBlank_of_edge (h : IsWordy text) (hsub : x ⊆ text) {c : Char} (hc : isWordChar c = true)
    (hedge : Cursor.isEdge ⟨x.reverse, c :: y⟩ = true) : ∀ d ∈ x.getLast?, isBlank d = true := by
  rw [List.getLast?_eq_head?_reverse]
  exact h.isBlank_of_stops (fun d hd => hsub (List.mem_reverse.mp hd))
    (stops_of_isEdge_ahead hc hedge)

/-- What the pattern of a word goes past is the word. -/
theorem eq_lit (h : IsWordy text) {s before after : List Char} (hsub : s ⊆ text) {w : String}
    (hs : (lit w).Stands before s after) : s = w.toList :=
  eq_of_spells_lit (h.plain.of_subset hsub) hs.spells

theorem mem_spellings (h : IsWordy text) {s before after : List Char} (htext : text = x ++ (s ++ y))
    {p : Pattern} {forms : List (List Char)} (hforms : p.spellings? = some forms)
    (hs : p.Stands before s after) : s ∈ forms := by
  have hspaced := h.spaced
  rw [htext] at hspaced
  exact mem_of_spells hforms (h.plain.of_subset fun c hc => by simp [htext, hc])
    (isSpaced_of_append_left (isSpaced_of_append_right hspaced)) hs.spells

theorem mem_of_needs (h : IsWordy text) {s before after : List Char} (htext : text = x ++ (s ++ y))
    {p : Pattern} {c : Char} (hp : p.needs c = true) (hs : p.Stands before s after) : c ∈ s := by
  obtain ⟨forms, hforms, hall⟩ := (Option.any_eq_true ..).mp hp
  exact List.contains_iff_mem.mp
    (List.all_eq_true.mp hall s (h.mem_spellings htext hforms hs))

end IsWordy

/-- A text of words that asks for groups with a single bare `by`: `front` are the words in front of
it and `name` are those behind it. -/
structure AsksBy (front name : List (List Char)) (text : List Char) : Prop
    extends IsWordy text where
  words_eq : words text = front ++ "by".toList :: name
  bare : ∀ w ∈ front, 'r' ∉ w
  single : "by".toList ∉ front ∧ "by".toList ∉ name
  noPer : "per".toList ∉ name

variable {front name : List (List Char)}

namespace AsksBy

/-- There is one `by`, and on its sides are the words that are known. -/
theorem words_around (h : AsksBy front name text) (htext : text = x ++ ("by".toList ++ y))
    (hx : ∀ c ∈ x.getLast?, isBlank c = true) (hy : ∀ c ∈ y.head?, isBlank c = true) :
    words x = front ∧ words y = name := by
  have hwords := h.words_eq
  rw [htext, words_append_word (by decide) (by decide) hx hy] at hwords
  obtain ⟨hfront, _, hname⟩ :=
    (List.append_cons_inj_of_notMem h.single.1 h.single.2).mp hwords.symm
  exact ⟨hfront.symm, hname.symm⟩

/-- In front of `by` and the blanks before it there is no r. -/
theorem not_mem_front (h : AsksBy front name text) (htext : text = x ++ (g ++ ("by".toList ++ y)))
    (hgne : g ≠ []) (hg : ∀ c ∈ g, isBlank c = true) (hy : ∀ c ∈ y.head?, isBlank c = true) :
    'r' ∉ x := by
  obtain ⟨hwords, _⟩ := h.words_around (htext.trans (List.append_assoc ..).symm)
    (of_mem_last_gap hgne hg x) hy
  intro hr
  obtain ⟨left, right, rfl⟩ := List.append_of_mem hr
  have hstands : ['r'] <:+: left ++ 'r' :: right ++ g := ⟨left, right ++ g, by simp⟩
  obtain ⟨w, hw, hpart⟩ := exists_part_of_infix (p := isBlank) (by decide) (by decide) hstands
  have hmem : w ∈ front := hwords ▸ hw
  exact h.bare w hmem (hpart.subset (List.mem_singleton_self 'r'))

/-! ## The other patterns -/

theorem not_standsIn_introduction (h : AsksBy front name text) {verb : Pattern}
    (hverb : verb.needs 'r' = true) (rest : Pattern) :
    ¬ (sequence [edge, spaced [verb, lit "by"], gap, rest]).StandsIn text := by
  rintro ⟨left, _, right, htext, _, _, rfl, ⟨rfl, _⟩, _, _, rfl,
    ⟨a, _, rfl, ha, g, b, rfl, ⟨hgne, hg⟩, hby⟩, g', r, rfl, ⟨hgne', hg'⟩, _⟩
  simp only [List.nil_append, List.append_assoc] at htext
  have hsub : b ⊆ text := fun c hc => by simp [htext, hc]
  obtain rfl := h.eq_lit hsub hby
  refine h.not_mem_front (x := left ++ a) (by rw [htext, List.append_assoc]) hgne hg
    (of_mem_head_gap hgne' hg' (r ++ right)) ?_
  exact List.mem_append_right left (h.mem_of_needs htext hverb ha)

theorem not_standsIn_per (h : AsksBy front name text) (rest : Pattern) :
    ¬ (sequence [edge, lit "per", gap, rest]).StandsIn text := by
  rintro ⟨left, _, right, htext, _, _, rfl, ⟨rfl, hedge⟩, p, _, rfl, hper,
    g, r, rfl, ⟨hgne, hg⟩, _⟩
  simp only [List.nil_append, List.append_assoc] at htext hedge
  have hsub : p ⊆ text := fun c hc => by simp [htext, hc]
  obtain rfl := h.eq_lit hsub hper
  have hbefore : ∀ c ∈ left.getLast?, isBlank c = true :=
    h.isBlank_of_edge (fun c hc => by simp [htext, hc]) (by decide) hedge
  have hwords := h.words_eq
  rw [htext, words_append_word (by decide) (by decide) hbefore
    (of_mem_head_gap hgne hg (r ++ right))] at hwords
  have hmem : "per".toList ∈ front ++ "by".toList :: name :=
    hwords ▸ List.mem_append_right _ List.mem_cons_self
  rcases List.mem_append.mp hmem with hmem | hmem
  · exact h.bare _ hmem (by decide)
  · exact h.noPer ((List.mem_cons.mp hmem).resolve_left (by decide))

theorem not_standsIn_orderingBy (h : AsksBy front name text) : ¬ orderingBy.StandsIn text := by
  rintro ⟨left, _, right, htext, _, _, rfl, ⟨rfl, _⟩, verb, _, rfl, hverb, m, _, rfl, _,
    f, _, rfl, _, g, _, rfl, ⟨hgne, hg⟩, b, _, rfl, hby, rfl, hedge⟩
  simp only [List.nil_append, List.append_assoc] at htext hedge
  have hsub : b ⊆ text := fun c hc => by simp [htext, hc]
  obtain rfl := h.eq_lit hsub hby
  have hy : ∀ c ∈ right.head?, isBlank c = true :=
    h.isBlank_of_stops (fun c hc => by simp [htext, hc]) (stops_of_isEdge_behind (by decide) hedge)
  refine h.not_mem_front (x := left ++ (verb ++ (m ++ f))) (by simpa using htext) hgne hg hy ?_
  have hr : 'r' ∈ verb := h.mem_of_needs htext (by decide) hverb
  exact List.mem_append_right left (List.mem_append_left _ hr)

theorem not_standsIn_listingBy (h : AsksBy front name text) : ¬ listingBy.StandsIn text := by
  rintro ⟨left, _, right, htext, verb, _, rfl, _, f, _, rfl, _, g', _, rfl, _,
    card, _, rfl, hcard, g, _, rfl, ⟨hgne, hg⟩, b, _, rfl, hby, rfl, hedge⟩
  simp only [List.nil_append, List.append_assoc] at htext hedge
  have hsub : b ⊆ text := fun c hc => by simp [htext, hc]
  obtain rfl := h.eq_lit hsub hby
  have hy : ∀ c ∈ right.head?, isBlank c = true :=
    h.isBlank_of_stops (fun c hc => by simp [htext, hc]) (stops_of_isEdge_behind (by decide) hedge)
  refine h.not_mem_front (x := left ++ (verb ++ (f ++ (g' ++ card)))) (by simpa using htext)
    hgne hg hy ?_
  have hr : 'r' ∈ card := h.mem_of_needs (x := left ++ (verb ++ (f ++ g')))
    (by simpa using htext) (by decide) hcard
  simp [hr]

theorem introduced?_eq_none (h : AsksBy front name text) :
    ∀ introduction ∈ introductions, introduced? text introduction = none := by
  intro introduction hmem
  have hnone : ¬ introduction.StandsIn text := by
    obtain ⟨words, hwords, rfl⟩ := List.mem_map.mp hmem
    simp only [List.mem_cons, List.not_mem_nil, or_false] at hwords
    rcases hwords with rfl | rfl | rfl | rfl | rfl | rfl
    · exact h.not_standsIn_introduction (by decide) _
    · exact h.not_standsIn_introduction (by decide) _
    · exact h.not_standsIn_introduction (by decide) _
    · exact h.not_standsIn_introduction (by decide) _
    · exact h.not_standsIn_introduction (by decide) _
    · exact h.not_standsIn_per _
  rw [introduced?, find?_eq_none_iff.mpr hnone]
  rfl

theorem guarded_eq_nil (h : AsksBy front name text) : guarded text = [] := by
  rw [guarded, List.flatMap_cons, List.flatMap_singleton, findAll_eq_nil h.not_standsIn_orderingBy,
    findAll_eq_nil h.not_standsIn_listingBy]
  rfl

theorem standsIn_bareBy (h : AsksBy front name text) (hname : name ≠ []) :
    bareBy.StandsIn text := by
  have hmem : "by".toList ∈ words text := h.words_eq ▸ List.mem_append_right _ List.mem_cons_self
  obtain ⟨x, y, htext, hx, hy⟩ := exists_around_word hmem
  obtain ⟨_, hwords⟩ := h.words_around htext hx hy
  obtain ⟨c, y, rfl⟩ := List.exists_cons_of_ne_nil (l := y) fun hnil => by
    rw [hnil] at hwords
    exact hname hwords.symm
  have hstops : Stops .word x.reverse := by
    intro d hd
    rw [← List.getLast?_eq_head?_reverse] at hd
    exact (isPlainBlank_of_isBlank (hx d hd)).isWordChar_eq
  refine ⟨x, "by".toList ++ [c], y, by rw [htext, List.append_assoc]; rfl, [], _, rfl,
    ⟨rfl, isEdge_ahead hstops (by decide)⟩, "by".toList, [c], rfl, ?_, List.cons_ne_nil c [],
    fun d hd => ?_⟩
  · exact ⟨['b'], ['y'], rfl, ⟨'b', by decide, rfl⟩, 'y', by decide, rfl⟩
  · rw [List.mem_singleton.mp hd]
    exact hy c rfl

/-- Behind each bare `by` are just the words of the name. -/
theorem after_eq (h : AsksBy front name text) {m : Match} (hm : m ∈ bareBy.findAll text) :
    m.stop.after = [' '].intercalate name := by
  obtain ⟨left, _, htext, _, _, rfl, ⟨rfl, hedge⟩, b, g, rfl, hby, hgne, hg⟩ :=
    (occurs_of_mem_findAll hm).exists_stands
  generalize m.stop.after = rest at htext hedge ⊢
  simp only [List.nil_append, List.append_assoc] at htext hedge
  have hsub : b ⊆ text := fun c hc => by simp [htext, hc]
  obtain rfl := h.eq_lit hsub hby
  obtain ⟨_, hwords⟩ := h.words_around htext
    (h.isBlank_of_edge (fun c hc => by simp [htext, hc]) (by decide) hedge)
    (of_mem_head_gap hgne hg rest)
  rw [words_blanks_append hg] at hwords
  have hspaced : isSpaced (g ++ rest) = true := by
    have hspaced := h.spaced
    rw [htext] at hspaced
    exact isSpaced_of_append_right (isSpaced_of_append_right hspaced)
  have htrimmed : IsTrimmed isBlank rest := by
    refine ⟨(eq_space_of_isSpaced hgne hg hspaced).2, fun c hc => h.trimmed.last c ?_⟩
    rw [htext, List.getLast?_append, List.getLast?_append, List.getLast?_append, hc]
    rfl
  rw [← hwords, ← htrimmed.collapse_eq, collapse_eq_self (isSpaced_of_append_right hspaced)]

/-- The phrase is what follows `by`, if trimming leaves something. -/
theorem find?_eq (h : AsksBy front name text) (hname : name ≠ []) :
    find? text = trimmed? ([' '].intercalate name) := by
  have hstrip : strip text = text := h.trimmed.trim_eq_self
  have hintroduced : introductions.findSome? (introduced? text) = none :=
    List.findSome?_eq_none_iff.mpr h.introduced?_eq_none
  obtain ⟨m, hm⟩ := (occursIn_iff (by decide)).mp
    (occursIn_iff_standsIn.mpr (h.standsIn_bareBy hname))
  rw [find?, hstrip, hintroduced, Option.none_or, afterBy?, h.guarded_eq_nil]
  refine findSome?_eq_of_forall (List.ne_nil_of_mem hm) fun m hm => ?_
  rw [h.after_eq hm]
  rfl

end AsksBy

/-! ## Trimming -/

namespace IsWordy

variable {phrase : List Char}

theorem not_standsIn_stop (h : IsWordy phrase)
    (hstop : ∀ w ∈ stopWords, w.toList ∉ (words phrase).tail) : ¬ stop.StandsIn phrase := by
  rintro ⟨left, _, right, htext, g, _, rfl, ⟨hgne, hg⟩, s, _, rfl, hs, _, _, rfl,
    ⟨rfl, hedge⟩, r, _, rfl, _, rfl, _⟩
  simp only [List.nil_append, List.append_nil, List.append_assoc] at htext hedge
  have hsub : s ⊆ phrase := fun c hc => by simp [htext, hc]
  obtain ⟨w, hw, rfl⟩ := exists_of_spells_oneOf (by decide) (h.plain.of_subset hsub) hs.spells
  have hclasses : ∀ w ∈ stopWords, w.toList ≠ [] ∧
      ∀ c ∈ w.toList, isWordChar c = true ∧ isBlank c = false := by decide
  obtain ⟨hne, hclass⟩ := hclasses w hw
  have hafter : ∀ c ∈ (r ++ right).head?, isBlank c = true :=
    h.isBlank_of_stops (fun c hc => by simp_all)
      (stops_of_isEdge_behind_word hne (fun c hc => (hclass c hc).1) hedge)
  -- The phrase begins with something else than a blank, so there is a word in front.
  obtain ⟨c, left, rfl⟩ := List.exists_cons_of_ne_nil (l := left) fun hnil => by
    obtain ⟨d, g, rfl⟩ := List.exists_cons_of_ne_nil hgne
    have hd : isBlank d = true := hg d List.mem_cons_self
    rw [h.trimmed.head d (by rw [htext, hnil]; rfl)] at hd
    cases hd
  have hfront : words (c :: left) ≠ [] :=
    words_ne_nil (List.any_eq_true.mpr
      ⟨c, List.mem_cons_self, by rw [h.trimmed.head c (by rw [htext]; rfl)]; rfl⟩)
  have hwords : words phrase = words (c :: left) ++ w.toList :: words (r ++ right) := by
    rw [htext, ← List.append_assoc, words_append_word hne (fun c hc => (hclass c hc).2)
      (of_mem_last_gap hgne hg _) hafter, words_append_gap hg]
  obtain ⟨v, vs, hvs⟩ := List.exists_cons_of_ne_nil hfront
  refine hstop w hw ?_
  rw [hwords, hvs]
  exact List.mem_append_right vs List.mem_cons_self

theorem not_standsIn_punctuation (h : IsWordy phrase) : ¬ punctuation.StandsIn phrase := by
  rintro ⟨left, _, right, htext, s, _, rfl, ⟨hne, hs⟩, rfl, hend⟩
  rw [List.append_nil] at htext
  obtain ⟨c, hc⟩ := Option.isSome_iff_exists.mp (List.getLast?_isSome.mpr hne)
  have hright : right = [] := by
    rcases Bool.or_eq_true_iff.mp hend with hend | hend
    · exact List.isEmpty_iff.mp hend
    · -- The line feed would be a blank at the end.
      obtain rfl : right = ['\n'] := beq_iff_eq.mp hend
      have hlast := h.trimmed.last '\n' (by simp [htext])
      cases hlast
  have hlast : phrase.getLast? = some c := by
    rw [htext, hright, List.append_nil, List.getLast?_append, hc]
    rfl
  have hblank : isBlank c = false := h.trimmed.last c hlast
  have hword := (h.wordy c (List.mem_of_getLast? hlast)).resolve_right (Bool.eq_false_iff.mp hblank)
  rcases Bool.or_eq_true_iff.mp (hs c (List.mem_of_getLast? hc)) with hclass | hclass
  · cases hblank.symm.trans hclass
  · have hsigns : ∀ c ∈ "?.!,;:".toList, isWordChar c = false := by decide
    cases hword.symm.trans (hsigns c (mem_of_accepts_charOf (by decide) hclass))

theorem not_standsIn_article (h : IsWordy phrase)
    (harticle : ∀ w ∈ articles, w.toList ∉ (words phrase).head?) : ¬ article.StandsIn phrase := by
  rintro ⟨left, _, right, htext, _, _, rfl, ⟨rfl, hstart⟩, s, g, rfl, hs, hgne, hg⟩
  simp only [List.nil_append, List.append_assoc] at htext
  obtain rfl : left = [] := List.reverse_eq_nil_iff.mp hstart
  have hsub : s ⊆ phrase := fun c hc => by simp [htext, hc]
  obtain ⟨w, hw, rfl⟩ := exists_of_spells_oneOf (by decide) (h.plain.of_subset hsub) hs.spells
  have hclasses : ∀ w ∈ articles, w.toList ≠ [] ∧ ∀ c ∈ w.toList, isBlank c = false := by decide
  obtain ⟨hne, hclass⟩ := hclasses w hw
  refine harticle w hw ?_
  rw [htext, List.nil_append, words_append hne hclass hgne hg]
  rfl

theorem trimmed?_eq (h : IsWordy phrase) (hne : phrase ≠ [])
    (hstop : ∀ w ∈ stopWords, w.toList ∉ (words phrase).tail)
    (harticle : ∀ w ∈ articles, w.toList ∉ (words phrase).head?) :
    trimmed? phrase = some phrase := by
  have hstrip : strip phrase = phrase := h.trimmed.trim_eq_self
  have htrim : trim phrase = phrase := by
    rw [trim, remove_eq_self (h.not_standsIn_stop hstop),
      remove_eq_self h.not_standsIn_punctuation]
    rw [hstrip, remove_eq_self (h.not_standsIn_article harticle), hstrip]
  rw [trimmed?, htrim]
  cases phrase with
  | nil => exact (hne rfl).elim
  | cons c cs => rfl

end IsWordy

end Cardfolio.GroupingPhrase
