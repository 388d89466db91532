import Cardfolio.Proofs.Pattern.WordRuns
import Cardfolio.Proofs.Question.Named

/-!
# Rankings

`highest` may ask for a figure or for an order. It ranks the cards when the question is about
cards, and asks for the greatest figure when it is not. Two tables have to agree for that: the
words by which the least and the greatest figure are recognised, and the superlatives that are
set aside when cards are asked for. The first figure that is found decides, so a superlative has
no say beside a count, a sum or a mean.

All these words are looked for between two edges, and the question is read in small letters. So
the match of a superlative is a run of word characters and the word itself, and the tables can be
compared entry by entry. Letters that only stand for an ASCII letter would spoil this, and there
are none in ASCII.
-/

namespace Cardfolio

open Pattern Text

namespace Vocabulary

/-- The figures that no superlative asks for. -/
def plainOperations : List Operation := [.count, .sum, .avg]

/-- The superlatives that ask for a figure. -/
def extremes : List (Operation × List String) :=
  [(.min, ["minimum", "min", "lowest", "smallest", "least"]),
    (.max, ["maximum", "max", "highest", "largest", "most"])]

theorem mem_figures_of_extremes :
    ∀ row ∈ extremes, (row.1, anyOf (row.2.map word)) ∈ figures := by
  intro row hrow
  simp only [extremes, List.mem_cons, List.not_mem_nil, or_false] at hrow
  rcases hrow with rfl | rfl
  · exact List.mem_of_getElem? (i := 3) rfl
  · exact List.mem_of_getElem? (i := 4) rfl

theorem exists_extreme : ∀ entry ∈ figures, entry.1 ∉ plainOperations →
    ∃ row ∈ extremes, entry = (row.1, anyOf (row.2.map word)) := by
  intro entry hentry hplain
  simp only [figures, List.mem_cons, List.not_mem_nil, or_false] at hentry
  rcases hentry with rfl | rfl | rfl | rfl | rfl
  · exact (hplain (by decide)).elim
  · exact (hplain (by decide)).elim
  · exact (hplain (by decide)).elim
  · exact ⟨_, List.mem_cons_self, rfl⟩
  · exact ⟨_, List.mem_cons_of_mem _ List.mem_cons_self, rfl⟩

theorem extremes_perm : (extremes.flatMap (·.2)).Perm superlatives := by
  decide

theorem extremes_operation : ∀ row ∈ extremes, (row.1 = .min ∨ row.1 = .max) ∧ row.2 ≠ [] := by
  decide

theorem isForWords_superlatives : ∀ w ∈ superlatives, IsForWords (lit w) ∧
    (lit w).spellings? = some [w.toList] ∧ (lit w).fills w.toList = true := by
  decide

/-- The words that make a question one about the cards themselves. -/
def cardWords : List String := ["cards", "card", "which"]

variable {text : List Char}

theorem occursIn_cardRequest_iff (htext : IsPlain text) :
    cardRequest.occursIn text = true ↔ ∃ w ∈ cardWords, w.toList ∈ wordRuns text := by
  have hforms : (anyOf [plural "card", lit "which"]).spellings?
      = some (cardWords.map String.toList) := by decide
  rw [cardRequest, occursIn_whole_iff (by decide) hforms (by decide) htext]
  simp only [List.mem_map, exists_exists_and_eq_and]

theorem occursIn_superlatives_iff {ws : List String} (hws : ws ⊆ superlatives) (hne : ws ≠ [])
    (htext : IsPlain text) :
    (anyOf (ws.map word)).occursIn text = true ↔ ∃ w ∈ ws, w.toList ∈ wordRuns text := by
  rw [occursIn_anyOf_iff (mt List.map_eq_nil_iff.mp hne)]
  simp only [List.mem_map, exists_exists_and_eq_and]
  refine exists_congr fun w => and_congr_right fun hw => ?_
  obtain ⟨hwords, hforms, hfills⟩ := isForWords_superlatives w (hws hw)
  rw [word, occursIn_whole_iff hwords hforms (by rw [List.all_cons, hfills]; rfl) htext]
  simp only [List.mem_singleton, exists_eq_left]

/-- What is matched for a superlative is the word itself. -/
theorem text_mem_of_find? {ws : List String} (hne : ws ≠ []) (htext : IsPlain text) {m : Match}
    (h : (anyOf (ws.map word)).find? text = some m) : String.ofList m.text ∈ ws := by
  have hoccurs := occurs_of_find? h
  have hplain : IsPlain m.text := htext.of_subset hoccurs.isInfix_text.subset
  obtain ⟨p, hp, hspells⟩ :=
    exists_spells_of_spells_anyOf (mt List.map_eq_nil_iff.mp hne) hoccurs.spells
  obtain ⟨w, hw, rfl⟩ := List.mem_map.mp hp
  generalize m.text = s at hplain hspells
  obtain ⟨_, _, rfl, ⟨r, _, hr, rfl, rfl⟩, rfl⟩ := hspells
  rw [List.nil_append, List.append_nil] at hplain ⊢
  rw [eq_of_spells_lit hplain hr, String.ofList_toList]
  exact hw

end Vocabulary

/-! ## The figure -/

namespace Question

variable {text masked : List Char} {wish : Aggregation}

open Vocabulary

/-- No figure is asked for by a superlative in a question about cards. -/
theorem figure?_operation (hmasked : IsPlain masked) (hcards : cardRequest.occursIn text = true)
    (h : figure? text masked = some wish) : wish.operation ∈ plainOperations := by
  obtain ⟨⟨operation, m⟩, hfound, h⟩ := Option.bind_eq_some_iff.mp h
  obtain ⟨entry, hentry, hfound⟩ := List.exists_of_findSome?_eq_some hfound
  obtain ⟨_, hm, hfound⟩ := Option.map_eq_some_iff.mp hfound
  obtain ⟨rfl, rfl⟩ := Prod.mk.inj hfound
  dsimp only at h
  rw [hcards, Bool.and_true] at h
  split at h
  · cases h
  · next hnot =>
      have hplain : entry.1 ∈ plainOperations := by
        by_contra hother
        obtain ⟨row, hrow, rfl⟩ := exists_extreme entry hentry hother
        have hmem := text_mem_of_find? (extremes_operation row hrow).2 hmasked hm
        exact hnot (List.contains_iff_mem.mpr
          (extremes_perm.mem_iff.mp (List.mem_flatMap_of_mem hrow hmem)))
      split at h <;>
      · rw [← Option.some.inj h]
        exact hplain

/-- In a question that is not about cards the first figure that is found is asked for. -/
theorem exists_figure? (hcards : cardRequest.occursIn text = false)
    (hfound : ∃ entry ∈ figures, entry.2.occursIn masked = true) :
    ∃ entry ∈ figures, entry.2.occursIn masked = true ∧
      ∃ wish, figure? text masked = some wish ∧ wish.operation = entry.1 := by
  obtain ⟨next, hfigure, hnext⟩ : ∃ next : Operation × Match → Option Aggregation,
      figure? text masked
        = (figures.findSome? fun entry => (entry.2.find? masked).map (entry.1, ·)).bind next ∧
      ∀ found, ∃ wish, next found = some wish ∧ wish.operation = found.1 := by
    refine ⟨_, rfl, fun found => ?_⟩
    dsimp only
    rw [hcards, Bool.and_false, if_neg Bool.false_ne_true]
    split
    · exact ⟨_, rfl, rfl⟩
    · exact ⟨_, rfl, rfl⟩
  cases hfirst : figures.findSome? fun entry => (entry.2.find? masked).map (entry.1, ·) with
  | none =>
      obtain ⟨entry, hentry, hoccurs⟩ := hfound
      have hnone := List.findSome?_eq_none_iff.mp hfirst entry hentry
      rw [Pattern.occursIn, Option.map_eq_none_iff.mp hnone] at hoccurs
      cases hoccurs
  | some found =>
      obtain ⟨entry, hentry, hmatch⟩ := List.exists_of_findSome?_eq_some hfirst
      obtain ⟨m, hm, rfl⟩ := Option.map_eq_some_iff.mp hmatch
      rw [hfirst] at hfigure
      obtain ⟨wish, hwish, hoperation⟩ := hnext (entry.1, m)
      exact ⟨entry, hentry, by rw [Pattern.occursIn, hm]; rfl, wish, hfigure.trans hwish,
        hoperation⟩

/-- A superlative asks for a figure where no plain figure is asked for and no cards are. -/
theorem figure?_extreme (hmasked : IsPlain masked) (hcards : cardRequest.occursIn text = false)
    (hword : ∃ w ∈ superlatives, w.toList ∈ wordRuns masked)
    (hplain : ∀ entry ∈ figures, entry.1 ∈ plainOperations → entry.2.occursIn masked = false) :
    ∃ wish, figure? text masked = some wish ∧
      (wish.operation = .min ∨ wish.operation = .max) := by
  obtain ⟨w, hw, hrun⟩ := hword
  obtain ⟨row, hrow, hmem⟩ := List.mem_flatMap.mp (extremes_perm.mem_iff.mpr hw)
  have hsub : row.2 ⊆ superlatives := fun v hv =>
    extremes_perm.mem_iff.mp (List.mem_flatMap_of_mem hrow hv)
  have hoccurs : (anyOf (row.2.map word)).occursIn masked = true :=
    (occursIn_superlatives_iff hsub (extremes_operation row hrow).2 hmasked).mpr ⟨w, hmem, hrun⟩
  obtain ⟨entry, hentry, hfirst, wish, hwish, hoperation⟩ :=
    exists_figure? hcards ⟨_, mem_figures_of_extremes row hrow, hoccurs⟩
  have hother : entry.1 ∉ plainOperations := by
    intro hmem
    rw [hplain entry hentry hmem] at hfirst
    cases hfirst
  obtain ⟨row', hrow', rfl⟩ := exists_extreme entry hentry hother
  refine ⟨wish, hwish, ?_⟩
  rw [hoperation]
  exact (extremes_operation row' hrow').1

/-! ## What is read -/

theorem mem_mask {spans : List Span} {c : Char} (h : c ∈ mask spans text) : c = ' ' ∨ c ∈ text := by
  obtain ⟨i, hi, rfl⟩ := List.mem_mapIdx.mp h
  split
  · exact .inl rfl
  · exact .inr (List.getElem_mem hi)

theorem isPlain_mask (h : IsPlain text) (spans : List Span) : IsPlain (mask spans text) := by
  intro c hc
  rcases mem_mask hc with rfl | hc
  · exact isPlain_of_lt (by decide)
  · exact h c hc

/-- The figure is looked for where no comparison stands. -/
theorem figure_of_read {settings : Settings} {text : String} {e : Entities}
    (h : read settings text = .ok e) : ∃ comparisons,
      Condition.comparisons (normalize text.toList) = .ok comparisons ∧
        e.figure = figure? (normalize text.toList)
          (mask (comparisons.map (·.span)) (normalize text.toList)) := by
  rw [read_eq_readNormal] at h
  obtain ⟨comparisons, hcomparisons, h⟩ := bind_eq_ok.mp h
  obtain ⟨_, _, h⟩ := bind_eq_ok.mp h
  rw [← pure_eq_ok.mp h]
  exact ⟨comparisons, hcomparisons, by dsimp only⟩

theorem not_mem_strayLetters {c : Char} (h : c.toNat < 128) : c ∉ strayLetters := by
  intro hc
  simp only [strayLetters, List.mem_cons, List.not_mem_nil, or_false] at hc
  rcases hc with rfl | rfl
  · exact absurd h (by decide)
  · exact absurd h (by decide)

end Question

/-- A query has the figure that was read, or none. -/
theorem Dictionary.exists_of_mem_figures {d : Dictionary} {wish : Option Aggregation}
    {a : Aggregation} (h : a ∈ d.figures wish) : ∃ w ∈ wish, a.operation = w.operation := by
  unfold figures at h
  split at h
  · cases h
  · cases h
  · rw [List.mem_singleton.mp h]
    exact ⟨_, rfl, rfl⟩
  · split at h
    · rw [List.mem_singleton.mp h]
      exact ⟨_, rfl, rfl⟩
    · cases h

namespace Question

open Vocabulary

/-- What has been read has a query, with any names for fields and networks. -/
theorem exists_query_with_figures {settings : Settings} {text : String} {e : Entities}
    (h : read settings text = .ok e) (d : Dictionary) (dataset : Datum) :
    ∃ q, query d dataset (.text text) (some e) = .ok q ∧
      q.aggregations = d.figures e.figure := by
  obtain ⟨comparisons, hreads⟩ := exists_reads h
  obtain ⟨q, hq, _⟩ := d.exists_query dataset hreads.obstacle?_of_issuer
  refine ⟨q, bind_eq_ok.mpr ⟨q, hq, bind_eq_ok.mpr ⟨(), rfl, rfl⟩⟩, ?_⟩
  obtain ⟨_, _, hq⟩ := bind_eq_ok.mp hq
  rw [← pure_eq_ok.mp hq]

/-- A question that names cards by one of the words for them. -/
def IsAboutCards (text : List Char) : Prop :=
  ∃ w ∈ cardWords, w.toList ∈ wordRuns text

/-- A text with a superlative and without a plain figure. -/
def AsksForExtreme (masked : List Char) : Prop :=
  (∃ w ∈ superlatives, w.toList ∈ wordRuns masked) ∧
    ∀ entry ∈ figures, entry.1 ∈ plainOperations → entry.2.occursIn masked = false

instance (text : List Char) : Decidable (IsAboutCards text) :=
  decidable_of_iff (cardWords.any (fun w => (wordRuns text).contains w.toList) = true)
    (by simp [IsAboutCards])

instance (masked : List Char) : Decidable (AsksForExtreme masked) :=
  inferInstanceAs (Decidable (_ ∧ _))

/-- A question about cards asks for no least and no greatest figure, and its query has none.
Without cards, a superlative outside of the comparisons asks for one if nothing else asks for a
figure. -/
theorem superlatives_rank_cards {settings : Settings} {text : String} {e : Entities}
    (hascii : ∀ c ∈ text.toList, c.toNat < 128) (h : read settings text = .ok e) :
    (IsAboutCards (normalize text.toList) →
      (∀ wish ∈ e.figure, wish.operation ∈ [.count, .sum, .avg]) ∧
      ∀ (d : Dictionary) (dataset : Datum), ∃ q,
        query d dataset (.text text) (some e) = .ok q ∧
          ∀ a ∈ q.aggregations, a.operation ≠ .min ∧ a.operation ≠ .max) ∧
    (¬ IsAboutCards (normalize text.toList) → ∃ comparisons,
      Condition.comparisons (normalize text.toList) = .ok comparisons ∧
        (AsksForExtreme (mask (comparisons.map (·.span)) (normalize text.toList)) →
          ∃ wish, e.figure = some wish ∧
            (wish.operation = .min ∨ wish.operation = .max))) := by
  have htext : IsPlain (normalize text.toList) :=
    isPlain_normalize fun c hc hmem => not_mem_strayLetters (hascii c hmem) hc
  obtain ⟨comparisons, hcomparisons, hfigure⟩ := figure_of_read h
  have hmasked := isPlain_mask htext (comparisons.map (·.span))
  have habout := occursIn_cardRequest_iff htext
  constructor
  · intro hcards
    have hplain : ∀ wish ∈ e.figure, wish.operation ∈ plainOperations :=
      fun wish hwish => figure?_operation hmasked (habout.mpr hcards) (hfigure ▸ hwish)
    refine ⟨hplain, fun d dataset => ?_⟩
    obtain ⟨q, hq, hfigures⟩ := exists_query_with_figures h d dataset
    refine ⟨q, hq, fun a ha => ?_⟩
    rw [hfigures] at ha
    obtain ⟨wish, hwish, hoperation⟩ := Dictionary.exists_of_mem_figures ha
    have hmem := hplain wish hwish
    rw [← hoperation] at hmem
    constructor <;>
    · intro hextreme
      rw [hextreme] at hmem
      exact absurd hmem (by decide)
  · intro hcards
    refine ⟨comparisons, hcomparisons, fun ⟨hword, hplain⟩ => ?_⟩
    rw [hfigure]
    exact figure?_extreme hmasked (Bool.eq_false_iff.mpr (mt habout.mp hcards)) hword hplain

/-- A ranking of cards. -/
def cardOfHighestFee : String :=
  "Which CARD with a limit of at least 500 has the HIGHEST fee?"

/-- A figure, beside a comparison with a word for another one. -/
def highestFee : String :=
  "What is the HIGHEST fee when credit limit is at least 500?"

theorem superlatives_rank_cards_highestFee :
    (∃ e, read {} cardOfHighestFee = .ok e ∧
      ∀ wish ∈ e.figure, wish.operation ∈ [.count, .sum, .avg]) ∧
    ∃ e, read {} highestFee = .ok e ∧
      ∃ wish, e.figure = some wish ∧ (wish.operation = .min ∨ wish.operation = .max) := by
  obtain ⟨e, he⟩ : ∃ e, read {} cardOfHighestFee = .ok e :=
    exists_read_of_short (by decide +kernel) (by decide +kernel)
  obtain ⟨e', he'⟩ : ∃ e, read {} highestFee = .ok e :=
    exists_read_of_short (by decide +kernel) (by decide +kernel)
  refine ⟨⟨e, he, ?_⟩, e', he', ?_⟩
  · exact ((superlatives_rank_cards (by decide) he).1 (by decide +kernel)).1
  · obtain ⟨comparisons, hcomparisons, hextreme⟩ :=
      (superlatives_rank_cards (by decide) he').2 (by decide +kernel)
    have hspans : comparisons.map (·.span) = [⟨29, 57⟩] := by
      have hfound : (Condition.comparisons (normalize highestFee.toList)).toOption.map
          (·.map (·.span)) = some [⟨29, 57⟩] := by
        decide +kernel
      rw [hcomparisons] at hfound
      exact Option.some.inj hfound
    rw [hspans] at hextreme
    exact hextreme (by decide +kernel)

end Question

end Cardfolio
