import Cardfolio.Proofs.Question.Sources
import Cardfolio.Proofs.Sorting.Ranked

/-!
# What a question says about spending

The category of a question is decided by one keyword. The keywords of all categories are tried from
the longest to the shortest, those of one length in the order of the table, and the first one that
is found decides. The order in which they are tried is a stable sort of the table. So a keyword that
is found and has not been tried before the deciding one is no longer than it, and if it is as long
it stands behind it in the table. That fixes the deciding keyword by the table and the question
alone.

A merchant is found by a keyword of its own that the category does not have too, and in words of
the question that the deciding keyword has not used.
-/

namespace Cardfolio

namespace Vocabulary

variable {α β : Type _} {text : α → String} {xs : List α} {p : α → Prop} {i j : Nat} {x y : α}

/-- The place of the longest element that has a property, of equally long ones the first. -/
structure IsLongest (text : α → String) (xs : List α) (p : α → Prop) (i : Nat) (x : α) : Prop where
  listed : xs[i]? = some x
  holds : p x
  longest : ∀ (j : Nat) (y : α), xs[j]? = some y → p y → (text y).length ≤ (text x).length
  first : ∀ (j : Nat) (y : α), xs[j]? = some y → p y → j < i → (text y).length < (text x).length

theorem IsLongest.le (h : IsLongest text xs p i x) (h' : IsLongest text xs p j y) : i ≤ j := by
  refine Nat.le_of_not_lt fun hlt => ?_
  have hshorter := h.first j y h'.listed h'.holds hlt
  exact Nat.not_le_of_lt hshorter (h'.longest i x h.listed h.holds)

theorem IsLongest.eq (h : IsLongest text xs p i x) (h' : IsLongest text xs p j y) : x = y := by
  obtain rfl := Nat.le_antisymm (h.le h') (h'.le h)
  exact Option.some.inj (h.listed.symm.trans h'.listed)

theorem IsLongest.mem (h : IsLongest text xs p i x) : x ∈ xs :=
  List.mem_of_getElem? h.listed

theorem longestFirst_map (f : β → α) (ys : List β) :
    longestFirst text (ys.map f) = (longestFirst (fun y => text (f y)) ys).map f :=
  Stable.sort_map f ys

/-- With their places the elements have one order from the longest to the shortest. -/
theorem longestFirst_ranked (text : α → String) (xs : List α) :
    Ranked (fun x y : α × Nat => decide ((text y.1).length < (text x.1).length))
      (fun x y => x.2 < y.2) xs.zipIdx (longestFirst (fun x : α × Nat => text x.1) xs.zipIdx) := by
  have horder : OrderedBy (fun x y : α × Nat => decide ((text y.1).length < (text x.1).length))
      xs.zipIdx := orderedBy_count (fun x : α × Nat => (text x.1).length) _
  have hranked := Stable.sort_ranked (places_lt xs) horder
  simp only [← decide_not, Nat.not_lt] at hranked
  exact hranked

/-- What is found first from the longest to the shortest is the longest that is found. -/
theorem exists_isLongest_of_findSome? {f : α → Option β} {b : β}
    (h : (longestFirst text xs).findSome? f = some b) :
    ∃ i x, IsLongest text xs (fun y => (f y).isSome = true) i x ∧ f x = some b := by
  have hplaces : longestFirst text xs
      = (longestFirst (fun x => text x.1) xs.zipIdx).map Prod.fst := by
    rw [← longestFirst_map, List.zipIdx_map_fst]
  rw [hplaces, List.findSome?_map, List.findSome?_eq_some_iff] at h
  obtain ⟨front, ⟨x, i⟩, back, hsplit, hfound, hfront⟩ := h
  have hranked := longestFirst_ranked text xs
  rw [hsplit] at hranked
  have hmem : (x, i) ∈ xs.zipIdx :=
    hranked.perm.mem_iff.mp (List.mem_append_right _ List.mem_cons_self)
  -- What is found and is not the first comes behind it in the order of trying.
  have hother : ∀ j y, xs[j]? = some y → (f y).isSome = true → (y, j) = (x, i) ∨
      (text y).length ≤ (text x).length ∧
        ((text x).length ≤ (text y).length → i < j) := by
    intro j y hy hsome
    have hmem' : (y, j) ∈ xs.zipIdx := List.mem_zipIdx_iff_getElem?.mpr hy
    rcases hranked.mem_front_or hmem' with hbefore | heq | hafter
    · have hnone : f y = none := hfront _ hbefore
      rw [hnone] at hsome
      cases hsome
    · exact Or.inl heq
    · simpa only [decide_eq_false_iff_not, Nat.not_lt] using Or.inr hafter
  refine ⟨i, x, ⟨List.mem_zipIdx_iff_getElem?.mp hmem, ?_, ?_, ?_⟩, hfound⟩
  · exact Option.isSome_iff_exists.mpr ⟨b, hfound⟩
  · intro j y hy hsome
    rcases hother j y hy hsome with heq | hle
    · rw [(Prod.mk.inj heq).1]
    · exact hle.1
  · intro j y hy hsome hlt
    rcases hother j y hy hsome with heq | ⟨_, hlater⟩
    · exact absurd (Prod.mk.inj heq).2 (Nat.ne_of_lt hlt)
    · exact Nat.lt_of_not_le fun hge => Nat.lt_asymm hlt (hlater hge)

/-- Each name of a table with each of its keywords, in the order of the table. -/
def pairs (table : List (String × List String)) : List (String × String) :=
  table.flatMap fun (name, keywords) => keywords.map (name, ·)

theorem mem_pairs_iff {table : List (String × List String)} {name keyword : String} :
    (name, keyword) ∈ pairs table ↔ ∃ keywords, (name, keywords) ∈ table ∧ keyword ∈ keywords := by
  unfold pairs
  rw [List.mem_flatMap]
  constructor
  · rintro ⟨⟨name, keywords⟩, hentry, hpair⟩
    obtain ⟨keyword, hkeyword, heq⟩ := List.mem_map.mp hpair
    obtain ⟨rfl, rfl⟩ := Prod.mk.inj heq
    exact ⟨keywords, hentry, hkeyword⟩
  · rintro ⟨keywords, hentry, hkeyword⟩
    exact ⟨(name, keywords), hentry, List.mem_map_of_mem hkeyword⟩

theorem categoryKeywords_eq : categoryKeywords = (longestFirst Prod.snd (pairs categories)).map
    fun (category, keyword) => { category, keyword, pattern := Pattern.keyword keyword } := by
  have htable : (categories.flatMap fun (category, keywords) => keywords.map fun keyword =>
        { category, keyword, pattern := Pattern.keyword keyword })
      = (pairs categories).map fun (category, keyword) =>
        ({ category, keyword, pattern := Pattern.keyword keyword } : CategoryKeyword) := by
    rw [pairs, List.map_flatMap]
    simp only [List.map_map]
    rfl
  rw [categoryKeywords, htable, longestFirst_map]

theorem keywordsOf_eq : ∀ entry ∈ categories, keywordsOf entry.1 = entry.2 := by
  decide +kernel

theorem mem_keywordsOf {category keyword : String} (h : (category, keyword) ∈ pairs categories) :
    keyword ∈ keywordsOf category := by
  obtain ⟨keywords, hentry, hkeyword⟩ := mem_pairs_iff.mp h
  rw [keywordsOf_eq _ hentry]
  exact hkeyword

theorem mem_pairs_of_mem_merchantKeywords {k : MerchantKeyword} (h : k ∈ merchantKeywords) :
    (k.merchant, k.keyword) ∈ pairs merchants ∧ k.pattern = Pattern.exactKeyword k.keyword := by
  obtain ⟨⟨merchant, keywords⟩, hentry, hk⟩ := List.mem_flatMap.mp h
  obtain ⟨keyword, hkeyword, rfl⟩ := List.mem_map.mp hk
  exact ⟨mem_pairs_iff.mpr ⟨keywords, hentry, hkeyword⟩, rfl⟩

end Vocabulary

namespace Question

open Vocabulary

variable {text : List Char} {i : Nat} {category keyword : String} {span : Span}

/-- A keyword of the table that is found in a text. -/
def IsNamedIn (text : List Char) (entry : String × String) : Prop :=
  (Pattern.keyword entry.2).occursIn text = true

/-- The place in the table of the keyword that decides the category of a text. -/
def Decides (text : List Char) : Nat → String × String → Prop :=
  IsLongest Prod.snd (pairs categories) (IsNamedIn text)

theorem category?_eq (text : List Char) : category? text
    = (longestFirst Prod.snd (pairs categories)).findSome? fun (category, keyword) =>
        ((Pattern.keyword keyword).find? text).map fun m => (category, m.span) := by
  rw [category?, categoryKeywords_eq, List.findSome?_map]
  rfl

theorem category?_eq_none_iff :
    category? text = none ↔ ∀ entry ∈ pairs categories, ¬IsNamedIn text entry := by
  rw [category?_eq, List.findSome?_eq_none_iff]
  simp only [mem_longestFirst, Option.map_eq_none_iff, IsNamedIn, Pattern.occursIn,
    Option.isSome_iff_ne_none, not_not]

theorem exists_decides_of_category? (h : category? text = some (category, span)) :
    ∃ i keyword m, Decides text i (category, keyword) ∧
      (Pattern.keyword keyword).find? text = some m ∧ m.span = span := by
  rw [category?_eq] at h
  obtain ⟨i, ⟨_, keyword⟩, hlongest, hfound⟩ := exists_isLongest_of_findSome? h
  obtain ⟨m, hm, heq⟩ := Option.map_eq_some_iff.mp hfound
  obtain ⟨rfl, hspan⟩ := Prod.mk.inj heq
  simp only [Option.isSome_map] at hlongest
  exact ⟨i, keyword, m, hlongest, hm, hspan⟩

theorem Decides.category? (h : Decides text i (category, keyword)) :
    ∃ m, (Pattern.keyword keyword).find? text = some m ∧
      category? text = some (category, m.span) := by
  cases hread : Question.category? text with
  | none => exact absurd h.holds (category?_eq_none_iff.mp hread _ h.mem)
  | some found =>
      obtain ⟨j, keyword', m, h', hm, hspan⟩ := exists_decides_of_category? hread
      obtain ⟨heq, rfl⟩ := Prod.mk.inj (h.eq h')
      exact ⟨m, hm, congrArg some (Prod.ext heq.symm hspan.symm)⟩

/-- What is said about spending in a text, and what is read. -/
structure Spends (text : List Char) (e : Entities) : Prop where
  none_iff : e.category = none ↔ ∀ entry ∈ pairs categories, ¬IsNamedIn text entry
  some_iff : ∀ category, e.category = some category ↔
    ∃ i keyword, Decides text i (category, keyword)
  merchant : ∀ merchant, e.merchant = some merchant →
    ∃ keyword m, (merchant, keyword) ∈ pairs merchants ∧
      (Pattern.exactKeyword keyword).find? text = some m ∧
      ∀ i category deciding, Decides text i (category, deciding) →
        (category, keyword) ∉ pairs categories ∧
        ∃ m', (Pattern.keyword deciding).find? text = some m' ∧
          (m.span.stop ≤ m'.span.start ∨ m'.span.stop ≤ m.span.start)

/-- Nothing is said about spending in an empty text. -/
theorem spending_of_read {settings : Settings} {text : String} {e : Entities}
    (h : read settings text = .ok e) :
    e.category = (category? (normalize text.toList)).map (·.1) ∧
      e.merchant
        = (merchant? (category? (normalize text.toList)) (normalize text.toList)).map (·.1) := by
  rw [read_eq_readNormal] at h
  obtain ⟨_, _, h⟩ := bind_eq_ok.mp h
  obtain ⟨_, _, h⟩ := bind_eq_ok.mp h
  rw [← pure_eq_ok.mp h]
  exact ⟨by dsimp only, by dsimp only⟩

theorem apart_of_overlaps_eq_false {a b : Span} (h : a.overlaps b = false) :
    a.stop ≤ b.start ∨ b.stop ≤ a.start := by
  rw [Span.overlaps, Bool.and_eq_false_iff, decide_eq_false_iff_not, decide_eq_false_iff_not] at h
  omega

end Question

open Question in
/-- The category that is read is that of the longest keyword, the first in the table of those that
are found; and a merchant is read by a keyword that the category does not have, apart from the one
that decides it. -/
theorem Question.read_spends {settings : Settings} {text : String} {e : Entities}
    (h : read settings text = .ok e) : Spends (normalize text.toList) e := by
  obtain ⟨hcategory, hmerchant⟩ := spending_of_read h
  refine ⟨?_, fun category => ?_, fun merchant hread => ?_⟩
  · rw [hcategory, Option.map_eq_none_iff]
    exact category?_eq_none_iff
  · rw [hcategory, Option.map_eq_some_iff]
    constructor
    · rintro ⟨⟨_, span⟩, hread, rfl⟩
      obtain ⟨i, keyword, _, hdecides, _⟩ := exists_decides_of_category? hread
      exact ⟨i, keyword, hdecides⟩
    · rintro ⟨i, keyword, hdecides⟩
      obtain ⟨m, _, hread⟩ := hdecides.category?
      exact ⟨_, hread, rfl⟩
  · rw [hmerchant, Option.map_eq_some_iff] at hread
    obtain ⟨⟨_, span⟩, hread, rfl⟩ := hread
    obtain ⟨k, hk, m, hm, rfl, rfl, hapart⟩ := Condition.exists_find?_of_merchant? hread
    obtain ⟨hpair, hpattern⟩ := Vocabulary.mem_pairs_of_mem_merchantKeywords hk
    refine ⟨k.keyword, m, hpair, hpattern ▸ hm, ?_⟩
    intro i category deciding hdecides
    obtain ⟨m', hm', hcategory'⟩ := hdecides.category?
    obtain ⟨hnot, hoverlaps⟩ := hapart _ _ hcategory'
    exact ⟨fun hmem => hnot (Vocabulary.mem_keywordsOf hmem), m', hm',
      apart_of_overlaps_eq_false hoverlaps⟩

/-- A category and a merchant whose keywords are equally long. -/
theorem Question.read_spends_travelAtCostco :
    ∃ e, Question.read {} "Travel at Costco" = .ok e ∧ e.category ≠ none ∧
      Question.Spends (Question.normalize "Travel at Costco".toList) e := by
  obtain ⟨e, he⟩ : ∃ e, Question.read {} "Travel at Costco" = .ok e :=
    Question.exists_read_of_short (by decide) (by decide +kernel)
  have hspends := Question.read_spends he
  have hlisted : ("travel", "travel") ∈ Vocabulary.pairs Vocabulary.categories := by
    decide +kernel
  have hnamed : Question.IsNamedIn (Question.normalize "Travel at Costco".toList)
      ("travel", "travel") := by
    unfold Question.IsNamedIn
    decide +kernel
  exact ⟨e, he, fun hnone => hspends.none_iff.mp hnone _ hlisted hnamed, hspends⟩

end Cardfolio
