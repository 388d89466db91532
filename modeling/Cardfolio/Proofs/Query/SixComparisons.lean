import Cardfolio.Proofs.Number.Room
import Cardfolio.Proofs.Query.Sides
import Cardfolio.Proofs.Text.Comparable
import Mathlib.Logic.ExistsUnique

/-!
# The six comparisons together

Two numbers lie somewhere on one line, and so do two texts: exactly one of `<`, `==` and `>` holds
of them, and `>=` and `<=` are what their names say. Which line it is depends on the pair. Where
both sides are or spell numbers it is the one of numbers, and otherwise the one of texts. So the
laws are proved once for each line, and a pair is then put on its line. The double that is no
number is the exception: it is nowhere on the line of numbers, and no comparison of numbers holds
of it.

Of any two values, what is equal to a value also contains it.
-/

namespace Cardfolio

namespace Comparison

/-- Of below, equal and above exactly one holds, and the two others are made of them. -/
structure AreConsistent (holds : Comparison → Bool) : Prop where
  one : ∃! c, c ∈ [below, equals, above] ∧ holds c = true
  atLeast : holds atLeast = true ↔ holds above = true ∨ holds equals = true
  atMost : holds atMost = true ↔ holds below = true ∨ holds equals = true

/-- Exactly one of three holds when one does and no two do together. -/
theorem existsUnique_of_apart {holds : Comparison → Bool}
    (hsome : holds below = true ∨ holds equals = true ∨ holds above = true)
    (hbelow : holds below = true → ¬holds equals = true ∧ ¬holds above = true)
    (habove : holds above = true → ¬holds equals = true) :
    ∃! c, c ∈ [below, equals, above] ∧ holds c = true := by
  simp only [List.mem_cons, List.not_mem_nil, or_false]
  rcases hsome with h | h | h
  · refine ⟨below, ⟨Or.inl rfl, h⟩, ?_⟩
    rintro _ ⟨rfl | rfl | rfl, h'⟩
    · rfl
    · exact absurd h' (hbelow h).1
    · exact absurd h' (hbelow h).2
  · refine ⟨equals, ⟨Or.inr (Or.inl rfl), h⟩, ?_⟩
    rintro _ ⟨rfl | rfl | rfl, h'⟩
    · exact absurd h (hbelow h').1
    · rfl
    · exact absurd h (habove h')
  · refine ⟨above, ⟨Or.inr (Or.inr rfl), h⟩, ?_⟩
    rintro _ ⟨rfl | rfl | rfl, h'⟩
    · exact absurd h (hbelow h').2
    · exact absurd h' (habove h)
    · rfl

theorem holdsOfNumbers_areConsistent {m n : Number} (hm : m.isNaN = false)
    (hn : n.isNaN = false) : AreConsistent (holdsOfNumbers m n) where
  one := by
    have hnot : ∀ {a b : Number}, a.lt b = true → ¬a.same b = true := by
      intro a b hlt hsame
      have hself := Number.lt_of_lt_of_same hlt (Number.same_symm hsame)
      rw [Number.lt_irrefl] at hself
      cases hself
    refine existsUnique_of_apart ?_ ?_ ?_
    · show m.lt n = true ∨ m.same n = true ∨ n.lt m = true
      cases hlt : m.lt n with
      | true => exact Or.inl rfl
      | false =>
          cases hgt : n.lt m with
          | true => exact Or.inr (Or.inr rfl)
          | false => exact Or.inr (Or.inl (Number.same_of_not_lt hm hn hlt hgt))
    · intro hlt
      exact ⟨hnot hlt, Bool.eq_false_iff.mp (Number.lt_asymm hlt)⟩
    · exact fun hgt hsame => hnot hgt (Number.same_symm hsame)
  atLeast := by
    show (n.lt m || n.same m) = true ↔ n.lt m = true ∨ m.same n = true
    rw [Bool.or_eq_true]
    exact or_congr_right ⟨Number.same_symm, Number.same_symm⟩
  atMost := by
    show (m.lt n || m.same n) = true ↔ m.lt n = true ∨ m.same n = true
    rw [Bool.or_eq_true]

theorem holdsOfTexts_iff {a b : List Char} (c : Comparison) :
    c.holdsOfTexts a b = true ↔
      match c with
      | contains => b <:+: a
      | equals => a = b
      | above => b < a
      | below => a < b
      | atLeast => ¬a < b
      | atMost => ¬b < a := by
  cases c with
  | contains => exact Text.occursIn_iff
  | equals => exact beq_iff_eq
  | above => exact decide_eq_true_iff
  | below => exact decide_eq_true_iff
  | atLeast =>
      show (!decide (a < b)) = true ↔ ¬a < b
      rw [Bool.not_eq_true', decide_eq_false_iff_not]
  | atMost =>
      show (!decide (b < a)) = true ↔ ¬b < a
      rw [Bool.not_eq_true', decide_eq_false_iff_not]

theorem holdsOfTexts_areConsistent (a b : List Char) : AreConsistent (holdsOfTexts a b) := by
  have hsome : a < b ∨ a = b ∨ b < a := by
    by_cases hlt : a < b
    · exact Or.inl hlt
    · by_cases hgt : b < a
      · exact Or.inr (Or.inr hgt)
      · exact Or.inr (Or.inl (List.le_antisymm hgt hlt))
  refine ⟨existsUnique_of_apart ?_ ?_ ?_, ?_, ?_⟩
  · simp only [holdsOfTexts_iff]
    exact hsome
  · simp only [holdsOfTexts_iff]
    intro hlt
    exact ⟨fun heq => List.lt_irrefl b (heq ▸ hlt), List.lt_asymm hlt⟩
  · simp only [holdsOfTexts_iff]
    exact fun hgt heq => List.lt_irrefl b (heq ▸ hgt)
  · simp only [holdsOfTexts_iff]
    constructor
    · exact fun hnot => (hsome.resolve_left hnot).symm
    · rintro (hgt | rfl)
      · exact List.lt_asymm hgt
      · exact List.lt_irrefl a
  · simp only [holdsOfTexts_iff]
    constructor
    · exact fun hnot => or_assoc.mpr hsome |>.resolve_right hnot
    · rintro (hlt | rfl)
      · exact List.lt_asymm hlt
      · exact List.lt_irrefl a

/-- What is equal to a value contains it, whichever two values they are. -/
theorem holds_contains_of_equals {sides : Sides} (hsides : sides ≠ .absent)
    (h : equals.holds sides = true) : contains.holds sides = true := by
  cases sides with
  | absent => exact absurd rfl hsides
  | unlike => cases h
  | categories names needle =>
      obtain ⟨name, hname, heq⟩ := List.any_eq_true.mp h
      refine List.any_eq_true.mpr ⟨name, hname, ?_⟩
      rw [beq_iff_eq.mp heq]
      exact Text.occursIn_self _
  | flags a b => exact h
  | numbers a b => exact h
  | texts ordered a b =>
      have heq : a = b := by
        cases ordered <;> exact beq_iff_eq.mp h
      subst heq
      cases ordered <;> exact Text.occursIn_self a

end Comparison

/-- Two values on one line: two numbers, two texts, or a number and a text that spells one. -/
inductive Datum.OnOneLine : Datum → Datum → Prop
  | numbers (m n : Number) : OnOneLine (.number m) (.number n)
  | texts (s t : String) : OnOneLine (.text s) (.text t)
  | numberAndText (m : Number) {t : String} {n : Number} (ht : spelledNumber? t = some n) :
      OnOneLine (.number m) (.text t)
  | textAndNumber {s : String} {m : Number} (hs : spelledNumber? s = some m) (n : Number) :
      OnOneLine (.text s) (.number n)

/-- A value that is not the double that is no number, and does not spell it. -/
def Datum.HasPlace (value : Datum) : Prop :=
  ∀ n, value.toNumber? = some n → n.isNaN = false

open Comparison in
/-- Two values on one line are compared as numbers or as texts. -/
theorem Datum.OnOneLine.exists_sides {value target : Datum} (h : value.OnOneLine target)
    (hv : value.HasPlace) (ht : target.HasPlace) :
    ∃ sides, Sides.ofData value target = .ok sides ∧ AreConsistent (holds · sides) := by
  have hnumbers : ∀ {m n : Number}, value.toNumber? = some m → target.toNumber? = some n →
      ∃ sides, Sides.ofData value target = .ok sides ∧ AreConsistent (holds · sides) :=
    fun hm hn => ⟨_, Sides.ofData_of_numbers hm hn,
      holdsOfNumbers_areConsistent (hv _ hm) (ht _ hn)⟩
  cases h with
  | numbers m n => exact hnumbers rfl rfl
  | numberAndText m hn => exact hnumbers rfl hn
  | textAndNumber hm n => exact hnumbers hm rfl
  | texts s t =>
      by_cases hnone : Datum.spelledNumber? s = none ∨ Datum.spelledNumber? t = none
      · exact ⟨_, Sides.ofData_of_texts hnone, holdsOfTexts_areConsistent _ _⟩
      · obtain ⟨hs, ht'⟩ := not_or.mp hnone
        obtain ⟨m, hm⟩ := Option.ne_none_iff_exists'.mp hs
        obtain ⟨n, hn⟩ := Option.ne_none_iff_exists'.mp ht'
        exact hnumbers hm hn

open Comparison in
/-- Of two values on one line exactly one of `<`, `==` and `>` holds, and `>=` and `<=` are made
of these. Of any two values, if they are equal then the one contains the other. -/
theorem Datum.satisfies_areConsistent (value target : Datum) :
    (value.OnOneLine target → value.HasPlace → target.HasPlace →
      ∃ holds : Comparison → Bool,
        (∀ c, value.satisfies c.symbol target = .ok (holds c)) ∧ AreConsistent holds) ∧
    (value ≠ .null → target ≠ .null →
      value.satisfies "==" target = .ok true → value.satisfies "=" target = .ok true) := by
  constructor
  · intro h hv ht
    obtain ⟨sides, hsides, hconsistent⟩ := h.exists_sides hv ht
    exact ⟨_, satisfies_symbol_of_ofData hsides, hconsistent⟩
  · intro hv _ h
    obtain ⟨sides, hsides, hequals⟩ :=
      map_eq_ok.mp ((satisfies_symbol equals value target).symm.trans h)
    have hpresent : sides ≠ .absent := by
      rintro rfl
      exact hv (Sides.value_of_ofData_absent hsides)
    rw [← holds_contains_of_equals hpresent hequals]
    exact satisfies_symbol_of_ofData hsides contains

/-- An amount as a text and one as a number, and a category and its name. -/
theorem Datum.satisfies_areConsistent_fiveThousand :
    (Datum.OnOneLine (.text "$5,000") (.whole 5500) ∧
      (text "$5,000").HasPlace ∧ (whole 5500).HasPlace ∧
      ∃ holds : Comparison → Bool,
        (∀ c, (text "$5,000").satisfies c.symbol (.whole 5500) = .ok (holds c)) ∧
          Comparison.AreConsistent holds) ∧
    (object [("Travel", .whole 3)]).satisfies "==" (.text "travel") = .ok true ∧
      (object [("Travel", .whole 3)]).satisfies "=" (.text "travel") = .ok true := by
  have hread : spelledNumber? "$5,000" = some (.whole 5000) := by
    decide +kernel
  have hline : Datum.OnOneLine (.text "$5,000") (.whole 5500) := .textAndNumber hread (.whole 5500)
  have hvalue : (text "$5,000").HasPlace := by
    intro n hn
    rw [← Option.some.inj (hread.symm.trans hn)]
    rfl
  have htarget : (whole 5500).HasPlace := by
    intro n hn
    rw [← Option.some.inj hn]
    rfl
  have hequal : (object [("Travel", .whole 3)]).satisfies "==" (.text "travel") = .ok true := by
    decide +kernel
  exact ⟨⟨hline, hvalue, htarget, (satisfies_areConsistent _ _).1 hline hvalue htarget⟩,
    hequal, (satisfies_areConsistent _ _).2 nofun nofun hequal⟩

end Cardfolio
