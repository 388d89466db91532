import Cardfolio.Proofs.Number.Caseless
import Cardfolio.Proofs.Query.SixComparisons

/-!
# A text and itself

A text is equal to itself and contains itself, one would say. But a text that spells a number is
compared as that number, and there is a number that is not the same as itself. A text spells it
when nothing but the word for it is left once signs of amounts, blanks and a sign are taken off.
These texts are the exceptions, and there are no others: whatever else is spelled has a place,
and what spells nothing is compared letter by letter.
-/

namespace Cardfolio

namespace Datum

/-- A text that spells the double that is no number. -/
def SpellsNaN (s : String) : Prop :=
  ∃ sign ∈ Numeral.signs,
    Text.Recased (Text.trim Numeral.isMargin (undecorated s)) (sign ++ "nan".toList)

instance (s : String) : Decidable (SpellsNaN s) :=
  inferInstanceAs (Decidable (∃ sign ∈ Numeral.signs, Text.Recased _ (sign ++ "nan".toList)))

theorem spellsNaN_iff {s : String} :
    SpellsNaN s ↔ ∃ n, spelledNumber? s = some n ∧ n.isNaN = true := by
  have hread : SpellsNaN s ↔ ∃ object, Numeral.real? (undecorated s) = some (.nan object) :=
    Numeral.exists_real?_eq_nan_iff.symm
  rw [hread, spelledNumber?]
  constructor
  · rintro ⟨object, h⟩
    rw [h]
    refine ⟨_, rfl, ?_⟩
    split
    · rfl
    · exact Number.isNaN_settle (.nan object)
  · rintro ⟨n, h, hn⟩
    obtain ⟨x, hx, rfl⟩ := Option.map_eq_some_iff.mp h
    have hnan : x.isNaN = true := by
      split at hn
      · exact hn
      · exact (Number.isNaN_settle x).symm.trans hn
    obtain ⟨object, rfl⟩ := Binary64.isNaN_iff.mp hnan
    exact ⟨object, hx⟩

example : SpellsNaN " $-NaN%" := by
  decide +kernel

end Datum

namespace Comparison

theorem holdsOfNumbers_self_iff {c : Comparison} (hc : c ∈ [contains, equals]) {n : Number} :
    c.holdsOfNumbers n n = true ↔ n.isNaN = false := by
  simp only [List.mem_cons, List.not_mem_nil, or_false] at hc
  rcases hc with rfl | rfl <;> exact Number.same_self_iff

theorem holdsOfTexts_self {c : Comparison} (hc : c ∈ [contains, equals]) (a : List Char) :
    c.holdsOfTexts a a = true := by
  simp only [List.mem_cons, List.not_mem_nil, or_false] at hc
  rcases hc with rfl | rfl
  · exact Text.occursIn_self a
  · exact beq_self_eq_true a

theorem exists_sides_self {c : Comparison} (hc : c ∈ [contains, equals]) (s : String) :
    ∃ sides, Sides.ofData (.text s) (.text s) = .ok sides ∧
      c.holds sides = decide (¬Datum.SpellsNaN s) := by
  cases hs : Datum.spelledNumber? s with
  | none =>
      refine ⟨_, Sides.ofData_of_texts (Or.inl hs), ?_⟩
      refine (holdsOfTexts_self hc _).trans (decide_eq_true ?_).symm
      rw [Datum.spellsNaN_iff, hs]
      rintro ⟨_, hnone, _⟩
      cases hnone
  | some n =>
      have hread : (Datum.text s).toNumber? = some n := hs
      refine ⟨_, Sides.ofData_of_numbers hread hread, ?_⟩
      show c.holdsOfNumbers n n = _
      rw [Bool.eq_iff_iff, holdsOfNumbers_self_iff hc, decide_eq_true_iff, Datum.spellsNaN_iff, hs]
      constructor
      · rintro hn ⟨m, hm, hnan⟩
        rw [← Option.some.inj hm, hn] at hnan
        cases hnan
      · exact fun hnot => Bool.eq_false_iff.mpr fun hnan => hnot ⟨n, rfl, hnan⟩

theorem satisfies_self {c : Comparison} (hc : c ∈ [contains, equals]) (s : String) :
    (Datum.text s).satisfies c.symbol (.text s) = .ok (decide (¬Datum.SpellsNaN s)) := by
  obtain ⟨sides, hsides, hholds⟩ := exists_sides_self hc s
  rw [Datum.satisfies_symbol_of_ofData hsides, hholds]

end Comparison

open Comparison in
/-- A text is equal to itself, and contains itself, unless it spells the number that is not the
same as itself. -/
theorem Datum.satisfies_self_iff (s : String) :
    (text s).satisfies "==" (text s) = .ok (decide (¬SpellsNaN s)) ∧
      (text s).satisfies "=" (text s) = .ok (decide (¬SpellsNaN s)) :=
  ⟨satisfies_self (c := equals) (by decide) s, satisfies_self (c := contains) (by decide) s⟩

/-- The word for no number and itself. -/
theorem Datum.satisfies_self_nan :
    (text "nan").satisfies "==" (text "nan") = .ok false ∧
      (text "nan").satisfies "=" (text "nan") = .ok false := by
  decide +kernel

end Cardfolio
