import Cardfolio.Proofs.Number.Grammar
import Cardfolio.Proofs.Number.Overflow
import Cardfolio.Proofs.Query.OwnText

/-!
# Texts that spell no finite number

A cell whose text is no numeral holds no number. One would think that all other cells hold a number
that has its place among the whole numbers, so that sorting and comparing make sense. But a text is
read in the way of doubles, where two words spell an infinity and one that there is no number, and
where a decimal that is too large for a double is read as an infinity as well. These are the only
exceptions, and each is described by the text alone: what spells a word by the word, and what is too
large by the value of the decimal that is written.
-/

namespace Cardfolio

/-- A number with a place among the whole numbers. -/
def Number.IsFinite (n : Number) : Prop :=
  ∃ k, n.place? = some (.units k)

namespace Number

theorem isFinite_real_iff {x : Binary64} :
    (real x).IsFinite ↔ (∀ object, x ≠ .nan object) ∧ ∀ negative, x ≠ .infinite negative := by
  cases x with
  | nan object => exact iff_of_false nofun fun h => h.1 object rfl
  | infinite negative =>
      refine iff_of_false ?_ fun h => h.2 negative rfl
      rintro ⟨k, hk⟩
      cases negative <;> cases hk
  | finite negative units hr => exact iff_of_true ⟨_, rfl⟩ ⟨nofun, nofun⟩

theorem isFinite_settle_iff {x : Binary64} : (settle x).IsFinite ↔ (real x).IsFinite := by
  rw [IsFinite, IsFinite, place?_settle]

end Number

namespace Numeral

variable {cs : List Char}

theorem real?_eq_none_iff : real? cs = none ↔
    ¬Says cs "nan".toList ∧ (¬∃ word ∈ infinities, Says cs word) ∧
      ¬∃ negative digits exponent, IsNumeral cs negative digits exponent := by
  constructor
  · intro h
    refine ⟨fun hnan => ?_, ?_, ?_⟩
    · obtain ⟨object, hread⟩ := exists_real?_eq_nan_iff.mpr hnan
      rw [hread] at h
      cases h
    · rintro ⟨word, hword, hsays⟩
      obtain ⟨negative, hread⟩ := real?_of_says hword hsays
      rw [hread] at h
      cases h
    · rintro ⟨negative, digits, exponent, hnumeral⟩
      rw [real?_of_isNumeral hnumeral] at h
      cases h
  · rintro ⟨hnan, hinf, hnumeral⟩
    rw [Option.eq_none_iff_forall_ne_some]
    intro x hx
    rcases real?_cases hx with h | h | ⟨negative, digits, exponent, h, _⟩
    · exact hnan h.2
    · exact hinf h.2
    · exact hnumeral ⟨negative, digits, exponent, h⟩

/-- A decimal that is nearer to 2¹⁰²⁴ than to the largest double, or as near. -/
def IsTooLarge (cs : List Char) : Prop :=
  ∃ negative digits exponent, IsNumeral cs negative digits exponent ∧
    (Binary64.limit : ℚ) ≤ digits * 10 ^ exponent

theorem exists_real?_eq_infinite_iff : (∃ negative, real? cs = some (.infinite negative)) ↔
    (∃ word ∈ infinities, Says cs word) ∨ IsTooLarge cs := by
  constructor
  · rintro ⟨negative, h⟩
    rcases real?_cases h with h | h | ⟨_, digits, exponent, hnumeral, heq⟩
    · obtain ⟨⟨object, hnan⟩, -⟩ := h
      cases hnan
    · exact Or.inl h.2
    · have hlarge := (Binary64.ofDecimal_eq_infinite_iff.mp heq.symm).2
      exact Or.inr ⟨_, digits, exponent, hnumeral, hlarge⟩
  · rintro (⟨word, hword, hsays⟩ | ⟨negative, digits, exponent, hnumeral, hlarge⟩)
    · exact real?_of_says hword hsays
    · refine ⟨negative, ?_⟩
      rw [real?_of_isNumeral hnumeral, Binary64.ofDecimal_eq_infinite_iff.mpr ⟨rfl, hlarge⟩]

theorem forall_real?_isFinite_iff : (∀ x, real? cs = some x → (Number.real x).IsFinite) ↔
    ¬Says cs "nan".toList ∧ (¬∃ word ∈ infinities, Says cs word) ∧ ¬IsTooLarge cs := by
  rw [← exists_real?_eq_nan_iff, ← not_or, ← exists_real?_eq_infinite_iff]
  simp only [Number.isFinite_real_iff]
  constructor
  · intro h
    exact ⟨fun ⟨object, hnan⟩ => (h _ hnan).1 object rfl,
      fun ⟨negative, hinf⟩ => (h _ hinf).2 negative rfl⟩
  · rintro ⟨hnan, hinf⟩ x hx
    exact ⟨fun object heq => hnan ⟨object, heq ▸ hx⟩, fun negative heq => hinf ⟨negative, heq ▸ hx⟩⟩

end Numeral

namespace Datum

variable {s : String}

/-- A text that spells an infinity. -/
def SpellsInfinity (s : String) : Prop :=
  ∃ word ∈ Numeral.infinities, Numeral.Says (undecorated s) word

/-- A text that spells a decimal. -/
def SpellsDecimal (s : String) : Prop :=
  ∃ negative digits exponent, Numeral.IsNumeral (undecorated s) negative digits exponent

/-- A text that spells a decimal beyond the doubles. -/
def SpellsTooLarge (s : String) : Prop :=
  Numeral.IsTooLarge (undecorated s)

theorem forall_spelledNumber?_isFinite_iff :
    (∀ n, spelledNumber? s = some n → n.IsFinite) ↔
      ∀ x, Numeral.real? (undecorated s) = some x → (Number.real x).IsFinite := by
  have hform : ∀ x, (if (undecorated s).contains '.' then Number.real x else .settle x).IsFinite
      ↔ (Number.real x).IsFinite := by
    intro x
    split
    · exact Iff.rfl
    · exact Number.isFinite_settle_iff
  unfold spelledNumber?
  dsimp only
  simp only [Option.map_eq_some_iff, forall_exists_index, and_imp, forall_apply_eq_imp_iff₂, hform]

end Datum

/-- A text holds no number when it spells neither a decimal nor a word, and the number that it holds
is finite unless it spells a word or a decimal that is too large. -/
theorem Datum.toNumber?_isFinite_iff (s : String) :
    ((text s).toNumber? = none ↔ ¬SpellsNaN s ∧ ¬SpellsInfinity s ∧ ¬SpellsDecimal s) ∧
    ((∀ n, (text s).toNumber? = some n → n.IsFinite) ↔
      ¬SpellsNaN s ∧ ¬SpellsInfinity s ∧ ¬SpellsTooLarge s) := by
  rw [toNumber?]
  constructor
  · rw [spelledNumber?, Option.map_eq_none_iff]
    exact Numeral.real?_eq_none_iff
  · rw [forall_spelledNumber?_isFinite_iff]
    exact Numeral.forall_real?_isFinite_iff

/-- The word for no number, and a decimal that is too large. -/
theorem Datum.toNumber?_nan :
    (text "nan").toNumber? = some (.real (.nan none)) ∧
      (text "1e999").toNumber? = some (.real (.infinite false)) := by
  decide +kernel

end Cardfolio
