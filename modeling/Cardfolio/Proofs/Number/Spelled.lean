import Cardfolio.Number.Basic
import Cardfolio.Proofs.Number.Numerals
import Cardfolio.Proofs.Number.Rounding

/-!
# How a whole number is spelled

A whole number is written with its digits alone or with a comma between the thousands, and a
dollar sign may stand in front. Without the sign and the commas the digits are left. A number
of up to 2⁵³ is a double, so reading its digits as one gives the number back.
-/

namespace Cardfolio

namespace Numeral

/-- Digits, the last one first, with a comma behind each three of them if there are more. -/
def commas : List Char → List Char
  | a :: b :: c :: d :: rest => a :: b :: c :: ',' :: commas (d :: rest)
  | digits => digits

/-- A whole number with a comma between the thousands. -/
def grouped (n : Nat) : List Char :=
  (commas (Nat.toDigits 10 n).reverse).reverse

/-- How a whole number is spelled: with commas or without, with a dollar sign or without. -/
def spellings (n : Nat) : List (List Char) :=
  [Nat.toDigits 10 n, grouped n, '$' :: Nat.toDigits 10 n, '$' :: grouped n]

/-- The digits of a number, perhaps with commas, but not in front. -/
structure IsWritten (n : Nat) (cs : List Char) : Prop where
  digits : cs.filter Char.isDigit = Nat.toDigits 10 n
  mem : ∀ c ∈ cs, c = ',' ∨ c.isDigit = true
  head : ∀ c ∈ cs.head?, c.isDigit = true
  length_le : cs.length ≤ 2 * (Nat.toDigits 10 n).length

section

variable {ds : List Char}

theorem filter_commas (h : ∀ c ∈ ds, c.isDigit = true) : (commas ds).filter Char.isDigit = ds := by
  fun_induction commas ds with
  | case1 a b c d rest ih =>
      obtain ⟨ha, hb, hc, hrest⟩ : a.isDigit = true ∧ b.isDigit = true ∧ c.isDigit = true ∧
          ∀ x ∈ d :: rest, x.isDigit = true := by
        simpa only [List.forall_mem_cons] using h
      rw [List.filter_cons_of_pos ha, List.filter_cons_of_pos hb, List.filter_cons_of_pos hc,
        List.filter_cons_of_neg (by decide), ih hrest]
  | case2 ds => exact List.filter_eq_self.mpr h

theorem mem_commas {x : Char} (h : x ∈ commas ds) : x = ',' ∨ x ∈ ds := by
  fun_induction commas ds with
  | case1 a b c d rest ih =>
      simp only [List.mem_cons] at h ih ⊢
      grind
  | case2 ds => exact Or.inr h

theorem getLast?_commas (ds : List Char) : (commas ds).getLast? = ds.getLast? := by
  fun_induction commas ds with
  | case1 a b c d rest ih =>
      obtain ⟨last, hlast⟩ : ∃ last, (d :: rest).getLast? = some last :=
        Option.isSome_iff_exists.mp (by simp)
      rw [hlast] at ih
      simp [List.getLast?_cons, ih, hlast]
  | case2 ds => rfl

theorem length_commas_le (ds : List Char) : (commas ds).length ≤ 2 * ds.length := by
  fun_induction commas ds with
  | case1 a b c d rest ih =>
      simp only [List.length_cons] at ih ⊢
      omega
  | case2 ds => omega

end

theorem isDigit_of_mem_toDigits {n : Nat} : ∀ c ∈ Nat.toDigits 10 n, c.isDigit = true :=
  fun _ hc => Nat.isDigit_of_mem_toDigits (by decide) (by decide) hc

theorem isWritten_toDigits (n : Nat) : IsWritten n (Nat.toDigits 10 n) where
  digits := List.filter_eq_self.mpr isDigit_of_mem_toDigits
  mem := fun c hc => Or.inr (isDigit_of_mem_toDigits c hc)
  head := fun c hc => isDigit_of_mem_toDigits c (List.mem_of_mem_head? hc)
  length_le := by omega

theorem isWritten_grouped (n : Nat) : IsWritten n (grouped n) where
  digits := by
    rw [grouped, List.filter_reverse, filter_commas, List.reverse_reverse]
    exact fun c hc => isDigit_of_mem_toDigits c (List.mem_reverse.mp hc)
  mem := by
    intro c hc
    have h := mem_commas (List.mem_reverse.mp hc)
    exact h.imp id fun h => isDigit_of_mem_toDigits c (List.mem_reverse.mp h)
  head := by
    intro c hc
    rw [grouped, List.head?_reverse, getLast?_commas, List.getLast?_reverse] at hc
    exact isDigit_of_mem_toDigits c (List.mem_of_mem_head? hc)
  length_le := by
    have h := length_commas_le (Nat.toDigits 10 n).reverse
    rw [List.length_reverse] at h
    rw [grouped, List.length_reverse]
    exact h

/-- A spelling is a number as it is written, perhaps behind a dollar sign. -/
theorem exists_isWritten {n : Nat} {s : List Char} (h : s ∈ spellings n) :
    ∃ (dollar : Bool) (cs : List Char), IsWritten n cs ∧
      s = (if dollar then ['$'] else []) ++ cs := by
  simp only [spellings, List.mem_cons, List.not_mem_nil, or_false] at h
  rcases h with rfl | rfl | rfl | rfl
  · exact ⟨false, _, isWritten_toDigits n, rfl⟩
  · exact ⟨false, _, isWritten_grouped n, rfl⟩
  · exact ⟨true, _, isWritten_toDigits n, rfl⟩
  · exact ⟨true, _, isWritten_grouped n, rfl⟩

theorem IsWritten.exists_cons {n : Nat} {cs : List Char} (h : IsWritten n cs) :
    ∃ first rest, cs = first :: rest ∧ first.isDigit = true := by
  cases cs with
  | nil => exact absurd h.digits.symm Nat.toDigits_ne_nil
  | cons first rest => exact ⟨first, rest, rfl, h.head first rfl⟩

/-- What keeps digits and no commas keeps the digits of the number. -/
theorem IsWritten.filter_eq {n : Nat} {cs : List Char} (h : IsWritten n cs) {p : Char → Bool}
    (hdigit : ∀ c, c.isDigit = true → p c = true) (hcomma : p ',' = false) :
    cs.filter p = Nat.toDigits 10 n := by
  rw [← h.digits]
  refine List.filter_congr fun c hc => ?_
  rcases h.mem c hc with rfl | hc
  · exact hcomma
  · rw [hc, hdigit c hc]

example : spellings 1234567 =
    ["1234567".toList, "1,234,567".toList, "$1234567".toList, "$1,234,567".toList] := by
  decide

theorem value_toDigits (n : Nat) : value (Nat.toDigits 10 n) = n :=
  Nat.ofDigitChars_toDigits (by decide) (by decide)

end Numeral

namespace Binary64

theorem roundUnits_eq_self {units : Nat} (h : spacing units ∣ units) :
    roundUnits units 1 = units := by
  have hpos : 0 < spacing units := Nat.two_pow_pos _
  unfold roundUnits roundQuotient
  dsimp only
  rw [Nat.div_one, Nat.one_mul, Nat.mod_eq_zero_of_dvd h, if_pos (by omega), Nat.div_mul_cancel h]

theorem representable_mul_one {n : Nat} (h : n ≤ 2 ^ 53) : Representable (n * one) := by
  have hroom : 2 ^ 53 * one < bound := Nat.lt_of_lt_of_le (Nat.lt_succ_self _)
    (Nat.le_of_ble_eq_true (by decide +kernel))
  refine ⟨Nat.lt_of_le_of_lt (Nat.mul_le_mul_right one h) hroom, ?_⟩
  unfold one
  apply spacing_dvd_mul_pow
  exact h

theorem length_toDigits_le {n : Nat} (h : n ≤ 2 ^ 53) : (Nat.toDigits 10 n).length ≤ 16 :=
  (Nat.length_toDigits_le_iff (by decide) (by decide)).mpr (by omega)

/-- A whole number of up to 2⁵³ is a double. -/
theorem ofDecimal_eq_finite (negative : Bool) {n : Nat} (h : n ≤ 2 ^ 53) :
    ofDecimal negative n 0 = .finite negative (n * one) (representable_mul_one h) := by
  have hdigits : (digitCount n : Int) + 0 ≤ 16 := by
    have := length_toDigits_le h
    unfold digitCount
    omega
  unfold ofDecimal
  dsimp only
  split
  · next hzero =>
      obtain rfl : n = 0 := hzero.resolve_right (by omega)
      simp only [Nat.zero_mul]
  · -- The number is a double, so rounding leaves it as it is.
    have hunits := roundUnits_eq_self (representable_mul_one h).2
    have hfraction : fraction n 0 = (n, 1) := Prod.ext (Nat.mul_one n) rfl
    rw [if_neg (by omega), hfraction]
    show nearestUnits negative (n * one) 1 = _
    unfold nearestUnits
    rw [dif_pos (hunits.symm ▸ (representable_mul_one h).1)]
    simp only [hunits]

theorem settle_ofDecimal_signed (negative : Bool) {n : Nat} (h : n ≤ 2 ^ 53) :
    Number.settle (ofDecimal negative n 0) = .whole (signed negative n) := by
  have hwhole : n * one % one = 0 := Nat.mul_mod_left n one
  have hint : (ofDecimal negative n 0).toInt? = some (signed negative n) := by
    rw [ofDecimal_eq_finite negative h, toInt?, if_pos hwhole, Nat.mul_div_left n one_pos]
  rw [Number.settle, hint]

theorem settle_ofDecimal {n : Nat} (h : n ≤ 2 ^ 53) :
    Number.settle (ofDecimal false n 0) = .whole n :=
  settle_ofDecimal_signed false h

end Binary64

end Cardfolio
