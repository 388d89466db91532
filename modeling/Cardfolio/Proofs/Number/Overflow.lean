import Cardfolio.Proofs.Number.Range
import Mathlib.Algebra.Order.Field.Power
import Mathlib.Data.Rat.Cast.Order

/-!
# Decimals that are too large

A decimal is read by rounding its exact value, so it is read as an infinity exactly when this value
is at the limit or beyond it. No power of ten is computed when the place of the decimal point alone
shows that the value is far too large or far too small. There the place bounds the value, and the
bound is on the same side of the limit, or so far below a unit that the value rounds to zero. So
what is read is the double nearest to the value all the same.
-/

namespace Cardfolio

namespace Binary64

variable {digits : Nat} {exponent : Int}

theorem fraction_den_pos (digits : Nat) (exponent : Int) : 0 < (fraction digits exponent).2 := by
  unfold fraction
  split
  · exact Nat.one_pos
  · exact Nat.pow_pos (by decide)

/-- A decimal is the quotient of its fraction. -/
theorem fraction_eq (digits : Nat) (exponent : Int) : ((fraction digits exponent).1 : ℚ)
    = digits * 10 ^ exponent * (fraction digits exponent).2 := by
  unfold fraction
  split
  · next h =>
      obtain ⟨k, rfl⟩ := Int.eq_ofNat_of_zero_le h
      simp
  · next h =>
      obtain ⟨k, rfl⟩ : ∃ k : Nat, exponent = -k := ⟨(-exponent).toNat, by omega⟩
      simp

theorem limit_mul_le_fraction_iff :
    limit * (fraction digits exponent).2 ≤ (fraction digits exponent).1
      ↔ (limit : ℚ) ≤ digits * 10 ^ exponent := by
  have hden : (0 : ℚ) < (fraction digits exponent).2 :=
    Nat.cast_pos.mpr (fraction_den_pos digits exponent)
  rw [← Nat.cast_le (α := ℚ), Nat.cast_mul, fraction_eq]
  exact mul_le_mul_iff_left₀ hden

theorem pow_le_of_lt_digitCount {n k : Nat} (h : n ≠ 0) (hk : k < digitCount n) : 10 ^ k ≤ n := by
  cases k with
  | zero => exact Nat.one_le_iff_ne_zero.mpr h
  | succ k =>
      refine Nat.le_of_not_lt fun hlt => ?_
      exact Nat.not_le_of_lt hk ((digitCount_le_iff k.succ_pos).mpr hlt)

theorem pow_le_value (h : digits ≠ 0) (exponent : Int) :
    (10 : ℚ) ^ (digitCount digits + exponent - 1) ≤ digits * 10 ^ exponent := by
  have hpos : (0 : ℚ) < 10 ^ exponent := zpow_pos (by norm_num) exponent
  obtain ⟨k, hk⟩ := Nat.exists_eq_add_one.mpr (digitCount_pos digits)
  have hplace : (digitCount digits + exponent - 1 : Int) = k + exponent := by omega
  rw [hplace, zpow_add₀ (by norm_num), zpow_natCast]
  refine mul_le_mul_of_nonneg_right ?_ hpos.le
  exact_mod_cast pow_le_of_lt_digitCount h (by omega)

theorem limit_le_pow : limit ≤ 10 ^ 310 := by
  unfold limit
  exact Nat.le_of_ble_eq_true (by decide +kernel)

/-- The place of the point decides nothing by itself: what is read is always the double nearest to
the fraction. -/
theorem ofDecimal_eq_nearest (negative : Bool) (digits : Nat) (exponent : Int) :
    ofDecimal negative digits exponent
      = nearest negative (fraction digits exponent).1 (fraction digits exponent).2 := by
  have hden := fraction_den_pos digits exponent
  unfold ofDecimal
  dsimp only
  split
  · next h =>
      refine (nearest_eq_zero negative hden ?_).symm
      rcases h with rfl | hplace
      · have hzero : (fraction 0 exponent).1 = 0 := by
          unfold fraction
          split
          · exact Nat.zero_mul _
          · rfl
        rw [hzero, Nat.zero_mul]
        exact Nat.zero_le _
      · have hcount := digitCount_pos digits
        obtain ⟨places, rfl⟩ : ∃ places : Nat, exponent = -places :=
          ⟨(-exponent).toNat, by omega⟩
        rw [fraction_neg]
        exact two_mul_le_pow_of_place hplace
  · next h =>
      obtain ⟨hne, _⟩ := not_or.mp h
      split
      · next hplace =>
          have hlarge : (limit : ℚ) ≤ digits * 10 ^ exponent :=
            calc (limit : ℚ) ≤ 10 ^ 310 := by exact_mod_cast limit_le_pow
              _ = 10 ^ (310 : Int) := (zpow_natCast 10 310).symm
              _ ≤ 10 ^ (digitCount digits + exponent - 1) :=
                  zpow_le_zpow_right₀ (by norm_num) (by omega)
              _ ≤ digits * 10 ^ exponent := pow_le_value hne exponent
          exact ((nearest_eq_infinite_iff hden).mpr
            ⟨rfl, limit_mul_le_fraction_iff.mpr hlarge⟩).symm
      · rfl

/-- A decimal is read as an infinity when its value reaches the limit. -/
theorem ofDecimal_eq_infinite_iff {negative sign : Bool} :
    ofDecimal negative digits exponent = .infinite sign ↔
      negative = sign ∧ (limit : ℚ) ≤ digits * 10 ^ exponent := by
  rw [ofDecimal_eq_nearest, nearest_eq_infinite_iff (fraction_den_pos digits exponent),
    limit_mul_le_fraction_iff]

end Binary64

end Cardfolio
