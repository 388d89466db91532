import Cardfolio.Number.Decimal
import Mathlib.Algebra.Group.Nat.Defs

/-!
# How far rounding goes

A double that is nearest to a number is at most one spacing above it, and the spacing is
a small part of the number itself. These bounds are generous, but they are enough to
see that a number stays in range: a thousand times a whole number below 10³⁰⁵ is still
below the largest double.
-/

namespace Cardfolio

namespace Binary64

/-- Doubles lie close together: a spacing is a single unit or much less than the
magnitude. -/
theorem spacing_le (q : Nat) : 16 * spacing q ≤ q + 16 := by
  unfold spacing
  rw [Nat.pow_eq]
  by_cases hsmall : q.log2 ≤ 52
  · rw [Nat.sub_eq_zero_of_le hsmall]
    omega
  · have hq : q ≠ 0 := by
      rintro rfl
      exact hsmall (by decide)
    have hpow : 16 * 2 ^ (q.log2 - 52) ≤ 2 ^ q.log2 := by
      calc 16 * 2 ^ (q.log2 - 52) = 2 ^ (4 + (q.log2 - 52)) := by rw [Nat.pow_add]
        _ ≤ 2 ^ q.log2 := Nat.pow_le_pow_right (by decide) (by omega)
    have := Nat.log2_self_le hq
    omega

theorem roundUnits_le (num den : Nat) :
    roundUnits num den ≤ num / den + spacing (num / den) := by
  have hround := roundQuotient_le num (den * spacing (num / den))
  rw [← Nat.div_div_eq_div_mul] at hround
  calc roundUnits num den
      ≤ (num / den / spacing (num / den) + 1) * spacing (num / den) :=
        Nat.mul_le_mul_right _ hround
    _ = num / den / spacing (num / den) * spacing (num / den) + spacing (num / den) := by
        rw [Nat.add_mul, Nat.one_mul]
    _ ≤ num / den + spacing (num / den) :=
        Nat.add_le_add_right (Nat.div_mul_le_self _ _) _

/-- A double nearest to less than `w` is not much larger, when there are enough units in
`w`. -/
theorem roundUnits_mul_le {w units num den : Nat} (hunits : 0 < units) (hroom : 40 ≤ w * units)
    (h : num < w * den) : 10 * roundUnits (num * units) den ≤ 11 * (w * units) := by
  have hden : 0 < den := Nat.pos_of_ne_zero fun h0 => by
    rw [h0] at h
    exact Nat.not_lt_zero _ h
  have hquotient : num * units / den < w * units := by
    rw [Nat.div_lt_iff_lt_mul hden, Nat.mul_right_comm]
    exact Nat.mul_lt_mul_of_pos_right h hunits
  have hround := roundUnits_le (num * units) den
  have hspacing := spacing_le (num * units / den)
  omega

/-- What is rounded to zero is at most half a unit: of two equally near numbers zero is the even
one. -/
theorem roundUnits_eq_zero_iff {num den : Nat} (hden : 0 < den) :
    roundUnits num den = 0 ↔ 2 * num ≤ den := by
  have hpos : 0 < spacing (num / den) := Nat.two_pow_pos _
  rcases Nat.eq_zero_or_pos (num / den) with hquotient | hquotient
  · -- Below one unit the spacing is a unit, so the fraction itself is rounded.
    have hlt : num < den := (Nat.div_eq_zero_iff_lt hden).mp hquotient
    have hspacing : spacing 0 = 1 := by decide
    rw [roundUnits, hquotient, hspacing, Nat.mul_one, Nat.mul_one, roundQuotient, hquotient,
      Nat.mod_eq_of_lt hlt]
    repeat' split
    all_goals omega
  · have hle : den ≤ num := (Nat.div_pos_iff.mp hquotient).2
    have hspacing := spacing_le (num / den)
    have hround := le_roundQuotient num (den * spacing (num / den))
    rw [← Nat.div_div_eq_div_mul] at hround
    have hone : 0 < num / den / spacing (num / den) := Nat.div_pos (by omega) hpos
    have hne : roundUnits num den ≠ 0 :=
      Nat.ne_of_gt (Nat.mul_pos (Nat.lt_of_lt_of_le hone hround) hpos)
    exact ⟨fun h => (hne h).elim, fun h => by omega⟩

theorem roundUnits_one_lt {units w b : Nat} (hunits : units ≤ w) (hroom : 17 * w + 16 < 16 * b) :
    roundUnits units 1 < b := by
  have hround := roundUnits_le units 1
  rw [Nat.div_one] at hround
  have hspacing := spacing_le units
  omega

/-- 10³⁰⁵, which is far below the largest double. -/
def wide : Nat := Nat.pow 10 305

theorem pow_le_wide {k : Nat} (h : k ≤ 305) : 10 ^ k ≤ wide := by
  unfold wide
  apply Nat.pow_le_pow_right
  · decide
  · exact h

theorem one_pos : 0 < one := by
  unfold one
  apply Nat.two_pow_pos

theorem wide_room : 40 ≤ wide * one :=
  Nat.le_of_ble_eq_true (by decide +kernel)

theorem wide_lt_bound : 17 * (1100 * wide * one) + 16 < 16 * bound :=
  Nat.le_of_ble_eq_true (by decide +kernel)

theorem natAbs_signed (negative : Bool) (n : Nat) : (signed negative n).natAbs = n := by
  cases negative with
  | true => exact Int.natAbs_neg n
  | false => rfl

theorem toInt?_eq_some {x : Binary64} {n : Int} (h : x.toInt? = some n) :
    ∃ negative units hr, x = .finite negative units hr ∧ n.natAbs = units / one := by
  cases x with
  | nan => cases h
  | infinite negative => cases h
  | finite negative units hr =>
      rw [toInt?, Option.ite_none_right_eq_some] at h
      obtain ⟨_, h⟩ := h
      refine ⟨negative, units, hr, rfl, ?_⟩
      rw [← Option.some.inj h, natAbs_signed]

theorem nearest_eq_finite {negative sign : Bool} {num den units : Nat} {hr : Representable units}
    (h : nearest negative num den = .finite sign units hr) :
    units = roundUnits (num * one) den := by
  unfold nearest nearestUnits at h
  split at h
  · exact (Binary64.finite.inj h).2.symm
  · cases h

theorem inRange?_nearest_isSome {negative : Bool} {num den : Nat}
    (h : roundUnits (num * one) den < bound) :
    (nearest negative num den).inRange?.isSome = true := by
  unfold nearest nearestUnits
  rw [dif_pos h]
  rfl

theorem ofInt?_isSome {n : Int} (h : n.natAbs ≤ 1100 * wide) : (ofInt? n).isSome = true := by
  have hle : n.natAbs * one ≤ 1100 * wide * one := Nat.mul_le_mul_right one h
  unfold ofInt?
  exact inRange?_nearest_isSome (roundUnits_one_lt hle wide_lt_bound)

/-- A thousand times a whole number that is nearest to less than 10³⁰⁵ has a nearest
double. -/
theorem ofInt?_thousandfold_isSome {negative : Bool} {num den : Nat} {n : Int}
    (h : num < wide * den) (hn : (nearest negative num den).toInt? = some n) :
    (ofInt? (n * 1000)).isSome = true := by
  obtain ⟨_, units, _, hnearest, habs⟩ := toInt?_eq_some hn
  have hunits := roundUnits_mul_le one_pos wide_room h
  rw [← nearest_eq_finite hnearest] at hunits
  have hdiv : 10 * n.natAbs * one ≤ 11 * wide * one := by
    rw [habs, Nat.mul_assoc, Nat.mul_assoc]
    exact Nat.le_trans (Nat.mul_le_mul_left 10 (Nat.div_mul_le_self _ _)) hunits
  have hle := Nat.le_of_mul_le_mul_right hdiv one_pos
  refine ofInt?_isSome ?_
  rw [Int.natAbs_mul]
  show n.natAbs * 1000 ≤ _
  omega

/-! ## Decimals -/

theorem fraction_neg (digits places : Nat) :
    fraction digits (-(places : Int)) = (digits, 10 ^ places) := by
  unfold fraction
  split
  · next h =>
      obtain rfl : places = 0 := by omega
      exact Prod.ext (Nat.mul_one digits) rfl
  · rw [Int.neg_neg]
    rfl

/-- A decimal is read as zero, as an infinity or as the double nearest to its fraction. -/
theorem ofDecimal_cases (negative : Bool) (digits : Nat) (exponent : Int) :
    ofDecimal negative digits exponent = .finite negative 0 representable_zero ∨
      ofDecimal negative digits exponent = .infinite negative ∨
      ofDecimal negative digits exponent =
        nearest negative (fraction digits exponent).1 (fraction digits exponent).2 := by
  unfold ofDecimal
  dsimp only
  split
  · exact Or.inl rfl
  · split
    · exact Or.inr (Or.inl rfl)
    · exact Or.inr (Or.inr rfl)

theorem isNaN_iff {x : Binary64} : x.isNaN = true ↔ ∃ object, x = .nan object := by
  cases x with
  | nan object => exact ⟨fun _ => ⟨object, rfl⟩, fun _ => rfl⟩
  | infinite negative => exact ⟨nofun, nofun⟩
  | finite negative units hr => exact ⟨nofun, nofun⟩

theorem isNaN_nearestUnits (negative : Bool) (num den : Nat) :
    (nearestUnits negative num den).isNaN = false := by
  unfold nearestUnits
  split
  · rfl
  · rfl

theorem isNaN_ofDecimal (negative : Bool) (digits : Nat) (exponent : Int) :
    (ofDecimal negative digits exponent).isNaN = false := by
  rcases ofDecimal_cases negative digits exponent with h | h | h
  · rw [h]
    rfl
  · rw [h]
    rfl
  · rw [h]
    exact isNaN_nearestUnits _ _ _

theorem ofDecimal_false_cases (digits : Nat) (exponent : Int) :
    (∃ units hr, ofDecimal false digits exponent = .finite false units hr) ∨
      ofDecimal false digits exponent = .infinite false := by
  rcases ofDecimal_cases false digits exponent with h | h | h
  · exact Or.inl ⟨_, _, h⟩
  · exact Or.inr h
  · rw [h]
    unfold nearest nearestUnits
    split
    · next hr => exact Or.inl ⟨_, ⟨hr, spacing_roundUnits_dvd _ _⟩, rfl⟩
    · exact Or.inr rfl

theorem ofDecimal_zero (exponent : Int) : ofDecimal false 0 exponent = zero := by
  unfold ofDecimal
  dsimp only
  exact if_pos (Or.inl rfl)

theorem isZero_ofDecimal_zero (exponent : Int) : (ofDecimal false 0 exponent).isZero = true := by
  rw [ofDecimal_zero]
  rfl

theorem digitCount_le_iff {n k : Nat} (hk : 0 < k) : digitCount n ≤ k ↔ n < 10 ^ k :=
  Nat.length_toDigits_le_iff (by decide) hk

theorem digitCount_pos (n : Nat) : 0 < digitCount n :=
  Nat.length_toDigits_pos

theorem two_mul_one_le_pow : 2 * one ≤ 10 ^ 331 :=
  Nat.le_of_ble_eq_true (by decide +kernel)

theorem isZero_nearest {num den : Nat} (hden : 0 < den) :
    (nearest false num den).isZero = true ↔ 2 * (num * one) ≤ den := by
  rw [← roundUnits_eq_zero_iff hden]
  unfold nearest nearestUnits
  split
  · exact beq_iff_eq
  · next hbound =>
      refine ⟨nofun, fun h => ?_⟩
      rw [h] at hbound
      exact (hbound bound_pos).elim

theorem nearest_eq_zero (negative : Bool) {num den : Nat} (hden : 0 < den)
    (h : 2 * (num * one) ≤ den) :
    nearest negative num den = .finite negative 0 representable_zero := by
  have hzero : roundUnits (num * one) den = 0 := (roundUnits_eq_zero_iff hden).mpr h
  unfold nearest nearestUnits
  simp only [hzero]
  exact dif_pos bound_pos

/-- So far behind the point there is less than half a unit. -/
theorem two_mul_le_pow_of_place {digits places : Nat}
    (h : (digitCount digits : Int) + -(places : Int) < -330) :
    2 * (digits * one) ≤ 10 ^ places := by
  have hcount := digitCount_pos digits
  have hplaces : digitCount digits ≤ places - 331 := by omega
  have hlt : digits < 10 ^ (places - 331) :=
    (digitCount_le_iff (by omega)).mp hplaces
  calc 2 * (digits * one) = digits * (2 * one) := Nat.mul_left_comm _ _ _
    _ ≤ 10 ^ (places - 331) * 10 ^ 331 :=
        Nat.mul_le_mul (Nat.le_of_lt hlt) two_mul_one_le_pow
    _ = 10 ^ places := by
        rw [← Nat.pow_add]
        congr 1
        omega

/-- A decimal is read as zero when it is at most half a unit. -/
theorem isZero_ofDecimal_iff (digits places : Nat) :
    (ofDecimal false digits (-(places : Int))).isZero = true ↔
      2 * (digits * one) ≤ 10 ^ places := by
  unfold ofDecimal
  dsimp only
  split
  · next h =>
      refine ⟨fun _ => ?_, fun _ => rfl⟩
      rcases h with rfl | hplace
      · rw [Nat.zero_mul]
        exact Nat.zero_le _
      · exact two_mul_le_pow_of_place hplace
  · split
    · next hpoint =>
        refine ⟨nofun, fun h => ?_⟩
        have hplaces : ¬ digitCount digits ≤ places + 1 := by omega
        rw [digitCount_le_iff (Nat.succ_pos _), Nat.not_lt] at hplaces
        have hpow : 0 < 10 ^ places := Nat.pow_pos (by decide)
        have hle : digits ≤ digits * one := Nat.le_mul_of_pos_right _ one_pos
        rw [Nat.pow_succ] at hplaces
        omega
    · rw [fraction_neg]
      exact isZero_nearest (Nat.pow_pos (by decide))

/-- Two decimal places are not enough for a number to be read as zero. -/
theorem isZero_ofDecimal_eq_false {digits places : Nat} (h : digits ≠ 0) (hplaces : places ≤ 2) :
    (ofDecimal false digits (-(places : Int))).isZero = false := by
  have hle : 10 ^ places ≤ 10 ^ 2 := Nat.pow_le_pow_right (by decide) hplaces
  have hroom : 200 ≤ one := Nat.le_of_ble_eq_true (by decide +kernel)
  have hnum : one ≤ digits * one := Nat.le_mul_of_pos_left one (Nat.pos_of_ne_zero h)
  rw [Bool.eq_false_iff, Ne, isZero_ofDecimal_iff]
  omega

/-- A thousand times a decimal below 10³⁰⁵ has a nearest double, if the decimal is whole. -/
theorem ofInt?_thousandfold_ofDecimal {digits places : Nat} {n : Int}
    (h : digits < wide * 10 ^ places)
    (hn : (ofDecimal false digits (-(places : Int))).toInt? = some n) :
    (ofInt? (n * 1000)).isSome = true := by
  rcases ofDecimal_cases false digits (-(places : Int)) with hcase | hcase | hcase
  · rw [hcase] at hn
    obtain ⟨_, units, _, hzero, habs⟩ := toInt?_eq_some hn
    obtain ⟨_, rfl⟩ := Binary64.finite.inj hzero
    rw [Nat.zero_div, Int.natAbs_eq_zero] at habs
    subst habs
    exact ofInt?_isSome (Nat.zero_le _)
  · rw [hcase] at hn
    cases hn
  · rw [hcase, fraction_neg] at hn
    exact ofInt?_thousandfold_isSome h hn

end Binary64

end Cardfolio
