/-!
# Double-precision numbers, exactly

Every finite double is a whole multiple of the smallest one, 2⁻¹⁰⁷⁴. Measured in
that unit a double is a sign and a natural number, so sums, differences and
comparisons of doubles are sums, differences and comparisons of integers, and
products and quotients are fractions of integers. What is special about doubles
is only *which* multiples exist: below 2¹⁰²⁴, and with at most 53 significant
bits. `Representable` says so, and every finite value carries the proof.

There is one rounding, `nearest`: a fraction of units goes to the nearest
multiple that exists, a tie to the one with the even significand, and what lies
beyond the largest goes to infinity. Each operation computes its exact result
and rounds it once.
-/

namespace Cardfolio

namespace Binary64

/-- The number of units in one: 2¹⁰⁷⁴. -/
def one : Nat := Nat.pow 2 1074

/-- All finite magnitudes lie below this number of units: 2¹⁰²⁴. -/
def bound : Nat := Nat.pow 2 2098

/-- The distance between neighbouring doubles at a magnitude: with 53 significant bits, the
weight of the last. -/
def spacing (units : Nat) : Nat := Nat.pow 2 (units.log2 - 52)

/-- The magnitudes that doubles have. -/
def Representable (units : Nat) : Prop :=
  units < bound ∧ spacing units ∣ units

theorem bound_pos : 0 < bound := by
  unfold bound
  apply Nat.two_pow_pos

theorem representable_zero : Representable 0 :=
  ⟨bound_pos, Nat.dvd_zero _⟩

end Binary64

/-- A double-precision number: a magnitude in units of 2⁻¹⁰⁷⁴ with a sign, an infinity, or no
number at all. What is no number is not equal to itself and can be told apart only by the object
that stands for it. An object that may be met in several places has a number; one that arithmetic
or a numeral has just made has none. -/
inductive Binary64
  | nan (object : Option Nat)
  | infinite (negative : Bool)
  | finite (negative : Bool) (units : Nat) (representable : Binary64.Representable units)
  deriving DecidableEq

namespace Binary64

/-! ## Rounding

`roundQuotient` rounds a fraction to a whole number. Rounding to a multiple of
the spacing is rounding the fraction of spacings, so `roundUnits` is the same
function one level up. Its result has at most 53 bits except when it is carried
up to the next power of two, which has one; in both cases it is representable.
-/

/-- The whole number nearest to `num / den`, of two equally near ones the even one. -/
def roundQuotient (num den : Nat) : Nat :=
  let q := num / den
  let r := num % den
  if 2 * r < den then q
  else if den < 2 * r then q + 1
  else if q % 2 = 0 then q else q + 1

theorem roundQuotient_le (num den : Nat) : roundQuotient num den ≤ num / den + 1 := by
  unfold roundQuotient
  dsimp only
  repeat' split
  all_goals omega

theorem le_roundQuotient (num den : Nat) : num / den ≤ roundQuotient num den := by
  unfold roundQuotient
  dsimp only
  repeat' split
  all_goals omega

/-- The number of units nearest to `num / den` among the multiples of the spacing there. -/
def roundUnits (num den : Nat) : Nat :=
  let s := spacing (num / den)
  roundQuotient num (den * s) * s

theorem spacing_dvd_mul_pow {k : Nat} (e : Nat) (hk : k ≤ Nat.pow 2 53) :
    spacing (k * Nat.pow 2 e) ∣ k * Nat.pow 2 e := by
  rw [Nat.pow_eq] at hk ⊢
  rcases Nat.lt_or_eq_of_le hk with h | h
  · refine Nat.dvd_trans (Nat.pow_dvd_pow 2 ?_) (Nat.dvd_mul_left _ _)
    rcases Nat.eq_zero_or_pos k with h0 | h0
    · simp [h0]
    · have hlt : k * 2 ^ e < 2 ^ (53 + e) := by
        rw [Nat.pow_add]
        exact Nat.mul_lt_mul_of_pos_right h (Nat.two_pow_pos e)
      have hne : k * 2 ^ e ≠ 0 := Nat.mul_ne_zero (by omega) (Nat.ne_of_gt (Nat.two_pow_pos e))
      have := (Nat.log2_lt hne).mpr hlt
      omega
  · subst h
    rw [← Nat.pow_add, spacing, Nat.log2_two_pow]
    exact Nat.pow_dvd_pow 2 (by omega)

theorem div_spacing_lt (q : Nat) : q / spacing q < Nat.pow 2 53 := by
  rw [spacing, Nat.pow_eq, Nat.pow_eq, Nat.div_lt_iff_lt_mul (Nat.two_pow_pos _), ← Nat.pow_add]
  rcases Nat.eq_zero_or_pos q with h | h
  · simp [h]
  · have : q < 2 ^ (q.log2 + 1) := Nat.lt_log2_self
    exact Nat.lt_of_lt_of_le this (Nat.pow_le_pow_right (by decide) (by omega))

theorem spacing_roundUnits_dvd (num den : Nat) :
    spacing (roundUnits num den) ∣ roundUnits num den := by
  unfold roundUnits
  refine spacing_dvd_mul_pow _ ?_
  have h := roundQuotient_le num (den * spacing (num / den))
  rw [← Nat.div_div_eq_div_mul] at h
  have := div_spacing_lt (num / den)
  omega

/-- The double nearest to a fraction of units. -/
def nearestUnits (negative : Bool) (num den : Nat) : Binary64 :=
  if h : roundUnits num den < bound then
    .finite negative (roundUnits num den) ⟨h, spacing_roundUnits_dvd num den⟩
  else .infinite negative

/-- The double nearest to `num / den`. -/
def nearest (negative : Bool) (num den : Nat) : Binary64 :=
  nearestUnits negative (num * one) den

/-- A double that is no infinity. -/
def inRange? : Binary64 → Option Binary64
  | .infinite _ => none
  | x => some x

/-- The double nearest to a whole number, unless it lies beyond the largest. -/
def ofInt? (n : Int) : Option Binary64 :=
  (nearest (n < 0) n.natAbs 1).inRange?

/-- The positive zero. -/
def zero : Binary64 :=
  .finite false 0 representable_zero

/-- A finite number in units, with its sign. -/
def signed (negative : Bool) (units : Nat) : Int :=
  if negative then -(units : Int) else units

/-- The whole number that a double is equal to, if it is. -/
def toInt? : Binary64 → Option Int
  | .finite negative units _ =>
    if units % one = 0 then some (signed negative (units / one)) else none
  | _ => none

/-- Equal to zero, of either sign. -/
def isZero : Binary64 → Bool
  | .finite _ units _ => units == 0
  | _ => false

def isNaN : Binary64 → Bool
  | .nan _ => true
  | _ => false

/-! ## Arithmetic

Infinities and the absence of a number follow the usual table; what is no number
is then a new object. A sum that is exactly zero is negative only when both
terms are negative.
-/

def neg : Binary64 → Binary64
  | .nan _ => .nan none
  | .infinite negative => .infinite !negative
  | .finite negative units h => .finite (!negative) units h

def add : Binary64 → Binary64 → Binary64
  | .nan _, _ => .nan none
  | _, .nan _ => .nan none
  | .infinite a, .infinite b => if a = b then .infinite a else .nan none
  | .infinite a, .finite .. => .infinite a
  | .finite .., .infinite b => .infinite b
  | .finite a m _, .finite b n _ =>
    let sum := signed a m + signed b n
    nearestUnits (if sum = 0 then a && b else sum < 0) sum.natAbs 1

def sub (x y : Binary64) : Binary64 :=
  add x (neg y)

def mul : Binary64 → Binary64 → Binary64
  | .nan _, _ => .nan none
  | _, .nan _ => .nan none
  | .infinite a, .infinite b => .infinite (a ^^ b)
  | .infinite a, .finite b n _ => if n = 0 then .nan none else .infinite (a ^^ b)
  | .finite a m _, .infinite b => if m = 0 then .nan none else .infinite (a ^^ b)
  | .finite a m _, .finite b n _ => nearestUnits (a ^^ b) (m * n) one

def div : Binary64 → Binary64 → Binary64
  | .nan _, _ => .nan none
  | _, .nan _ => .nan none
  | .infinite _, .infinite _ => .nan none
  | .infinite a, .finite b _ _ => .infinite (a ^^ b)
  | .finite a _ _, .infinite b => .finite (a ^^ b) 0 representable_zero
  | .finite a m _, .finite b n _ =>
    if n = 0 then (if m = 0 then .nan none else .infinite (a ^^ b)) else nearest (a ^^ b) m n

/-- The number with two decimal places nearest to the exact value, of two equally near ones the
even one, as the double nearest to it. -/
def roundHundredths : Binary64 → Binary64
  | .finite negative units _ => nearest negative (roundQuotient (units * 100) one) 100
  | x => x

end Binary64

end Cardfolio
