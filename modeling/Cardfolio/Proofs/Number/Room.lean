import Cardfolio.Proofs.Number.Order
import Cardfolio.Proofs.Number.Rounding

/-!
# Room between zero and a number

Doubles are whole multiples of a smallest one, and there is no number between zero and that.
The numbers that questions are about are never so small: they have few decimal places, or
they are thousandfold amounts. `HasRoom` says what is left. Such a number is zero, or
infinite, or far enough above zero for another number to lie between.

Numbers are judged by their places, so the settled form of a double is as good as the double.
-/

namespace Cardfolio

namespace Binary64

theorem roundUnits_zero {den : Nat} (hden : 0 < den) : roundUnits 0 den = 0 :=
  (roundUnits_eq_zero_iff hden).mpr (Nat.zero_le den)

/-- A fraction of four units or more is not rounded to one. -/
theorem two_le_roundUnits {num den : Nat} (hden : 0 < den) (h : 4 * den ≤ num) :
    2 ≤ roundUnits num den := by
  have hquotient : 4 ≤ num / den := (Nat.le_div_iff_mul_le hden).mpr h
  have hspacing := spacing_le (num / den)
  have hround := le_roundQuotient num (den * spacing (num / den))
  rw [← Nat.div_div_eq_div_mul] at hround
  have hlt : num / den < num / den / spacing (num / den) * spacing (num / den)
      + spacing (num / den) := Nat.lt_div_mul_add (Nat.two_pow_pos _)
  have hle : num / den / spacing (num / den) * spacing (num / den) ≤ roundUnits num den :=
    Nat.mul_le_mul_right _ hround
  omega

end Binary64

namespace Number

/-- A number that is zero, positive infinity, or so large that another number lies between
zero and it. -/
def HasRoom (n : Number) : Prop :=
  n.place? = some .above ∨ ∃ units : Nat, n.place? = some (.units units) ∧ units ≠ 1

theorem place?_settle (x : Binary64) : (settle x).place? = (real x).place? := by
  unfold settle
  cases x with
  | nan => rfl
  | infinite negative => rfl
  | finite negative units hr =>
      rw [Binary64.toInt?]
      split
      · next n hn =>
          obtain ⟨hdvd, hn⟩ := Option.ite_none_right_eq_some.mp hn
          have hunits : units / Binary64.one * Binary64.one = units :=
            Nat.div_mul_cancel (Nat.dvd_of_mod_eq_zero hdvd)
          rw [← Option.some.inj hn]
          cases negative with
          | false => exact congrArg (fun k : Nat => some (Place.units k)) hunits
          | true =>
              have hneg : -((units / Binary64.one : Nat) : Int) * (Binary64.one : Int)
                  = -(units : Int) := by
                rw [Int.neg_mul, ← Int.natCast_mul, hunits]
              exact congrArg (fun k => some (Place.units k)) hneg
      · rfl

theorem hasRoom_settle {x : Binary64} (h : (real x).HasRoom) : (settle x).HasRoom := by
  unfold HasRoom at h ⊢
  rw [place?_settle]
  exact h

theorem four_hundred_le_one : 400 ≤ Binary64.one :=
  Nat.le_of_ble_eq_true (by decide +kernel)

theorem hasRoom_whole (k : Nat) : (whole k).HasRoom := by
  refine Or.inr ⟨k * Binary64.one, congrArg (fun k => some (Place.units k)) ?_, ?_⟩
  · exact (Int.natCast_mul k Binary64.one).symm
  · intro h
    have hone : Binary64.one = 1 := Nat.dvd_one.mp ⟨k, (Nat.mul_comm _ _ ▸ h).symm⟩
    have := four_hundred_le_one
    omega

theorem hasRoom_nearestUnits {num den : Nat} (hden : 0 < den) (h : num = 0 ∨ 4 * den ≤ num) :
    (real (.nearestUnits false num den)).HasRoom := by
  unfold Binary64.nearestUnits
  split
  · refine Or.inr ⟨_, rfl, ?_⟩
    rcases h with rfl | h
    · rw [Binary64.roundUnits_zero hden]
      exact Nat.zero_ne_one
    · have := Binary64.two_le_roundUnits hden h
      omega
  · exact Or.inl rfl

/-- Two decimal places are not enough for a number to be as small as that. -/
theorem hasRoom_ofDecimal {digits places : Nat} (h : places ≤ 2) :
    (real (.ofDecimal false digits (-(places : Int)))).HasRoom := by
  rcases Binary64.ofDecimal_cases false digits (-(places : Int)) with hcase | hcase | hcase
  · rw [hcase]
    exact Or.inr ⟨0, rfl, Nat.zero_ne_one⟩
  · rw [hcase]
    exact Or.inl rfl
  · rw [hcase, Binary64.fraction_neg]
    refine hasRoom_nearestUnits (Nat.pow_pos (by decide)) ?_
    rcases Nat.eq_zero_or_pos digits with rfl | hdigits
    · exact Or.inl (Nat.zero_mul _)
    · refine Or.inr ?_
      calc 4 * 10 ^ places ≤ 4 * 10 ^ 2 :=
            Nat.mul_le_mul_left 4 (Nat.pow_le_pow_right (by decide) h)
        _ ≤ Binary64.one := four_hundred_le_one
        _ ≤ digits * Binary64.one := Nat.le_mul_of_pos_left _ hdigits

/-- Four times a number without a sign, or more, has room. -/
theorem hasRoom_mul {x : Binary64} (hx : x = .infinite false ∨ ∃ units hr,
      x = .finite false units hr) {units : Nat} {hr : Binary64.Representable units}
    (h : 4 * Binary64.one ≤ units) : (real (x.mul (.finite false units hr))).HasRoom := by
  have hone := four_hundred_le_one
  rcases hx with rfl | ⟨units', hr', rfl⟩
  · show (real (if units = 0 then .nan none else .infinite false)).HasRoom
    rw [if_neg (by omega)]
    exact Or.inl rfl
  · refine hasRoom_nearestUnits (by omega) ?_
    rcases Nat.eq_zero_or_pos units' with rfl | hpos
    · exact Or.inl (Nat.zero_mul _)
    · exact Or.inr (Nat.le_trans h (Nat.le_mul_of_pos_left _ hpos))

variable {a b c n : Number}

theorem place?_whole (k : Int) : (whole k).place? = some (.units (k * Binary64.one)) := rfl

theorem place?_zero : (whole 0).place? = some (.units 0) := by
  rw [place?_whole, Int.zero_mul]

theorem units_lt_units {i j : Int} : (Place.units i).lt (.units j) = true ↔ i < j :=
  decide_eq_true_iff

theorem units_lt_above (i : Int) : (Place.units i).lt .above = true := rfl

theorem eq_infinite_of_place? (h : n.place? = some .above) : n = real (.infinite false) := by
  cases n with
  | whole k => cases h
  | real x =>
      cases x with
      | nan => cases h
      | infinite negative =>
          cases negative with
          | false => rfl
          | true => cases h
      | finite negative units hr => cases h

/-- The smallest double above zero. -/
def smallest : Number :=
  real (.finite false 1 ⟨Nat.le_of_ble_eq_true (by decide +kernel), Nat.dvd_refl 1⟩)

theorem place?_smallest : smallest.place? = some (.units 1) := rfl

namespace HasRoom

theorem same_self (h : n.HasRoom) : n.same n = true := by
  rcases h with hn | ⟨units, hn, _⟩
  · rw [same_eq hn hn, decide_eq_true_eq]
  · rw [same_eq hn hn, decide_eq_true_eq]

theorem not_lt_zero (h : n.HasRoom) : n.lt (whole 0) = false := by
  rw [Bool.eq_false_iff]
  rcases h with hn | ⟨units, hn, _⟩
  · rw [lt_eq hn place?_zero]
    exact Bool.false_ne_true
  · rw [lt_eq hn place?_zero, Ne, units_lt_units]
    omega

/-- What is not above zero is zero. -/
theorem zero_same (h : n.HasRoom) (hzero : (whole 0).lt n = false) :
    (whole 0).same n = true := by
  rw [Bool.eq_false_iff] at hzero
  rcases h with hn | ⟨units, hn, _⟩
  · rw [lt_eq place?_zero hn] at hzero
    exact (hzero (units_lt_above 0)).elim
  · rw [lt_eq place?_zero hn, Ne, units_lt_units] at hzero
    rw [same_eq place?_zero hn, decide_eq_true_eq, Place.units.injEq]
    omega

theorem minusOne_lt (h : n.HasRoom) : (whole (-1)).lt n = true := by
  rcases h with hn | ⟨units, hn, _⟩
  · rw [lt_eq (place?_whole _) hn]
    exact units_lt_above _
  · have hone := four_hundred_le_one
    rw [lt_eq (place?_whole _) hn, units_lt_units]
    omega

/-- Above every number but infinity there is another. -/
theorem exists_gt_iff (h : n.HasRoom) :
    (∃ x, n.lt x = true) ↔ n ≠ real (.infinite false) := by
  constructor
  · rintro ⟨x, hx⟩ rfl
    obtain ⟨p, q, hp, _, hpq⟩ := places_of_lt hx
    obtain rfl : Place.above = p := Option.some.inj hp
    cases q <;> cases hpq
  · intro hfinite
    rcases h with hn | ⟨units, hn, _⟩
    · exact (hfinite (eq_infinite_of_place? hn)).elim
    · refine ⟨whole (units + 1), ?_⟩
      have hone : 0 < Binary64.one := Binary64.one_pos
      have hlt : units < (units + 1) * Binary64.one :=
        Nat.lt_of_lt_of_le (Nat.lt_succ_self units) (Nat.le_mul_of_pos_right _ hone)
      rw [lt_eq hn (place?_whole _), units_lt_units]
      exact_mod_cast hlt

/-- There is a number between zero and every number above it. -/
theorem exists_between_iff (h : n.HasRoom) :
    (∃ x, (whole 0).lt x = true ∧ x.lt n = true) ↔ (whole 0).lt n = true := by
  constructor
  · rintro ⟨x, hx, hxn⟩
    exact lt_trans hx hxn
  · intro hpos
    refine ⟨smallest, ?_, ?_⟩
    · rw [lt_eq place?_zero place?_smallest, units_lt_units]
      exact Int.one_pos
    · rcases h with hn | ⟨units, hn, hne⟩
      · rw [lt_eq place?_smallest hn]
        exact units_lt_above 1
      · rw [lt_eq place?_zero hn, units_lt_units] at hpos
        rw [lt_eq place?_smallest hn, units_lt_units]
        omega

end HasRoom

end Number

end Cardfolio
