import Cardfolio.Proofs.Number.Room

/-!
# Settled numbers

An amount lies above zero, and it has the form of a whole number just when it is equal to one
(`IsAmount`). A double that is settled has this form, so all that is asked of it is that it is
positive. For a decimal without a sign this means that it is not read as zero.

In this form there is one way of giving a number: amounts that are equal in value are equal.
-/

namespace Cardfolio.Number

variable {a b n : Number} {x : Binary64} {k : Int}

/-- Above zero, and whole in form just when it is whole in value. -/
structure IsAmount (n : Number) : Prop where
  positive : (whole 0).lt n = true
  whole_iff : (∃ k, n = whole k) ↔ ∃ k, n.same (whole k) = true

theorem zero_lt_whole_iff : (whole 0).lt (whole k) = true ↔ 0 < k := by
  have hone : (0 : Int) < Binary64.one := Int.natCast_pos.mpr Binary64.one_pos
  rw [lt_eq place?_zero (place?_whole k), units_lt_units]
  constructor
  · intro h
    exact Int.lt_of_mul_lt_mul_right (by rwa [Int.zero_mul]) (Int.le_of_lt hone)
  · exact fun h => Int.mul_pos h hone

theorem zero_lt_real_iff : (whole 0).lt (real x) = true ↔
    x = .infinite false ∨ ∃ units hr, x = .finite false units hr ∧ 0 < units := by
  cases x with
  | nan =>
      constructor
      · exact Bool.noConfusion
      · intro h
        simp at h
  | infinite negative =>
      rw [lt_eq place?_zero rfl]
      cases negative with
      | true =>
          constructor
          · exact Bool.noConfusion
          · intro h
            simp at h
      | false => exact ⟨fun _ => Or.inl rfl, fun _ => rfl⟩
  | finite negative units hr =>
      rw [lt_eq place?_zero rfl, units_lt_units]
      cases negative with
      | true =>
          have hsigned : Binary64.signed true units = -(units : Int) := rfl
          constructor
          · intro hpos
            omega
          · intro h
            simp at h
      | false =>
          have hsigned : Binary64.signed false units = (units : Int) := rfl
          rw [hsigned, Int.natCast_pos]
          constructor
          · exact fun hpos => Or.inr ⟨units, hr, rfl, hpos⟩
          · rintro (h | ⟨_, _, h, hpos⟩)
            · cases h
            · cases h
              exact hpos

/-- A double without a sign is positive unless it is zero. -/
theorem zero_lt_real_of_isZero (hx : (∃ units hr, x = .finite false units hr) ∨ x = .infinite false)
    (hzero : x.isZero = false) : (whole 0).lt (real x) = true := by
  rw [zero_lt_real_iff]
  rcases hx with ⟨units, hr, rfl⟩ | rfl
  · refine Or.inr ⟨units, hr, rfl, Nat.pos_of_ne_zero ?_⟩
    simpa [Binary64.isZero] using hzero
  · exact Or.inl rfl

theorem zero_lt_nearestUnits {num den : Nat} (h : 0 < Binary64.roundUnits num den) :
    (whole 0).lt (real (.nearestUnits false num den)) = true := by
  rw [zero_lt_real_iff]
  unfold Binary64.nearestUnits
  split
  · next hbound =>
      exact Or.inr ⟨_, ⟨hbound, Binary64.spacing_roundUnits_dvd num den⟩, rfl, h⟩
  · exact Or.inl rfl

/-- A positive number times a large one is positive. -/
theorem zero_lt_mul (hx : (whole 0).lt (real x) = true) {units : Nat}
    {hr : Binary64.Representable units} (h : 4 * Binary64.one ≤ units) :
    (whole 0).lt (real (x.mul (.finite false units hr))) = true := by
  have hone := Binary64.one_pos
  rcases zero_lt_real_iff.mp hx with rfl | ⟨units', hr', rfl, hpos⟩
  · show (whole 0).lt (real (if units = 0 then .nan none else .infinite false)) = true
    rw [if_neg (by omega)]
    rfl
  · have hround := Binary64.two_le_roundUnits hone
      (Nat.le_trans h (Nat.le_mul_of_pos_left units hpos))
    exact zero_lt_nearestUnits (Nat.zero_lt_of_lt hround)

theorem isAmount_whole (h : 0 < k) : (whole k).IsAmount where
  positive := zero_lt_whole_iff.mpr h
  whole_iff := iff_of_true ⟨k, rfl⟩ ⟨k, same_self rfl⟩

/-- A double that is equal to a whole number is given as one. -/
theorem exists_settle_eq_whole (h : (settle x).same (whole k) = true) :
    ∃ j, settle x = whole j := by
  obtain ⟨p, hx, hk⟩ := place_of_same h
  rw [place?_settle] at hx
  obtain rfl := Option.some.inj ((place?_whole k).symm.trans hk)
  unfold settle
  cases x with
  | nan => cases hx
  | infinite negative => cases negative <;> cases hx
  | finite negative units hr =>
      have hunits : Binary64.signed negative units = k * Binary64.one :=
        Place.units.inj (Option.some.inj hx)
      have hdvd : (Binary64.one : Int) ∣ (units : Int) := by
        cases negative with
        | true => exact (Int.dvd_neg).mp ⟨k, by rw [Int.mul_comm]; exact hunits⟩
        | false => exact ⟨k, by rw [Int.mul_comm]; exact hunits⟩
      have hmod : units % Binary64.one = 0 :=
        Nat.mod_eq_zero_of_dvd (Int.natCast_dvd_natCast.mp hdvd)
      rw [Binary64.toInt?, if_pos hmod]
      exact ⟨_, rfl⟩

theorem isAmount_settle (h : (whole 0).lt (real x) = true) : (settle x).IsAmount where
  positive := by
    rw [lt, place?_settle]
    exact h
  whole_iff := by
    constructor
    · rintro ⟨k, hk⟩
      rw [hk]
      exact ⟨k, same_self rfl⟩
    · rintro ⟨k, hk⟩
      exact exists_settle_eq_whole hk

theorem eq_of_same_whole {j k : Int} (h : (whole j).same (whole k) = true) : j = k := by
  obtain ⟨p, hj, hk⟩ := place_of_same h
  have hplace : j * Binary64.one = k * Binary64.one :=
    Place.units.inj (Option.some.inj (hj.trans hk.symm))
  exact Int.eq_of_mul_eq_mul_right (Int.natCast_ne_zero.mpr (Nat.ne_of_gt Binary64.one_pos)) hplace

theorem IsAmount.eq_of_same_whole (h : n.IsAmount) (hsame : n.same (whole k) = true) :
    n = whole k := by
  obtain ⟨j, rfl⟩ := h.whole_iff.mpr ⟨k, hsame⟩
  rw [Number.eq_of_same_whole hsame]

theorem IsAmount.eq_of_same (ha : a.IsAmount) (hb : b.IsAmount) (h : a.same b = true) : a = b := by
  cases b with
  | whole k => exact ha.eq_of_same_whole h
  | real y =>
      cases a with
      | whole k => exact (hb.eq_of_same_whole (same_symm h)).symm
      | real x =>
          obtain ⟨p, hx, hy⟩ := place_of_same h
          rcases zero_lt_real_iff.mp ha.positive with rfl | ⟨units, hr, rfl, _⟩
          · obtain rfl := Option.some.inj hx
            exact (eq_infinite_of_place? hy).symm
          · rcases zero_lt_real_iff.mp hb.positive with rfl | ⟨units', hr', rfl, _⟩
            · cases hx.trans hy.symm
            · have hplace : (units : Int) = units' :=
                Place.units.inj (Option.some.inj (hx.trans hy.symm))
              obtain rfl := Int.ofNat.inj hplace
              rfl

theorem IsAmount.isNaN_eq (h : n.IsAmount) : n.isNaN = false := by
  obtain ⟨_, _, _, hn, _⟩ := places_of_lt h.positive
  rw [Bool.eq_false_iff, Ne, ← place?_eq_none_iff, hn]
  nofun

theorem IsAmount.ne_of_differ (ha : a.IsAmount) (h : a.same b = false) : a ≠ b := by
  rintro rfl
  rw [same_self ha.isNaN_eq] at h
  cases h

end Cardfolio.Number
