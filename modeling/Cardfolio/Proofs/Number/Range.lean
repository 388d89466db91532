import Cardfolio.Number.Basic
import Cardfolio.Proofs.Number.Rounding
import Cardfolio.Proofs.Settles
import Mathlib.Tactic.Ring

/-!
# Arithmetic that stays in range

Doubles take every result: what lies beyond the largest of them goes to infinity. Only a
whole number can be too large, where it has to become a double, and only a quotient of
two whole numbers. Both fail at the same limit, 2¹⁰²⁴ − 2⁹⁷⁰, which lies halfway
between the largest double and the next one there would be. The next one would have the
even significand, so at the limit itself rounding already goes beyond the doubles.

So the size of a number is counted as far as it can do harm: for a whole number its
magnitude, for a double nothing. Sums and differences are no larger than their
operands together, and an operation that has no result overflows because the operands
together reach the limit.
-/

namespace Cardfolio

namespace Binary64

/-- The least magnitude that is too large for a double: 2¹⁰²⁴ − 2⁹⁷⁰. -/
@[irreducible]
def limit : Nat := Nat.pow 2 1024 - Nat.pow 2 970

/-- The distance between the largest doubles. -/
@[irreducible]
def lastSpacing : Nat := Nat.pow 2 2045

theorem lastSpacing_eq : lastSpacing = 2 ^ 2045 :=
  Nat.eq_of_beq_eq_true (by decide +kernel)

theorem lastSpacing_pos : 0 < lastSpacing := by
  rw [lastSpacing_eq]
  apply Nat.two_pow_pos

theorem bound_eq : bound = 2 ^ 53 * lastSpacing :=
  Nat.eq_of_beq_eq_true (by decide +kernel)

/-- The limit is half a spacing short of where the doubles end. -/
theorem limit_eq : 2 * (limit * one) + lastSpacing = 2 * bound :=
  Nat.eq_of_beq_eq_true (by decide +kernel)

theorem spacing_eq_pow {q e : Nat} (hlow : 2 ^ 52 * 2 ^ e ≤ q) (hhigh : q < 2 ^ 53 * 2 ^ e) :
    spacing q = 2 ^ e := by
  rw [← Nat.pow_add] at hlow hhigh
  have hq : q ≠ 0 := Nat.ne_of_gt (Nat.lt_of_lt_of_le (Nat.two_pow_pos _) hlow)
  have hlog : q.log2 = 52 + e := by
    refine (Nat.log2_eq_iff hq).mpr ⟨hlow, ?_⟩
    rw [Nat.add_right_comm]
    exact hhigh
  rw [spacing, hlog, Nat.add_sub_cancel_left, Nat.pow_eq]

/-- Less than halfway from a whole number to the next is not rounded up. -/
theorem roundQuotient_lt {num den k : Nat} (h : 2 * num + den < 2 * (k * den)) :
    roundQuotient num den < k := by
  have hden : 0 < den := Nat.pos_of_ne_zero fun h0 => by
    rw [h0, Nat.mul_zero] at h
    exact Nat.not_lt_zero _ h
  have hquotient : num / den < k := (Nat.div_lt_iff_lt_mul hden).mpr (by omega)
  rcases Nat.lt_or_eq_of_le (Nat.succ_le_of_lt hquotient) with hlt | heq
  · exact Nat.lt_of_le_of_lt (roundQuotient_le num den) hlt
  · have hrest : 2 * (num % den) < den := by
      have hdiv := Nat.div_add_mod num den
      have hexpand : k * den = den * (num / den) + den := by
        rw [← heq, Nat.succ_eq_add_one]
        ring
      omega
    unfold roundQuotient
    dsimp only
    rw [if_pos hrest]
    exact hquotient

/-- A fraction below the limit is nearest to a double. -/
theorem roundUnits_lt_bound {num den : Nat} (h : num < limit * den) :
    roundUnits (num * one) den < bound := by
  have hden : 0 < den := Nat.pos_of_ne_zero fun h0 => by
    rw [h0, Nat.mul_zero] at h
    exact Nat.not_lt_zero _ h
  have hnum : num * one < limit * one * den := by
    rw [Nat.mul_right_comm]
    exact Nat.mul_lt_mul_of_pos_right h one_pos
  have hquotient : num * one / den < limit * one := (Nat.div_lt_iff_lt_mul hden).mpr hnum
  have hlimit := limit_eq
  rcases Nat.lt_or_ge (num * one / den) (2 ^ 52 * lastSpacing) with hsmall | hlarge
  · have hround := roundUnits_le (num * one) den
    have hspacing := spacing_le (num * one / den)
    have hroom : 16 < lastSpacing := Nat.le_of_ble_eq_true (by decide +kernel)
    rw [bound_eq]
    omega
  · have htop : spacing (num * one / den) = lastSpacing := by
      have hhigh : num * one / den < 2 ^ 53 * lastSpacing := by
        rw [← bound_eq]
        omega
      rw [lastSpacing_eq] at hlarge hhigh ⊢
      exact spacing_eq_pow hlarge hhigh
    have hround : roundQuotient (num * one) (den * lastSpacing) < 2 ^ 53 := by
      refine roundQuotient_lt ?_
      calc 2 * (num * one) + den * lastSpacing
          < 2 * (limit * one * den) + den * lastSpacing := by omega
        _ = (2 * (limit * one) + lastSpacing) * den := by ring
        _ = 2 * (2 ^ 53 * (den * lastSpacing)) := by rw [hlimit, bound_eq]; ring
    rw [roundUnits, htop, bound_eq]
    exact Nat.mul_lt_mul_of_pos_right hround lastSpacing_pos

/-- At least halfway from a whole number to the next, which is even, is rounded up. -/
theorem le_roundQuotient_of_even {num den k : Nat} (hden : 0 < den) (hk : k % 2 = 0)
    (h : 2 * (k * den) ≤ 2 * num + den) : k ≤ roundQuotient num den := by
  rcases Nat.lt_or_ge (num / den) k with hlt | hge
  · obtain ⟨j, rfl⟩ := Nat.exists_eq_add_one.mpr (Nat.zero_lt_of_lt hlt)
    have hexpand : (j + 1) * den = j * den + den := by ring
    have hquotient : num / den = j :=
      Nat.le_antisymm (Nat.le_of_lt_succ hlt) ((Nat.le_div_iff_mul_le hden).mpr (by omega))
    have hdiv : j * den + num % den = num := by
      rw [← hquotient, Nat.mul_comm]
      exact Nat.div_add_mod num den
    unfold roundQuotient
    dsimp only
    rw [hquotient]
    repeat' split
    all_goals omega
  · exact Nat.le_trans hge (le_roundQuotient num den)

/-- Where the doubles end is a power of two, and rounding does not fall below one. -/
theorem exists_bound_eq_pow : ∃ e, bound = 2 ^ (52 + e) :=
  ⟨2046, Nat.eq_of_beq_eq_true (by decide +kernel)⟩

theorem pow_le_roundUnits {num den e : Nat} (h : 2 ^ (52 + e) ≤ num / den) :
    2 ^ (52 + e) ≤ roundUnits num den := by
  have hne : num / den ≠ 0 := Nat.ne_of_gt (Nat.lt_of_lt_of_le (Nat.two_pow_pos _) h)
  have hlog : 52 + e ≤ (num / den).log2 := (Nat.le_log2 hne).mpr h
  have hspacing : spacing (num / den) = 2 ^ ((num / den).log2 - 52) := by
    rw [spacing, Nat.pow_eq]
  have hmul : 2 ^ 52 * spacing (num / den) = 2 ^ (num / den).log2 := by
    rw [hspacing, ← Nat.pow_add]
    congr 1
    omega
  have hquotient : 2 ^ 52 ≤ num / den / spacing (num / den) := by
    rw [Nat.le_div_iff_mul_le (hspacing ▸ Nat.two_pow_pos _), hmul]
    exact Nat.log2_self_le hne
  have hround := le_roundQuotient num (den * spacing (num / den))
  rw [← Nat.div_div_eq_div_mul] at hround
  calc 2 ^ (52 + e) ≤ 2 ^ (num / den).log2 := Nat.pow_le_pow_right (by decide) hlog
    _ = 2 ^ 52 * spacing (num / den) := hmul.symm
    _ ≤ roundUnits num den := Nat.mul_le_mul_right _ (Nat.le_trans hquotient hround)

/-- A fraction from the limit on is nearest to no double. -/
theorem bound_le_roundUnits {num den : Nat} (hden : 0 < den) (h : limit * den ≤ num) :
    bound ≤ roundUnits (num * one) den := by
  have hnum : limit * one * den ≤ num * one := by
    rw [Nat.mul_right_comm]
    exact Nat.mul_le_mul_right one h
  have hquotient : limit * one ≤ num * one / den := (Nat.le_div_iff_mul_le hden).mpr hnum
  have hlimit := limit_eq
  have hlow : 2 ^ 52 * lastSpacing ≤ num * one / den := by
    have hbound := bound_eq
    generalize bound = top at hlimit hbound
    omega
  rcases Nat.lt_or_ge (num * one / den) bound with hsmall | hlarge
  · have htop : spacing (num * one / den) = lastSpacing := by
      rw [bound_eq] at hsmall
      rw [lastSpacing_eq] at hlow hsmall ⊢
      exact spacing_eq_pow hlow hsmall
    have hround : 2 ^ 53 ≤ roundQuotient (num * one) (den * lastSpacing) := by
      refine le_roundQuotient_of_even (Nat.mul_pos hden lastSpacing_pos) (by decide) ?_
      calc 2 * (2 ^ 53 * (den * lastSpacing))
          = (2 * (limit * one) + lastSpacing) * den := by rw [hlimit, bound_eq]; ring
        _ = 2 * (limit * one * den) + den * lastSpacing := by ring
        _ ≤ 2 * (num * one) + den * lastSpacing := by omega
    rw [roundUnits, htop, bound_eq]
    exact Nat.mul_le_mul_right _ hround
  · obtain ⟨e, hpow⟩ := exists_bound_eq_pow
    rw [hpow] at hlarge ⊢
    exact pow_le_roundUnits hlarge

/-- The doubles end at the limit. -/
theorem roundUnits_lt_bound_iff {num den : Nat} (hden : 0 < den) :
    roundUnits (num * one) den < bound ↔ num < limit * den := by
  refine ⟨fun h => Nat.lt_of_not_le fun hle => ?_, roundUnits_lt_bound⟩
  exact Nat.not_lt_of_le (bound_le_roundUnits hden hle) h

theorem nearest_eq_infinite_iff {negative sign : Bool} {num den : Nat} (hden : 0 < den) :
    nearest negative num den = .infinite sign ↔ negative = sign ∧ limit * den ≤ num := by
  rw [← Nat.not_lt, ← roundUnits_lt_bound_iff hden]
  unfold nearest nearestUnits
  split
  · next hlt => exact iff_of_false (fun h => by cases h) fun h => h.2 hlt
  · next hnot => exact ⟨fun h => ⟨Binary64.infinite.inj h, hnot⟩, fun h => congrArg _ h.1⟩

theorem nearest_eq_of_lt (negative : Bool) {num den : Nat} (h : num < limit * den) :
    ∃ units hr, nearest negative num den = .finite negative units hr := by
  unfold nearest nearestUnits
  rw [dif_pos (roundUnits_lt_bound h)]
  exact ⟨_, _, rfl⟩

end Binary64

namespace Number

/-- How large a number is, as far as it can be too large: doubles never are. -/
def size : Number → Nat
  | whole n => n.natAbs
  | real _ => 0

theorem toReal_settles (n : Number) :
    Settles (Binary64.limit ≤ n.size) False (fun _ => True) n.toReal := by
  cases n with
  | real x => exact .value trivial
  | whole n =>
      rw [toReal]
      cases hn : Binary64.ofInt? n with
      | some x => exact .value trivial
      | none =>
          refine .overflow (Nat.le_of_not_lt fun hlt => ?_)
          have hlt' : n.natAbs < Binary64.limit * 1 := Nat.lt_of_lt_of_eq hlt (Nat.mul_one _).symm
          obtain ⟨units, hr, hnearest⟩ := Binary64.nearest_eq_of_lt (n < 0) hlt'
          rw [Binary64.ofInt?, hnearest] at hn
          cases hn

/-- Two operands become doubles for an operation on doubles. -/
theorem reals_settles {α : Type} (m n : Number) {f : Binary64 → Binary64 → α} {p : α → Prop}
    (hp : ∀ x y, p (f x y)) :
    Settles (Binary64.limit ≤ m.size + n.size) False p
      (do return f (← m.toReal) (← n.toReal)) := by
  refine ((toReal_settles m).mono (Nat.le_add_right_of_le) id fun _ h => h).bind fun x _ _ => ?_
  refine ((toReal_settles n).mono (Nat.le_add_left_of_le) id fun _ h => h).bind fun y _ _ => ?_
  exact .value (hp x y)

theorem add_settles (m n : Number) :
    Settles (Binary64.limit ≤ m.size + n.size) False (fun k => k.size ≤ m.size + n.size)
      (m.add n) := by
  cases m with
  | real _ => exact reals_settles _ _ fun _ _ => Nat.zero_le _
  | whole i =>
      cases n with
      | real _ => exact reals_settles _ _ fun _ _ => Nat.zero_le _
      | whole j => exact .value (Int.natAbs_add_le i j)

theorem sub_settles (m n : Number) :
    Settles (Binary64.limit ≤ m.size + n.size) False (fun k => k.size ≤ m.size + n.size)
      (m.sub n) := by
  cases m with
  | real _ => exact reals_settles _ _ fun _ _ => Nat.zero_le _
  | whole i =>
      cases n with
      | real _ => exact reals_settles _ _ fun _ _ => Nat.zero_le _
      | whole j => exact .value (Int.natAbs_sub_le i j)

theorem div_whole_settles {i j : Int} (hj : j ≠ 0) :
    Settles (Binary64.limit ≤ i.natAbs) False (fun _ => True) ((whole i).div (whole j)) := by
  have hfinite : i.natAbs < Binary64.limit →
      ∃ units hr, Binary64.nearest ((i < 0) ^^ (j < 0)) i.natAbs j.natAbs =
        .finite ((i < 0) ^^ (j < 0)) units hr := fun hlt =>
    Binary64.nearest_eq_of_lt _
      (Nat.lt_of_lt_of_le hlt (Nat.le_mul_of_pos_right _ (Int.natAbs_pos.mpr hj)))
  -- The rounding is hidden behind a name, since nothing ends that starts to compute it here.
  obtain ⟨nearest, hname⟩ : ∃ f, f = Binary64.nearest := ⟨_, rfl⟩
  rw [← hname] at hfinite
  rw [div.eq_def, ← hname]
  dsimp only
  cases hquotient : nearest ((i < 0) ^^ (j < 0)) i.natAbs j.natAbs with
  | nan => exact .value trivial
  | finite _ _ _ => exact .value trivial
  | infinite _ =>
      refine .overflow (Nat.le_of_not_lt fun hlt => ?_)
      obtain ⟨units, hr, h⟩ := hfinite hlt
      rw [hquotient] at h
      cases h

theorem div_settles (m : Number) {n : Number} (hn : n.isZero = false) :
    Settles (Binary64.limit ≤ m.size + n.size) False (fun _ => True) (m.div n) := by
  cases m with
  | real _ => exact reals_settles _ _ fun _ _ => trivial
  | whole i =>
      cases n with
      | real _ => exact reals_settles _ _ fun _ _ => trivial
      | whole j =>
          have hj : j ≠ 0 := beq_eq_false_iff_ne.mp hn
          exact (div_whole_settles hj).mono Nat.le_add_right_of_le id fun _ h => h

/-- The size of numbers together. -/
def sizes (numbers : List Number) : Nat :=
  (numbers.map size).sum

@[simp] theorem sizes_cons (n : Number) (rest : List Number) :
    sizes (n :: rest) = n.size + sizes rest := by
  rw [sizes, List.map_cons, List.sum_cons, sizes]

/-- A running total is no larger than where it began and what was added. -/
theorem foldlM_add_settles (numbers : List Number) (start : Number) :
    Settles (Binary64.limit ≤ start.size + sizes numbers) False
      (fun total => total.size ≤ start.size + sizes numbers) (numbers.foldlM add start) := by
  induction numbers generalizing start with
  | nil => exact .value (Nat.le_add_right _ _)
  | cons n rest ih =>
      rw [List.foldlM_cons, sizes_cons]
      refine ((add_settles start n).mono (by omega) id fun _ h => h).bind fun k _ hk => ?_
      refine (ih k).mono (by omega) id fun total htotal => ?_
      omega

theorem sum_settles (numbers : List Number) :
    Settles (Binary64.limit ≤ sizes numbers) False (fun total => total.size ≤ sizes numbers)
      (sum numbers) := by
  have h := foldlM_add_settles numbers (whole 0)
  rw [show (whole 0).size + sizes numbers = sizes numbers from Nat.zero_add _] at h
  exact h

end Number

end Cardfolio
