import Cardfolio.Number.Numeral
import Cardfolio.Proofs.Text.Ends
import Mathlib.Algebra.Group.Nat.Defs

/-!
# What digits spell

A numeral of digits, perhaps with a fraction behind a point, is read as the decimal
that it looks like. Signs, exponents, underscores and the words for what is no finite
number need characters that are not there, and each step of reading leaves the digits
as they are, except that digits of other scripts become those of ASCII.
-/

namespace Cardfolio.Numeral

open Text

/-- A fraction behind its point, and nothing if there is none. -/
def pointed : List Char → List Char
  | [] => []
  | digits => '.' :: digits

theorem pointed_cons (d : Char) (fs : List Char) : pointed (d :: fs) = '.' :: d :: fs := rfl

theorem mem_pointed {c : Char} {fs : List Char} (h : c ∈ pointed fs) : c = '.' ∨ c ∈ fs := by
  cases fs with
  | nil => cases h
  | cons d fs => exact List.mem_cons.mp h

theorem subset_pointed (fs : List Char) : fs ⊆ pointed fs := by
  cases fs with
  | nil => exact fun _ h => h
  | cons d fs => exact List.subset_cons_self '.' (d :: fs)

theorem digitValue?_lt {c : Char} {d : Nat} (h : digitValue? c = some d) : d < 10 := by
  unfold digitValue? at h
  dsimp only at h
  split at h
  · split at h
    · next hrange =>
        simp only [Bool.and_eq_true, decide_eq_true_eq] at hrange
        have := Option.some.inj h
        omega
    · cases h
  · obtain ⟨first, hfirst, rfl⟩ := Option.map_eq_some_iff.mp h
    have := List.find?_some hfirst
    simp only [Bool.and_eq_true, decide_eq_true_eq] at this
    omega

theorem isDigit_ofNat : ∀ d < 10, (Char.ofNat (48 + d)).isDigit = true := by
  decide

theorem isDigit_plainDigit {c : Char} (h : isDecimalDigit c = true) :
    (plainDigit c).isDigit = true := by
  obtain ⟨d, hd⟩ := Option.isSome_iff_exists.mp h
  unfold plainDigit
  rw [hd]
  exact isDigit_ofNat d (digitValue?_lt hd)

theorem isDigit_iff {c : Char} : c.isDigit = true ↔ 48 ≤ c.toNat ∧ c.toNat ≤ 57 := by
  simp only [Char.isDigit, Bool.and_eq_true, decide_eq_true_eq, ge_iff_le, UInt32.le_iff_toNat_le]
  exact Iff.rfl

theorem digitValue?_of_isDigit {c : Char} (h : c.isDigit = true) :
    digitValue? c = some (c.toNat - 48) := by
  have := isDigit_iff.mp h
  unfold digitValue?
  dsimp only
  rw [if_pos (by omega), if_pos (by simp [this])]

theorem isDecimalDigit_of_isDigit {c : Char} (h : c.isDigit = true) :
    isDecimalDigit c = true := by
  rw [isDecimalDigit, digitValue?_of_isDigit h]
  rfl

theorem plainDigit_of_isDigit {c : Char} (h : c.isDigit = true) : plainDigit c = c := by
  have := isDigit_iff.mp h
  unfold plainDigit
  rw [digitValue?_of_isDigit h]
  show Char.ofNat (48 + (c.toNat - 48)) = c
  rw [Nat.add_sub_cancel' this.1, Char.ofNat_toNat]

theorem foldl_value (n : Nat) (ds : List Char) :
    ds.foldl (fun n c => 10 * n + (c.toNat - 48)) n = n * 10 ^ ds.length + value ds := by
  unfold value
  induction ds generalizing n with
  | nil => simp
  | cons c ds ih =>
      rw [List.foldl_cons, List.foldl_cons, ih, ih (10 * 0 + _), List.length_cons, Nat.pow_succ',
        Nat.mul_zero, Nat.zero_add, Nat.mul_left_comm, ← Nat.mul_assoc 10, ← Nat.add_assoc,
        ← Nat.add_mul]

theorem value_append (ds fs : List Char) :
    value (ds ++ fs) = value ds * 10 ^ fs.length + value fs := by
  rw [value, List.foldl_append, foldl_value]
  rfl

theorem value_cons (c : Char) (ds : List Char) :
    value (c :: ds) = (c.toNat - 48) * 10 ^ ds.length + value ds := by
  have hdigit : value [c] = c.toNat - 48 := by simp [value]
  rw [← hdigit, ← value_append, List.singleton_append]

theorem value_lt {ds : List Char} (h : ∀ c ∈ ds, c.isDigit = true) :
    value ds < 10 ^ ds.length := by
  induction ds with
  | nil => exact Nat.one_pos
  | cons c ds ih =>
      obtain ⟨hc, hds⟩ := List.forall_mem_cons.mp h
      have hrange := isDigit_iff.mp hc
      calc value (c :: ds) = (c.toNat - 48) * 10 ^ ds.length + value ds := value_cons c ds
        _ < (c.toNat - 48 + 1) * 10 ^ ds.length := by
            rw [Nat.add_mul, Nat.one_mul]
            exact Nat.add_lt_add_left (ih hds) _
        _ ≤ 10 * 10 ^ ds.length := Nat.mul_le_mul_right _ (by omega)
        _ = 10 ^ (c :: ds).length := by rw [List.length_cons, Nat.pow_succ']

theorem value_eq_zero {ds : List Char} (h : ∀ c ∈ ds, c = '0') : value ds = 0 := by
  unfold value
  induction ds with
  | nil => rfl
  | cons c ds ih =>
      obtain ⟨rfl, hds⟩ := List.forall_mem_cons.mp h
      exact ih hds

theorem value_ne_zero {ds : List Char} (h : ∀ c ∈ ds, c.isDigit = true)
    (hne : ∃ c ∈ ds, c ≠ '0') : value ds ≠ 0 := by
  induction ds with
  | nil =>
      obtain ⟨c, hc, _⟩ := hne
      cases hc
  | cons c ds ih =>
      obtain ⟨hc, hds⟩ := List.forall_mem_cons.mp h
      have hrange := isDigit_iff.mp hc
      have hpow : 0 < 10 ^ ds.length := Nat.pow_pos (by decide)
      rw [value_cons]
      obtain ⟨d, hd, hd0⟩ := hne
      rcases List.mem_cons.mp hd with rfl | hd
      · have hcode : d.toNat ≠ 48 := fun heq => hd0 (Char.ofNat_toNat d ▸ heq ▸ rfl)
        have hfirst : 0 < (d.toNat - 48) * 10 ^ ds.length := Nat.mul_pos (by omega) hpow
        omega
      · have hrest := ih hds ⟨d, hd, hd0⟩
        omega

/-- Digits in the same number are ordered like the numbers they spell. -/
theorem lt_iff_value_lt {ds fs : List Char} (hds : ∀ c ∈ ds, c.isDigit = true)
    (hfs : ∀ c ∈ fs, c.isDigit = true) (hlength : ds.length = fs.length) :
    ds < fs ↔ value ds < value fs := by
  induction ds generalizing fs with
  | nil =>
      obtain rfl := List.length_eq_zero_iff.mp hlength.symm
      exact iff_of_false (List.not_lt_nil []) (Nat.lt_irrefl _)
  | cons c ds ih =>
      cases fs with
      | nil => cases hlength
      | cons d fs =>
          obtain ⟨hc, hds⟩ := List.forall_mem_cons.mp hds
          obtain ⟨hd, hfs⟩ := List.forall_mem_cons.mp hfs
          have hlength : ds.length = fs.length := Nat.succ.inj hlength
          have hc := isDigit_iff.mp hc
          have hd := isDigit_iff.mp hd
          have hvalue := value_lt hds
          have hvalue' := value_lt hfs
          rw [List.cons_lt_cons_iff, ih hds hfs hlength, value_cons, value_cons, hlength]
          rw [hlength] at hvalue
          generalize 10 ^ fs.length = p at hvalue hvalue'
          rcases Nat.lt_trichotomy c.toNat d.toNat with hlt | heq | hgt
          · have hstep := Nat.mul_le_mul_right p (show c.toNat - 48 + 1 ≤ d.toNat - 48 by omega)
            rw [Nat.add_mul, Nat.one_mul] at hstep
            exact iff_of_true (Or.inl hlt) (by omega)
          · obtain rfl := Char.toNat_inj.mp heq
            have hirrefl : ¬ c < c := Nat.lt_irrefl _
            rw [Nat.add_lt_add_iff_left]
            exact ⟨fun h => (h.resolve_left hirrefl).2, fun h => Or.inr ⟨rfl, h⟩⟩
          · have hstep := Nat.mul_le_mul_right p (show d.toNat - 48 + 1 ≤ c.toNat - 48 by omega)
            rw [Nat.add_mul, Nat.one_mul] at hstep
            refine iff_of_false ?_ (by omega)
            rintro (hlt | ⟨rfl, _⟩)
            · exact Nat.lt_asymm hgt hlt
            · exact Nat.lt_irrefl _ hgt

/-! ## Reading -/

/-- The characters of a numeral without sign and exponent. -/
def IsPlain (c : Char) : Prop :=
  c = '.' ∨ c.isDigit = true

theorem IsPlain.toNat {c : Char} (h : IsPlain c) : 46 ≤ c.toNat ∧ c.toNat ≤ 57 := by
  rcases h with rfl | h
  · exact ⟨by decide, by decide⟩
  · have := isDigit_iff.mp h
    omega

theorem IsPlain.ne_sign {c : Char} (h : IsPlain c) : c ≠ '-' ∧ c ≠ '+' := by
  have hrange := h.toNat
  constructor
  · rintro rfl
    exact absurd hrange (by decide)
  · rintro rfl
    exact absurd hrange (by decide)

theorem IsPlain.isMargin_eq {c : Char} (h : IsPlain c) : isMargin c = false := by
  have := h.toNat
  unfold isMargin isBlank
  simp only [Bool.and_eq_false_iff, Bool.or_eq_false_iff, Bool.and_eq_false_iff,
    decide_eq_false_iff_not, beq_eq_false_iff_ne]
  omega

theorem IsPlain.toLower_eq {c : Char} (h : IsPlain c) : c.toLower = c := by
  have := h.toNat
  unfold Char.toLower
  rw [dif_neg]
  simp only [ge_iff_le, UInt32.le_iff_toNat_le, not_and]
  have hA : 'A'.val.toNat = 65 := rfl
  have hc : c.toNat = c.val.toNat := rfl
  omega

theorem joinDigits_eq_self {cs : List Char} (h : '_' ∉ cs) (afterDigit : Bool) :
    joinDigits afterDigit cs = some cs := by
  induction cs generalizing afterDigit with
  | nil => rfl
  | cons c cs ih =>
      rw [List.mem_cons, not_or] at h
      rw [joinDigits, if_neg (Ne.symm h.1), ih h.2]
      rfl

theorem splitSign_eq_self {cs : List Char} (hplus : '+' ∉ cs) (hminus : '-' ∉ cs) :
    splitSign cs = (false, cs) := by
  unfold splitSign
  split
  · exact (hminus List.mem_cons_self).elim
  · exact (hplus List.mem_cons_self).elim
  · rfl

/-- The sign of a numeral: a minus or nothing. -/
def minus (negative : Bool) : List Char :=
  if negative then ['-'] else []

theorem mem_minus {c : Char} {negative : Bool} (h : c ∈ minus negative) : c = '-' := by
  cases negative with
  | true => exact List.mem_singleton.mp h
  | false => cases h

theorem splitSign_minus_append {cs : List Char} (hplus : '+' ∉ cs) (hminus : '-' ∉ cs)
    (negative : Bool) : splitSign (minus negative ++ cs) = (negative, cs) := by
  cases negative with
  | true => rfl
  | false => exact splitSign_eq_self hplus hminus

/-- Of a numeral with digits and points only, nothing but these is read behind the sign. -/
theorem real?_eq_unsigned? (negative : Bool) {cs : List Char}
    (h : ∀ c ∈ cs.map plainDigit, IsPlain c) :
    real? (minus negative ++ cs) = unsigned? negative (cs.map plainDigit) := by
  have hnot : ∀ c, ¬ (46 ≤ c.toNat ∧ c.toNat ≤ 57) → c ∉ cs.map plainDigit :=
    fun c hc hmem => hc (h c hmem).toNat
  have hlower : (cs.map plainDigit).map Char.toLower = cs.map plainDigit :=
    (List.map_congr_left fun c hc => (h c hc).toLower_eq).trans (List.map_id _)
  have hword : ∀ w c, c ∈ w → ¬ (46 ≤ c.toNat ∧ c.toNat ≤ 57) → cs.map plainDigit ≠ w :=
    fun w c hw hc heq => hnot c hc (heq ▸ hw)
  have hmap : (minus negative ++ cs).map plainDigit = minus negative ++ cs.map plainDigit := by
    cases negative <;> rfl
  have htrimmed : IsTrimmed isMargin (minus negative ++ cs.map plainDigit) := by
    refine isTrimmed_of_forall fun c hc => ?_
    rcases List.mem_append.mp hc with hc | hc
    · rw [mem_minus hc]
      decide
    · exact (h c hc).isMargin_eq
  unfold real?
  rw [hmap, htrimmed.trim_eq_self,
    splitSign_minus_append (hnot '+' (by decide)) (hnot '-' (by decide))]
  dsimp only
  rw [hlower, if_neg, if_neg (hword _ 'n' (by decide) (by decide)),
    joinDigits_eq_self (hnot '_' (by decide))]
  · rfl
  · simp only [Bool.or_eq_true, decide_eq_true_eq, not_or]
    exact ⟨hword _ 'i' (by decide) (by decide), hword _ 'i' (by decide) (by decide)⟩

/-- The digits end at the first character that is none. -/
theorem takeWhile_isDigit {ds : List Char} (hds : ∀ c ∈ ds, c.isDigit = true) {c : Char}
    (hc : c.isDigit = false) (cs : List Char) :
    (ds ++ c :: cs).takeWhile Char.isDigit = ds ∧
      (ds ++ c :: cs).dropWhile Char.isDigit = c :: cs := by
  have hnot : ¬c.isDigit = true := Bool.eq_false_iff.mp hc
  constructor
  · rw [List.takeWhile_append_of_pos hds, List.takeWhile_cons_of_neg hnot, List.append_nil]
  · rw [List.dropWhile_append_of_pos hds, List.dropWhile_cons_of_neg hnot]

theorem unsigned?_pointed (negative : Bool) {ds fs : List Char}
    (hds : ∀ c ∈ ds, c.isDigit = true) (hfs : ∀ c ∈ fs, c.isDigit = true) (hne : ds ++ fs ≠ []) :
    unsigned? negative (ds ++ pointed fs)
      = some (.ofDecimal negative (value (ds ++ fs)) (-(fs.length : Int))) := by
  unfold unsigned?
  cases fs with
  | nil =>
      rw [pointed, List.append_nil] at *
      rw [List.takeWhile_eq_self_iff.mpr hds, List.dropWhile_eq_nil_iff.mpr hds]
      simp [hne, exponent?]
  | cons f fs =>
      have hpointed : ds ++ pointed (f :: fs) = ds ++ '.' :: f :: fs := rfl
      obtain ⟨hbefore, hrest⟩ := takeWhile_isDigit hds (c := '.') (by decide) (f :: fs)
      rw [hpointed, hbefore, hrest]
      have hafter := List.takeWhile_eq_self_iff.mpr hfs
      have htail := List.dropWhile_eq_nil_iff.mpr hfs
      simp [hafter, htail, exponent?]

/-- Digits of any script, perhaps with a sign and a fraction. -/
theorem real?_minus_pointed (negative : Bool) {ds fs : List Char}
    (hds : ∀ c ∈ ds, isDecimalDigit c = true) (hfs : ∀ c ∈ fs, isDecimalDigit c = true)
    (hne : ds ++ fs ≠ []) :
    real? (minus negative ++ (ds ++ pointed fs))
      = some (.ofDecimal negative (value ((ds ++ fs).map plainDigit)) (-(fs.length : Int))) := by
  have hplain : ∀ cs : List Char, (∀ c ∈ cs, isDecimalDigit c = true) →
      ∀ c ∈ cs.map plainDigit, c.isDigit = true := by
    intro cs hcs
    rw [List.forall_mem_map]
    exact fun c hc => isDigit_plainDigit (hcs c hc)
  have hpointed : (pointed fs).map plainDigit = pointed (fs.map plainDigit) := by
    cases fs with
    | nil => rfl
    | cons f fs => rfl
  rw [real?_eq_unsigned?, List.map_append, hpointed,
    unsigned?_pointed negative (hplain ds hds) (hplain fs hfs), ← List.map_append, List.length_map]
  · rw [← List.map_append]
    exact fun h => hne (List.map_eq_nil_iff.mp h)
  · intro c hc
    rw [List.map_append, hpointed] at hc
    rcases List.mem_append.mp hc with hc | hc
    · exact Or.inr (hplain ds hds c hc)
    · exact (mem_pointed hc).imp id (hplain fs hfs c)

theorem real?_pointed {ds fs : List Char} (hds : ∀ c ∈ ds, isDecimalDigit c = true)
    (hfs : ∀ c ∈ fs, isDecimalDigit c = true) (hne : ds ++ fs ≠ []) :
    real? (ds ++ pointed fs)
      = some (.ofDecimal false (value ((ds ++ fs).map plainDigit)) (-(fs.length : Int))) :=
  real?_minus_pointed false hds hfs hne

end Cardfolio.Numeral
