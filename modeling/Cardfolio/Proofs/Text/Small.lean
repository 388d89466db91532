import Cardfolio.Text.Case

/-!
# What lower-casing leaves

Lower-casing is done once, and doing it again changes nothing. The reason is in the
table of small forms: the code points it leads to are none of those it leads away
from. The table consists of runs, so this is a statement about pairs of runs, and
`CaseRun.avoids` checks it with the ends and the steps of the two alone.

What is left is made of small letters and of characters without case. There an
ASCII letter that is recognised without regard to case has the expected form, with
two exceptions: the long s and the dotless i are small letters, and stand for an s
and an i all the same. Both are left only where they stood before.
-/

namespace Cardfolio.Text

/-- A character that is its own small form, wherever it stands. -/
structure IsSmall (c : Char) : Prop where
  not_sigma : c ≠ 'Σ'
  not_dotted : c ≠ 'İ'
  toSmall_eq : toSmall c = c

/-- The small letters that stand for another one when case is ignored. -/
def strayLetters : List Char := ['ſ', 'ı']

/-- Whether the code points to which one run leads are none of those that another one
holds. -/
def CaseRun.avoids (r s : CaseRun) : Bool :=
  Nat.blt (r.image + (r.last - r.first)) s.first || Nat.blt s.last r.image ||
    (Nat.beq s.step 2 && (Nat.beq r.step 2 || Nat.beq r.first r.last) &&
      Nat.beq ((r.image + s.first) % 2) 1)

theorem smallForms_avoid : smallForms.all (fun r => smallForms.all r.avoids) = true := by
  decide +kernel

/-- Nothing leads to a stray letter or to the dotted capital I. -/
theorem smallForms_avoid_stray : ∀ r ∈ smallForms,
    r.avoids ⟨304, 305, 1, 304⟩ = true ∧ r.avoids ⟨383, 383, 1, 383⟩ = true := by
  decide +kernel

/-- The table leads to characters outside ASCII, and from the sign for kelvin to k. -/
theorem smallForms_image : ∀ r ∈ smallForms,
    (r.image + (r.last - r.first) < 0xd800 ∨
      0xdfff < r.image ∧ r.image + (r.last - r.first) < 0x110000) ∧
      (128 ≤ r.image ∨ r.first = r.last ∧ r.image = 107) := by
  decide +kernel

theorem CaseRun.carry?_eq_some {r : CaseRun} {m n : Nat} (h : r.carry? m = some n) :
    r.first ≤ m ∧ m ≤ r.last ∧ (m - r.first) % r.step = 0 ∧ n = r.image + (m - r.first) := by
  unfold carry? at h
  split at h
  · next hheld =>
      simp only [Bool.and_eq_true, decide_eq_true_eq, beq_iff_eq] at hheld
      exact ⟨hheld.1.1, hheld.1.2, hheld.2, (Option.some.inj h).symm⟩
  · cases h

theorem CaseRun.carry?_eq_none_of_avoids {r s : CaseRun} (h : r.avoids s = true) {m n : Nat}
    (hcarry : r.carry? m = some n) : s.carry? n = none := by
  obtain ⟨hfirst, hlast, hstep, rfl⟩ := carry?_eq_some hcarry
  simp only [avoids, Bool.or_eq_true, Bool.and_eq_true, Nat.blt_eq, Nat.beq_eq] at h
  unfold carry?
  rw [if_neg]
  simp only [Bool.and_eq_true, decide_eq_true_eq, beq_iff_eq, not_and]
  intro hs
  rcases h with (h | h) | ⟨⟨hstep', hr⟩, hparity⟩
  · omega
  · omega
  · rw [hstep']
    rcases hr with hr | hr
    · rw [hr] at hstep
      omega
    · omega

theorem exists_run_of_carry? {c d : Char} (h : carry? smallForms c = some d) :
    ∃ r ∈ smallForms, r.carry? c.toNat = some d.toNat := by
  unfold carry? at h
  obtain ⟨n, hn, rfl⟩ := Option.map_eq_some_iff.mp h
  obtain ⟨r, hr, hcarry⟩ := List.exists_of_findSome?_eq_some hn
  refine ⟨r, hr, ?_⟩
  obtain ⟨_, _, _, rfl⟩ := CaseRun.carry?_eq_some hcarry
  have hvalid : (r.image + (c.toNat - r.first)).isValidChar := by
    have := (smallForms_image r hr).1
    unfold Nat.isValidChar
    omega
  rw [hcarry, Char.ofNat, dif_pos hvalid]
  rfl

theorem carry?_eq_none_of_carry? {c d : Char} (h : carry? smallForms c = some d) :
    carry? smallForms d = none := by
  obtain ⟨r, hr, hcarry⟩ := exists_run_of_carry? h
  unfold carry?
  rw [Option.map_eq_none_iff, List.findSome?_eq_none_iff]
  intro s hs
  have havoid := List.all_eq_true.mp (List.all_eq_true.mp smallForms_avoid r hr) s hs
  exact CaseRun.carry?_eq_none_of_avoids havoid hcarry

/-- Outside ASCII a small form is the character itself, or a run of the table leads to it. -/
theorem toSmall_eq_or_exists_run {c : Char} (h : 128 ≤ c.toNat) :
    toSmall c = c ∨ ∃ r ∈ smallForms, r.carry? c.toNat = some (toSmall c).toNat := by
  have hcarried : toSmall c = (carry? smallForms c).getD c := if_neg (Nat.not_lt.mpr h)
  cases hcarry : carry? smallForms c with
  | none =>
      left
      rw [hcarried, hcarry, Option.getD_none]
  | some d =>
      right
      rw [hcarried, hcarry, Option.getD_some]
      exact exists_run_of_carry? hcarry

/-- Where no run leads, only what was there before is found. -/
theorem toSmall_eq_of_avoids {c : Char} {first last : Nat}
    (havoid : ∀ r ∈ smallForms, r.avoids ⟨first, last, 1, first⟩ = true) (hc : 128 ≤ c.toNat)
    (hfirst : first ≤ (toSmall c).toNat) (hlast : (toSmall c).toNat ≤ last) : toSmall c = c := by
  rcases toSmall_eq_or_exists_run hc with h | ⟨r, hr, hrun⟩
  · exact h
  · have hnone := CaseRun.carry?_eq_none_of_avoids (havoid r hr) hrun
    simp [CaseRun.carry?, hfirst, hlast, Nat.mod_one] at hnone

/-! ## Single characters -/

theorem isAlpha_iff {c : Char} :
    c.isAlpha = true ↔ 65 ≤ c.toNat ∧ c.toNat ≤ 90 ∨ 97 ≤ c.toNat ∧ c.toNat ≤ 122 := by
  show (decide (c.val ≥ 'A'.val ∧ c.val ≤ 'Z'.val) ||
    decide (c.val ≥ 'a'.val) && decide (c.val ≤ 'z'.val)) = true ↔ _
  simp only [Bool.or_eq_true, Bool.and_eq_true, decide_eq_true_eq, ge_iff_le,
    UInt32.le_iff_toNat_le]
  exact Iff.rfl

theorem isLower_iff {c : Char} : c.isLower = true ↔ 97 ≤ c.toNat ∧ c.toNat ≤ 122 := by
  show (decide (c.val ≥ 'a'.val) && decide (c.val ≤ 'z'.val)) = true ↔ _
  simp only [Bool.and_eq_true, decide_eq_true_eq, ge_iff_le, UInt32.le_iff_toNat_le]
  exact Iff.rfl

theorem toSmall_ascii : ∀ n < 128, (Char.ofNat n).toLower.toNat < 128 ∧
    (Char.ofNat n).toLower.toLower = (Char.ofNat n).toLower := by
  decide

theorem toSmall_of_lt {c : Char} (h : c.toNat < 128) :
    (toSmall c).toNat < 128 ∧ toSmall (toSmall c) = toSmall c := by
  have hc : toSmall c = c.toLower := if_pos h
  have := toSmall_ascii c.toNat h
  rw [Char.ofNat_toNat] at this
  rw [hc]
  exact ⟨this.1, (if_pos this.1).trans this.2⟩

theorem toSmall_toSmall (c : Char) : toSmall (toSmall c) = toSmall c := by
  by_cases h : c.toNat < 128
  · exact (toSmall_of_lt h).2
  · have hc : toSmall c = (carry? smallForms c).getD c := if_neg h
    cases hcarry : carry? smallForms c with
    | none => rw [hc, hcarry, Option.getD_none, hc, hcarry, Option.getD_none]
    | some d =>
        rw [hc, hcarry, Option.getD_some]
        unfold toSmall
        split
        · next hd =>
            obtain ⟨r, hr, hrun⟩ := exists_run_of_carry? hcarry
            obtain ⟨_, _, _, hdr⟩ := CaseRun.carry?_eq_some hrun
            have hk : d.toNat = 107 := by
              have := (smallForms_image r hr).2
              omega
            rw [← Char.ofNat_toNat d, hk]
            rfl
        · rw [carry?_eq_none_of_carry? hcarry, Option.getD_none]

/-- The long s, the dotless i and the dotted capital I are the small form of no
other character. -/
theorem eq_of_toSmall_eq {c d : Char} (hd : d ∈ 'İ' :: strayLetters) (h : toSmall c = d) :
    c = d := by
  simp only [strayLetters, List.mem_cons, List.not_mem_nil, or_false] at hd
  by_cases hc : c.toNat < 128
  · have hlt := (toSmall_of_lt hc).1
    rw [h] at hlt
    rcases hd with rfl | rfl | rfl <;> exact absurd hlt (by decide)
  · have hc := Nat.not_lt.mp hc
    suffices hstay : toSmall c = c from hstay.symm.trans h
    rcases hd with rfl | rfl | rfl
    · refine toSmall_eq_of_avoids (fun r hr => (smallForms_avoid_stray r hr).1) hc ?_ ?_
      · rw [h]
        decide
      · rw [h]
        decide
    · refine toSmall_eq_of_avoids (fun r hr => (smallForms_avoid_stray r hr).2) hc ?_ ?_
      · rw [h]
        decide
      · rw [h]
        decide
    · refine toSmall_eq_of_avoids (fun r hr => (smallForms_avoid_stray r hr).1) hc ?_ ?_
      · rw [h]
        decide
      · rw [h]
        decide

theorem isSmall_toSmall {c : Char} (h : c ≠ 'İ') : IsSmall (toSmall c) := by
  refine ⟨fun hsigma => ?_, fun hdotted => h (eq_of_toSmall_eq List.mem_cons_self hdotted),
    toSmall_toSmall c⟩
  have := toSmall_toSmall c
  rw [hsigma] at this
  exact absurd this (by decide)

theorem isSmall_of_lt {c : Char} (h : c.toNat < 65) : IsSmall c := by
  refine ⟨?_, ?_, ?_⟩
  · rintro rfl
    exact absurd h (by decide)
  · rintro rfl
    exact absurd h (by decide)
  · have hA : 'A'.val.toNat = 65 := rfl
    have hc : c.toNat = c.val.toNat := rfl
    unfold toSmall Char.toLower
    rw [if_pos (by omega), dif_neg]
    simp only [ge_iff_le, UInt32.le_iff_toNat_le, not_and]
    omega

theorem toSmall_ascii_of_lt : ∀ n < 128, (Char.ofNat n).toLower.toNat < 65 →
    (Char.ofNat n).toLower = Char.ofNat n := by
  decide

/-- Nothing else becomes a character in front of the letters. -/
theorem toSmall_eq_of_lt {c : Char} (h : (toSmall c).toNat < 65) : toSmall c = c := by
  by_cases hc : c.toNat < 128
  · have hlower : toSmall c = c.toLower := if_pos hc
    have hascii := toSmall_ascii_of_lt c.toNat hc
    rw [Char.ofNat_toNat, ← hlower] at hascii
    exact hascii h
  · rcases toSmall_eq_or_exists_run (Nat.not_lt.mp hc) with hstay | ⟨r, hr, hrun⟩
    · exact hstay
    · obtain ⟨_, _, _, hcode⟩ := CaseRun.carry?_eq_some hrun
      have himage := (smallForms_image r hr).2
      omega

/-! ## Texts -/

theorem mem_lowerBetween {before after : List Char} {c d : Char}
    (h : d ∈ lowerBetween before c after) :
    IsSmall d ∧ (d ∈ strayLetters → d = c) := by
  unfold lowerBetween at h
  split at h
  · have hd : d = 'ς' ∨ d = 'σ' := by
      split at h
      · exact Or.inl (List.mem_singleton.mp h)
      · exact Or.inr (List.mem_singleton.mp h)
    rcases hd with rfl | rfl
    · exact ⟨⟨by decide, by decide, by decide⟩, fun h => absurd h (by decide)⟩
    · exact ⟨⟨by decide, by decide, by decide⟩, fun h => absurd h (by decide)⟩
  · split at h
    · simp only [List.mem_cons, List.not_mem_nil, or_false] at h
      rcases h with rfl | rfl
      · exact ⟨⟨by decide, by decide, by decide⟩, fun h => absurd h (by decide)⟩
      · exact ⟨⟨by decide, by decide, by decide⟩, fun h => absurd h (by decide)⟩
    · next hdotted =>
        obtain rfl := List.mem_singleton.mp h
        exact ⟨isSmall_toSmall hdotted, fun hstray =>
          (eq_of_toSmall_eq (List.mem_cons_of_mem _ hstray) rfl).symm⟩

theorem mem_lowerAfter {before cs : List Char} {d : Char} (h : d ∈ lowerAfter before cs) :
    IsSmall d ∧ (d ∈ strayLetters → d ∈ cs) := by
  induction cs generalizing before with
  | nil => cases h
  | cons c cs ih =>
      rw [lowerAfter, List.mem_append] at h
      rcases h with h | h
      · obtain ⟨hsmall, hstray⟩ := mem_lowerBetween h
        exact ⟨hsmall, fun hd => hstray hd ▸ List.mem_cons_self⟩
      · obtain ⟨hsmall, hstray⟩ := ih h
        exact ⟨hsmall, fun hd => List.mem_cons_of_mem _ (hstray hd)⟩

/-- A class of characters that nothing gets into by being made small. -/
structure StaysOut (p : Char → Bool) : Prop where
  toSmall : ∀ c, p c = false → p (toSmall c) = false
  special : ∀ d ∈ ['ς', 'σ', 'i', '\u0307'], p d = false

theorem StaysOut.of_mem_lowerBetween {p : Char → Bool} (hp : StaysOut p) {before after : List Char}
    {c d : Char} (hc : p c = false) (h : d ∈ lowerBetween before c after) : p d = false := by
  unfold lowerBetween at h
  split at h
  · refine hp.special d ?_
    split at h
    · rw [List.mem_singleton.mp h]
      decide
    · rw [List.mem_singleton.mp h]
      decide
  · split at h
    · refine hp.special d ?_
      simp only [List.mem_cons, List.not_mem_nil, or_false] at h
      rcases h with rfl | rfl
      · decide
      · decide
    · rw [List.mem_singleton.mp h]
      exact hp.toSmall c hc

theorem StaysOut.of_mem_lower {p : Char → Bool} (hp : StaysOut p) {cs : List Char}
    (h : ∀ c ∈ cs, p c = false) : ∀ d ∈ lower cs, p d = false := by
  suffices h : ∀ before, ∀ d ∈ lowerAfter before cs, p d = false from h []
  induction cs with
  | nil => exact fun _ _ hd => (List.not_mem_nil hd).elim
  | cons c cs ih =>
      obtain ⟨hc, hcs⟩ := List.forall_mem_cons.mp h
      intro before d hd
      rw [lowerAfter, List.mem_append] at hd
      exact hd.elim (hp.of_mem_lowerBetween hc) (ih hcs _ d)

theorem IsSmall.lowerBetween_eq {c : Char} (h : IsSmall c) (before after : List Char) :
    lowerBetween before c after = [c] := by
  unfold lowerBetween
  rw [if_neg h.not_sigma, if_neg h.not_dotted, h.toSmall_eq]

theorem lowerAfter_eq_self {before cs : List Char} (h : ∀ c ∈ cs, IsSmall c) :
    lowerAfter before cs = cs := by
  induction cs generalizing before with
  | nil => rfl
  | cons c cs ih =>
      obtain ⟨hc, hcs⟩ := List.forall_mem_cons.mp h
      rw [lowerAfter, hc.lowerBetween_eq, ih hcs]
      rfl

/-- Only the capital sigma and the dotted capital I depend on where they stand. -/
theorem lower_eq_map {cs : List Char} (h : ∀ c ∈ cs, c ≠ 'Σ' ∧ c ≠ 'İ') :
    lower cs = cs.map toSmall := by
  suffices ∀ before, lowerAfter before cs = cs.map toSmall from this []
  intro before
  induction cs generalizing before with
  | nil => rfl
  | cons c cs ih =>
      obtain ⟨hc, hcs⟩ := List.forall_mem_cons.mp h
      rw [lowerAfter, ih hcs, lowerBetween, if_neg hc.1, if_neg hc.2]
      rfl

theorem lower_eq_self {cs : List Char} (h : ∀ c ∈ cs, IsSmall c) : lower cs = cs :=
  lowerAfter_eq_self h

end Cardfolio.Text
