import Cardfolio.Proofs.Text.Ends
import Cardfolio.Proofs.Text.Words

/-!
# Signs in small letters

The characters in front of the letters, digits and signs among them, are their own small forms,
and nothing else has one of them as its small form. So a text in small letters has the same signs
in the same order, and what stands between them is not empty where it was not empty before. That
is all that the parts of a text depend on when it falls apart at everything but some signs.

A text can grow when it is lower-cased, but only by a letter and a mark, so that it has no more
digits than it had characters. The digits of other scripts are no small forms either, so a text
without digits of any script gets none.
-/

namespace Cardfolio.Text

variable {p : Char → Bool} {before after : List Char} {c d : Char}

theorem eq_of_mem_lowerBetween (h : d ∈ lowerBetween before c after) (hd : d.toNat < 65) :
    d = c := by
  unfold lowerBetween at h
  split at h
  · split at h
    · rw [List.mem_singleton.mp h] at hd
      exact absurd hd (by decide)
    · rw [List.mem_singleton.mp h] at hd
      exact absurd hd (by decide)
  · split at h
    · simp only [List.mem_cons, List.not_mem_nil, or_false] at h
      rcases h with rfl | rfl
      · exact absurd hd (by decide)
      · exact absurd hd (by decide)
    · rw [List.mem_singleton.mp h] at hd ⊢
      exact toSmall_eq_of_lt hd

theorem smallForms_avoid_digits : ∀ r ∈ smallForms, ∀ z ∈ foreignZeros,
    r.avoids ⟨z, z + 9, 1, z⟩ = true := by
  decide +kernel

/-- A digit of another script is in the block of a zero. -/
theorem exists_zero_of_isDecimalDigit (hc : 128 ≤ c.toNat) (h : isDecimalDigit c = true) :
    ∃ z ∈ foreignZeros, z ≤ c.toNat ∧ c.toNat ≤ z + 9 := by
  unfold isDecimalDigit digitValue? at h
  dsimp only at h
  rw [if_neg (Nat.not_lt.mpr hc), Option.isSome_map, List.find?_isSome] at h
  obtain ⟨z, hz, hblock⟩ := h
  obtain ⟨hfirst, hlast⟩ := Bool.and_eq_true_iff.mp hblock
  exact ⟨z, hz, of_decide_eq_true hfirst, Nat.le_of_lt_succ (of_decide_eq_true hlast)⟩

theorem toNat_of_isDecimalDigit (hc : c.toNat < 128) (h : isDecimalDigit c = true) :
    48 ≤ c.toNat ∧ c.toNat ≤ 57 := by
  unfold isDecimalDigit digitValue? at h
  dsimp only at h
  rw [if_pos hc] at h
  split at h
  · next hdigit => simpa using hdigit
  · cases h

/-- No letter becomes a digit. -/
theorem staysOut_isDecimalDigit : StaysOut isDecimalDigit where
  special := by decide
  toSmall := by
    intro c hc
    rw [Bool.eq_false_iff]
    intro hdigit
    suffices hstay : toSmall c = c by
      rw [hstay, hc] at hdigit
      cases hdigit
    by_cases hsmall : (toSmall c).toNat < 128
    · have := toNat_of_isDecimalDigit hsmall hdigit
      exact toSmall_eq_of_lt (by omega)
    · obtain ⟨z, hz, hfirst, hlast⟩ :=
        exists_zero_of_isDecimalDigit (Nat.not_lt.mp hsmall) hdigit
      refine toSmall_eq_of_avoids (fun r hr => smallForms_avoid_digits r hr z hz) ?_ hfirst hlast
      exact Nat.not_lt.mp fun hlt => hsmall (toSmall_of_lt hlt).1

/-- The runs of some signs are the same in small letters. -/
theorem partsBy_lower (hp : ∀ c, p c = true → c.toNat < 65) (cs : List Char) :
    partsBy (!p ·) (lower cs) = partsBy (!p ·) cs := by
  -- What has been read of a run so far is carried along as `w`.
  suffices h : ∀ before w, partsBy (!p ·) (w ++ lowerAfter before cs) = partsBy (!p ·) (w ++ cs)
    from h [] []
  induction cs with
  | nil => exact fun _ _ => rfl
  | cons c cs ih =>
      intro before w
      rw [lowerAfter]
      cases hc : p c with
      | true =>
          rw [(isSmall_of_lt (hp c hc)).lowerBetween_eq, ← List.append_assoc, ih, List.append_assoc]
          rfl
      | false =>
          have hgap : ∀ d ∈ lowerBetween before c cs, (!p d) = true := by
            intro d hd
            cases hpd : p d with
            | false => rfl
            | true =>
                rw [eq_of_mem_lowerBetween hd (hp d hpd), hc] at hpd
                cases hpd
          rw [partsBy_append_gap_append (lowerBetween_ne_nil before c cs) hgap,
            partsBy_append_cons (by rw [hc]; rfl), ← List.nil_append (lowerAfter _ _), ih]
          rfl

theorem countP_lower_le (hp : p 'i' = false) (hdot : p '\u0307' = false) (cs : List Char) :
    (lower cs).countP p ≤ cs.length := by
  suffices h : ∀ before, (lowerAfter before cs).countP p ≤ cs.length from h []
  induction cs with
  | nil => exact fun _ => Nat.le_refl 0
  | cons c cs ih =>
      intro before
      have hone : (lowerBetween before c cs).countP p ≤ 1 := by
        unfold lowerBetween
        split
        · split
          · exact List.countP_le_length
          · exact List.countP_le_length
        · split
          · rw [List.countP_cons_of_neg (by rw [hp]; exact Bool.false_ne_true),
              List.countP_cons_of_neg (by rw [hdot]; exact Bool.false_ne_true), List.countP_nil]
            exact Nat.zero_le 1
          · exact List.countP_le_length
      have hrest := ih (c :: before)
      rw [lowerAfter, List.countP_append, List.length_cons]
      omega

end Cardfolio.Text
