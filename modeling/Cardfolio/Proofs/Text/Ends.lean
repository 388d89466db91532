import Cardfolio.Proofs.Text.Blanks
import Mathlib.Data.List.TakeWhile

/-!
# The ends of a text

A text without blanks at its ends has nothing more to lose there, and in small letters it
still begins and ends with what is not blank: a letter may become two, but none becomes a
blank. So taking blanks off and lower-casing, one after the other, is done once and for all.
-/

namespace Cardfolio.Text

/-- The text begins and ends with characters that do not satisfy `p`, if it has any. -/
structure IsTrimmed (p : Char → Bool) (cs : List Char) : Prop where
  head : ∀ c ∈ cs.head?, p c = false
  last : ∀ c ∈ cs.getLast?, p c = false

variable {p : Char → Bool} {cs : List Char}

theorem dropWhile_eq_self (h : ∀ c ∈ cs.head?, p c = false) : cs.dropWhile p = cs := by
  cases cs with
  | nil => rfl
  | cons c cs => rw [List.dropWhile_cons_of_neg (by simp [h c rfl])]

theorem trimEnd_eq_self (h : ∀ c ∈ cs.getLast?, p c = false) : trimEnd p cs = cs := by
  rw [trimEnd, dropWhile_eq_self (by simpa using h), List.reverse_reverse]

theorem IsTrimmed.trim_eq_self (h : IsTrimmed p cs) : trim p cs = cs := by
  show trimEnd p (cs.dropWhile p) = cs
  rw [dropWhile_eq_self h.head, trimEnd_eq_self h.last]

theorem isTrimmed_of_forall (h : ∀ c ∈ cs, p c = false) : IsTrimmed p cs where
  head c hc := h c (List.mem_of_mem_head? hc)
  last c hc := h c (List.mem_of_mem_getLast? hc)

/-- A text that ends with what does not satisfy `p` has no end of characters that do. -/
theorem eq_nil_of_last {back : List Char} (h : ∀ c ∈ (cs ++ back).getLast?, p c = false)
    (hback : ∀ c ∈ back, p c = true) : back = [] := by
  by_contra hne
  obtain ⟨c, hc⟩ := Option.isSome_iff_exists.mp (List.getLast?_isSome.mpr hne)
  have hp := hback c (List.mem_of_getLast? hc)
  rw [h c (by rw [List.getLast?_append, hc]; rfl)] at hp
  cases hp

theorem head_dropWhile : ∀ c ∈ (cs.dropWhile p).head?, p c = false := by
  intro c hc
  have h := List.head?_dropWhile_not p cs
  rw [hc] at h
  exact h

theorem isTrimmed_trim (p : Char → Bool) (cs : List Char) : IsTrimmed p (trim p cs) where
  head := by
    intro c hc
    -- What is left is a beginning of what the front has lost.
    have hsuffix : (trim p cs) <+: cs.dropWhile p :=
      List.reverse_suffix.mp (by simpa [trim] using List.dropWhile_suffix p)
    obtain ⟨rest, hrest⟩ := hsuffix
    suffices hmem : c ∈ (cs.dropWhile p).head? from head_dropWhile c hmem
    rw [← hrest, List.head?_append, hc]
    rfl
  last := by
    intro c hc
    rw [trim, List.getLast?_reverse] at hc
    exact head_dropWhile c hc

theorem strip_strip (cs : List Char) : strip (strip cs) = strip cs :=
  (isTrimmed_trim isBlank cs).trim_eq_self

theorem mem_of_mem_trim {c : Char} (h : c ∈ trim p cs) : c ∈ cs := by
  have h := List.mem_reverse.mp h
  have h := (List.dropWhile_suffix p).subset h
  have h := List.mem_reverse.mp h
  exact (List.dropWhile_suffix p).subset h

/-- What is no joint of a run was there before, outside the runs. -/
theorem mem_of_mem_joinRunsFrom {joint : Char} {inRun : Bool} {c : Char}
    (h : c ∈ joinRunsFrom p joint inRun cs) : c = joint ∨ c ∈ cs ∧ p c = false := by
  induction cs generalizing inRun with
  | nil => cases h
  | cons d cs ih =>
      have htail : ∀ {inRun}, c ∈ joinRunsFrom p joint inRun cs →
          c = joint ∨ c ∈ d :: cs ∧ p c = false :=
        fun h => (ih h).imp id (And.imp_left (List.mem_cons_of_mem d))
      rw [joinRunsFrom] at h
      split at h
      · split at h
        · exact htail h
        · rcases List.mem_cons.mp h with rfl | h
          · exact Or.inl rfl
          · exact htail h
      · next hd =>
          rcases List.mem_cons.mp h with rfl | h
          · exact Or.inr ⟨List.mem_cons_self, Bool.eq_false_iff.mpr hd⟩
          · exact htail h

/-- Outside of runs nothing changes. -/
theorem joinRunsFrom_append {joint : Char} {inRun : Bool} {ds : List Char}
    (h : ∀ c ∈ cs, p c = false) : joinRunsFrom p joint inRun (cs ++ ds)
      = cs ++ joinRunsFrom p joint (cs.isEmpty && inRun) ds := by
  induction cs generalizing inRun with
  | nil => rfl
  | cons c cs ih =>
      obtain ⟨hc, hcs⟩ := List.forall_mem_cons.mp h
      rw [List.cons_append, joinRunsFrom, hc, if_neg Bool.false_ne_true, ih hcs, Bool.and_false]
      rfl

theorem joinRunsFrom_eq_self {joint : Char} {inRun : Bool} (h : ∀ c ∈ cs, p c = false) :
    joinRunsFrom p joint inRun cs = cs := by
  have hall : joinRunsFrom p joint inRun (cs ++ [])
      = cs ++ joinRunsFrom p joint (cs.isEmpty && inRun) [] := joinRunsFrom_append h
  rw [List.append_nil, joinRunsFrom, List.append_nil] at hall
  exact hall

/-- Whether a run goes on does not depend on what comes next. -/
theorem exists_joinRunsFrom_append (p : Char → Bool) (joint : Char) (inRun : Bool)
    (cs : List Char) :
    ∃ inRun', ∀ ds, joinRunsFrom p joint inRun (cs ++ ds)
      = joinRunsFrom p joint inRun cs ++ joinRunsFrom p joint inRun' ds := by
  induction cs generalizing inRun with
  | nil => exact ⟨inRun, fun _ => rfl⟩
  | cons c cs ih =>
      obtain ⟨inRun', h⟩ := ih (p c)
      refine ⟨inRun', fun ds => ?_⟩
      have h := h ds
      rw [List.cons_append, joinRunsFrom, joinRunsFrom]
      cases hc : p c with
      | false =>
          rw [hc] at h
          simp [h]
      | true =>
          rw [hc] at h
          cases inRun <;> simp [h]

/-- A run leaves a joint, unless there is one already. -/
theorem joinRunsFrom_gap_append {joint : Char} {gap : List Char} (hne : gap ≠ [])
    (hgap : ∀ c ∈ gap, p c = true) (inRun : Bool) (ds : List Char) :
    joinRunsFrom p joint inRun (gap ++ ds)
      = (if inRun then [] else [joint]) ++ joinRunsFrom p joint true ds := by
  induction gap generalizing inRun with
  | nil => exact (hne rfl).elim
  | cons c gap ih =>
      obtain ⟨hc, hgap⟩ := List.forall_mem_cons.mp hgap
      have hrest : joinRunsFrom p joint true (gap ++ ds) = joinRunsFrom p joint true ds := by
        cases gap with
        | nil => rfl
        | cons d gap => exact ih (List.cons_ne_nil d gap) hgap true
      rw [List.cons_append, joinRunsFrom, if_pos hc, hrest]
      cases inRun <;> rfl

/-- Which characters a run is made of does not matter. -/
theorem joinRuns_respaced (joint : Char) {gap gap' : List Char} (hne : gap ≠ [])
    (hne' : gap' ≠ []) (hgap : ∀ c ∈ gap, p c = true) (hgap' : ∀ c ∈ gap', p c = true)
    (cs ds : List Char) :
    joinRuns p joint (cs ++ (gap ++ ds)) = joinRuns p joint (cs ++ (gap' ++ ds)) := by
  obtain ⟨inRun, h⟩ := exists_joinRunsFrom_append p joint false cs
  rw [joinRuns, joinRuns, h, h, joinRunsFrom_gap_append hne hgap,
    joinRunsFrom_gap_append hne' hgap']

theorem lowerBetween_ne_nil (before : List Char) (c : Char) (after : List Char) :
    lowerBetween before c after ≠ [] := by
  unfold lowerBetween
  repeat' split
  all_goals simp

theorem lowerAfter_eq_nil {before : List Char} : lowerAfter before cs = [] ↔ cs = [] := by
  cases cs with
  | nil => exact ⟨fun _ => rfl, fun _ => rfl⟩
  | cons c cs => simp [lowerAfter, lowerBetween_ne_nil]

theorem last_lowerAfter {before : List Char} (h : ∀ c ∈ cs.getLast?, isBlank c = false) :
    ∀ d ∈ (lowerAfter before cs).getLast?, isBlank d = false := by
  induction cs generalizing before with
  | nil => simp [lowerAfter]
  | cons c cs ih =>
      intro d hd
      rw [lowerAfter, List.getLast?_append] at hd
      cases hrest : (lowerAfter (c :: before) cs).getLast? with
      | some d' =>
          rw [hrest] at hd
          obtain rfl := Option.some.inj hd
          refine ih (fun c' hc' => h c' ?_) d' hrest
          rw [List.getLast?_cons, hc']
          rfl
      | none =>
          rw [hrest] at hd
          rw [List.getLast?_eq_none_iff, lowerAfter_eq_nil] at hrest
          subst hrest
          exact staysOut_isBlank.of_mem_lowerBetween (h c rfl) (List.mem_of_getLast? hd)

theorem IsTrimmed.lower (h : IsTrimmed isBlank cs) : IsTrimmed isBlank (lower cs) where
  head := by
    intro d hd
    cases cs with
    | nil => cases hd
    | cons c cs =>
        obtain ⟨d', ds, hds⟩ := List.exists_cons_of_ne_nil (lowerBetween_ne_nil [] c cs)
        rw [Text.lower, lowerAfter, hds] at hd
        obtain rfl : d' = d := Option.some.inj hd
        exact staysOut_isBlank.of_mem_lowerBetween (h.head c rfl) (hds ▸ List.mem_cons_self)
  last := last_lowerAfter h.last

theorem lower_lower (cs : List Char) : lower (lower cs) = lower cs :=
  lower_eq_self fun _ hd => (mem_lowerAfter hd).1

/-- Blanks taken off and letters made small: doing both again changes nothing. -/
theorem lower_strip_lower_strip (cs : List Char) :
    lower (strip (lower (strip cs))) = lower (strip cs) := by
  have htrimmed : IsTrimmed isBlank (lower (strip cs)) := (isTrimmed_trim isBlank cs).lower
  have hstrip : strip (lower (strip cs)) = lower (strip cs) := htrimmed.trim_eq_self
  rw [hstrip, lower_lower]

end Cardfolio.Text
