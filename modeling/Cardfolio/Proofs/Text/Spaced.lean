import Cardfolio.Proofs.Text.Ends

/-!
# Single spaces

A text in which each run of blanks is a single space keeps its blanks when they are collapsed.
Such texts are put together from such texts, with a space between them.
-/

namespace Cardfolio.Text

/-- A text whose blanks are single spaces. -/
def isSpaced : List Char → Bool
  | [] => true
  | c :: cs => (!isBlank c || (c == ' ' && !cs.head?.any isBlank)) && isSpaced cs

variable {a b cs : List Char} {c : Char}

theorem isSpaced_cons_iff : isSpaced (c :: cs) = true ↔
    (isBlank c = true → c = ' ' ∧ ∀ d ∈ cs.head?, isBlank d = false) ∧ isSpaced cs = true := by
  have hhead : (!cs.head?.any isBlank) = true ↔ ∀ d ∈ cs.head?, isBlank d = false := by
    cases cs <;> simp
  rw [isSpaced, Bool.and_eq_true, Bool.or_eq_true, Bool.and_eq_true, beq_iff_eq, hhead,
    Bool.not_eq_true']
  cases isBlank c <;> simp

/-- A part in front of a text with single spaces. -/
theorem isSpaced_of_append_left (h : isSpaced (a ++ b) = true) : isSpaced a = true := by
  induction a with
  | nil => rfl
  | cons c a ih =>
      rw [List.cons_append, isSpaced_cons_iff] at h
      rw [isSpaced_cons_iff]
      refine ⟨fun hc => ⟨(h.1 hc).1, fun d hd => (h.1 hc).2 d ?_⟩, ih h.2⟩
      rw [List.head?_append, hd]
      rfl

theorem isSpaced_of_append_right (h : isSpaced (a ++ b) = true) : isSpaced b = true := by
  induction a with
  | nil => exact h
  | cons c a ih => exact ih (isSpaced_cons_iff.mp h).2

theorem isSpaced_of_forall (h : ∀ c ∈ cs, isBlank c = false) : isSpaced cs = true := by
  induction cs with
  | nil => rfl
  | cons c cs ih =>
      obtain ⟨hc, hcs⟩ := List.forall_mem_cons.mp h
      rw [isSpaced_cons_iff, hc]
      exact ⟨nofun, ih hcs⟩

/-- A run of blanks is a single space. -/
theorem eq_space_of_isSpaced (hne : a ≠ []) (ha : ∀ c ∈ a, isBlank c = true)
    (h : isSpaced (a ++ b) = true) : a = [' '] ∧ ∀ c ∈ b.head?, isBlank c = false := by
  obtain ⟨c, a, rfl⟩ := List.exists_cons_of_ne_nil hne
  obtain ⟨hc, hrun⟩ := List.forall_mem_cons.mp ha
  obtain ⟨rfl, hnext⟩ := (isSpaced_cons_iff.mp h).1 hc
  cases a with
  | nil => exact ⟨rfl, hnext⟩
  | cons d a =>
      have hd := hrun d List.mem_cons_self
      rw [hnext d rfl] at hd
      cases hd

/-- Two texts with a space between them. -/
theorem isSpaced_join (ha : isSpaced a = true) (hlast : ∀ c ∈ a.getLast?, isBlank c = false)
    (hb : isSpaced b = true) (hhead : ∀ c ∈ b.head?, isBlank c = false) :
    isSpaced (a ++ ' ' :: b) = true := by
  induction a with
  | nil => exact isSpaced_cons_iff.mpr ⟨fun _ => ⟨rfl, hhead⟩, hb⟩
  | cons c a ih =>
      rw [isSpaced_cons_iff] at ha
      rw [List.cons_append, isSpaced_cons_iff]
      cases a with
      | nil =>
          rw [hlast c rfl]
          exact ⟨nofun, ih rfl nofun⟩
      | cons d a =>
          refine ⟨ha.1, ih ha.2 fun x hx => hlast x ?_⟩
          rw [List.getLast?_cons_cons]
          exact hx

theorem collapse_eq_self (h : isSpaced cs = true) : collapse cs = cs := by
  -- Behind a blank the text goes on with something else, so no blank is left out.
  suffices ∀ inRun, (inRun = true → ∀ c ∈ cs.head?, isBlank c = false) →
      joinRunsFrom isBlank ' ' inRun cs = cs from this false nofun
  intro inRun hhead
  induction cs generalizing inRun with
  | nil => rfl
  | cons c cs ih =>
      obtain ⟨hblank, hcs⟩ := isSpaced_cons_iff.mp h
      rw [joinRunsFrom]
      split
      · next hc =>
          obtain ⟨rfl, hnext⟩ := hblank hc
          rw [if_neg, ih hcs true fun _ => hnext]
          intro hrun
          rw [hhead hrun ' ' rfl] at hc
          cases hc
      · rw [ih hcs false nofun]

end Cardfolio.Text
