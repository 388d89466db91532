import Cardfolio.Fault
import Cardfolio.Proofs.Success

/-!
# Computations that fail on large numbers only

`Settles large long p x` says that the computation `x` has a result with the property
`p`, or that it overflows and something is large, or that it writes a number and
something is long. Nothing else can happen. What is large and what is long are
propositions and stay the same along a chain of steps, so a chain is judged step by
step: each has its result and hands its property on, or the chain ends and the reason is
known. Where no number is written, `long` is `False`.
-/

namespace Cardfolio

variable {α β : Type} {large long : Prop}

/-- A result with a property, an overflow where something is large, or a number that cannot be
written where something is long. -/
inductive Settles (large long : Prop) (p : α → Prop) : Except Fault α → Prop
  | value {a : α} (h : p a) : Settles large long p (.ok a)
  | overflow (h : large) : Settles large long p (.error .overflow)
  | longNumber (h : long) : Settles large long p (.error .longNumber)

namespace Settles

variable {p : α → Prop} {q : β → Prop} {x : Except Fault α}

theorem mono {large' long' : Prop} {p' : α → Prop} (h : Settles large long p x)
    (hlarge : large → large') (hlong : long → long') (hp : ∀ a, p a → p' a) :
    Settles large' long' p' x := by
  cases h with
  | value h => exact .value (hp _ h)
  | overflow h => exact .overflow (hlarge h)
  | longNumber h => exact .longNumber (hlong h)

theorem bind {f : α → Except Fault β} (h : Settles large long p x)
    (hf : ∀ a, x = .ok a → p a → Settles large long q (f a)) :
    Settles large long q (x >>= f) := by
  cases h with
  | value h => exact hf _ rfl h
  | overflow h => exact .overflow h
  | longNumber h => exact .longNumber h

theorem map {f : α → β} (h : Settles large long p x) (hf : ∀ a, p a → q (f a)) :
    Settles large long q (f <$> x) := by
  cases h with
  | value h => exact .value (hf _ h)
  | overflow h => exact .overflow h
  | longNumber h => exact .longNumber h

/-- A list of steps that each have a result has all of them. -/
theorem mapM {f : α → Except Fault β} {r : α → β → Prop} {xs : List α}
    (h : ∀ x ∈ xs, Settles large long (r x) (f x)) :
    Settles large long (List.Forall₂ r xs) (xs.mapM f) := by
  induction xs with
  | nil => exact .value .nil
  | cons x xs ih =>
      obtain ⟨hx, hxs⟩ := List.forall_mem_cons.mp h
      rw [List.mapM_cons]
      refine hx.bind fun y _ hy => (ih hxs).bind fun ys _ hys => ?_
      exact .value (.cons hy hys)

/-- What every step preserves holds in the end. -/
theorem foldlM {f : β → α → Except Fault β} {xs : List α} {start : β} (hstart : q start)
    (h : ∀ x ∈ xs, ∀ b, q b → Settles large long q (f b x)) :
    Settles large long q (xs.foldlM f start) := by
  induction xs generalizing start with
  | nil => exact .value hstart
  | cons x xs ih =>
      obtain ⟨hx, hxs⟩ := List.forall_mem_cons.mp h
      rw [List.foldlM_cons]
      exact (hx start hstart).bind fun b _ hb => ih hb hxs

theorem of_eq_ok (h : Settles large long p x) {a : α} (hx : x = .ok a) : p a := by
  subst hx
  cases h with
  | value h => exact h

/-- Where nothing is large, a number could not be written. -/
theorem of_eq_error (h : Settles False long p x) {e : Fault} (hx : x = .error e) :
    e = .longNumber ∧ long := by
  subst hx
  cases h with
  | overflow h => exact h.elim
  | longNumber h => exact ⟨rfl, h⟩

/-- Where steps can fail for one reason only, a list with a step that fails fails for it. -/
theorem mapM_eq_error {f : α → Except Fault β} {r : α → β → Prop} {xs : List α}
    (h : ∀ x ∈ xs, Settles False long (r x) (f x)) {x : α} (hx : x ∈ xs) {e : Fault}
    (hfail : f x = .error e) : xs.mapM f = .error .longNumber := by
  cases hsteps : xs.mapM f with
  | ok ys =>
      obtain ⟨y, hy⟩ := exists_ok_of_mapM_eq_ok hsteps hx
      cases hfail.symm.trans hy
  | error e' => rw [((Settles.mapM h).of_eq_error hsteps).1]

theorem exists_or (h : Settles large long p x) :
    (∃ a, x = .ok a) ∨ x = .error .overflow ∧ large ∨ x = .error .longNumber ∧ long := by
  cases h with
  | value h => exact Or.inl ⟨_, rfl⟩
  | overflow h => exact Or.inr (Or.inl ⟨rfl, h⟩)
  | longNumber h => exact Or.inr (Or.inr ⟨rfl, h⟩)

end Settles

end Cardfolio
