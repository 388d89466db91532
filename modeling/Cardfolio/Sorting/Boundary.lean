/-!
# Where a property ends

In a sorted list the elements below a key come first, and what is looked for is
the place where they end. Halving the stretch in question finds it. When it is
likely to be near a known place it pays to go away from there first, in steps
that double, until the boundary has been passed, and to halve what lies between
the last two steps.

On a list where the property ends once, both searches find that place. On other
lists the answer depends on which elements are tested, so the tests are a part
of what is defined here.
-/

namespace Cardfolio.Boundary

variable {α : Type _}

/-- The boundary of `p` from `low` up to `high`, by halving. Each round shortens the stretch, so its
length is fuel enough. -/
def halve (p : α → Bool) (xs : List α) : Nat → Nat → Nat → Nat
  | 0, low, _ => low
  | fuel + 1, low, high =>
    if low < high then
      let middle := low + (high - low) / 2
      match xs[middle]? with
      | some x =>
        if p x then halve p xs fuel (middle + 1) high else halve p xs fuel low middle
      | none => low
    else low

/-- The boundary of `p` from `low` up to `high`. -/
def between (p : α → Bool) (xs : List α) (low high : Nat) : Nat :=
  halve p xs (high - low) low high

/-- The last step within the property and the first one beyond it, or the limit if no step is
beyond. From `reach` on the steps double, so the limit is fuel enough. -/
def stride (goesOn : Nat → Bool) (limit : Nat) : Nat → Nat → Nat → Nat × Nat
  | 0, last, reach => (last, min reach limit)
  | fuel + 1, last, reach =>
    if reach < limit && goesOn reach then stride goesOn limit fuel reach (2 * reach + 1)
    else (last, min reach limit)

/-- The boundary of `p` in a list, looked for from a place in it. -/
def gallop (p : α → Bool) (xs : List α) (start : Nat) : Nat :=
  let holdsAt (i : Nat) : Bool := xs[i]?.any p
  if holdsAt start then
    let limit := xs.length - start
    let (last, reach) := stride (fun step => holdsAt (start + step)) limit limit 0 1
    between p xs (start + last + 1) (start + reach)
  else
    let limit := start + 1
    let (last, reach) := stride (fun step => !holdsAt (start - step)) limit limit 0 1
    between p xs (start + 1 - reach) (start - last)

end Cardfolio.Boundary
