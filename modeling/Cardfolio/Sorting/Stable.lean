/-!
# Stable sorting by merging

A list is cut into halves, the halves are sorted and merged, and of two elements
that may stand in either order the one from the first half comes first. The depth
of the cutting is counted down from the length of the list, so the recursion is
on a number and every sort of a given list can be evaluated.

`sort_eq_mergeSort` identifies the result with the merge sort of the core
library, whose laws therefore hold of it: it is a permutation, it is sorted when
the order is total, and it keeps the order of elements that need no change.
-/

namespace Cardfolio.Stable

variable {α : Type _}

/-- The merge of two lists, where an element of the first goes before one of the second when
`le` allows it. The fuel is the number of elements. -/
def mergeFuel (le : α → α → Bool) : Nat → List α → List α → List α
  | _, [], ys => ys
  | _, xs, [] => xs
  | 0, xs, ys => xs ++ ys
  | fuel + 1, x :: xs, y :: ys =>
    if le x y then x :: mergeFuel le fuel xs (y :: ys) else y :: mergeFuel le fuel (x :: xs) ys

theorem mergeFuel_eq (le : α → α → Bool) (fuel : Nat) (xs ys : List α)
    (h : xs.length + ys.length ≤ fuel) : mergeFuel le fuel xs ys = xs.merge ys le := by
  induction fuel generalizing xs ys with
  | zero =>
    have hx : xs = [] := List.length_eq_zero_iff.mp (by omega)
    have hy : ys = [] := List.length_eq_zero_iff.mp (by omega)
    simp [hx, hy, mergeFuel]
  | succ fuel ih =>
    match xs, ys, h with
    | [], ys, _ => simp [mergeFuel]
    | x :: xs, [], _ => simp [mergeFuel]
    | x :: xs, y :: ys, h =>
      rw [mergeFuel, List.cons_merge_cons]
      simp only [List.length_cons] at h
      split
      · rw [ih xs (y :: ys) (by simp only [List.length_cons]; omega)]
      · rw [ih (x :: xs) ys (by simp only [List.length_cons]; omega)]

/-- The sorted list, when the fuel is at least the number of elements. -/
def sortFuel (le : α → α → Bool) : Nat → List α → List α
  | 0, xs => xs
  | _ + 1, [] => []
  | _ + 1, [x] => [x]
  | fuel + 1, x :: y :: rest =>
    let xs := x :: y :: rest
    let half := (xs.length + 1) / 2
    mergeFuel le xs.length (sortFuel le fuel (xs.take half)) (sortFuel le fuel (xs.drop half))

/-- The list in the order of `le`, stable. -/
def sort (le : α → α → Bool) (xs : List α) : List α :=
  sortFuel le xs.length xs

theorem sortFuel_eq (le : α → α → Bool) (fuel : Nat) (xs : List α) (h : xs.length ≤ fuel) :
    sortFuel le fuel xs = xs.mergeSort le := by
  induction fuel generalizing xs with
  | zero => simp [sortFuel, List.length_eq_zero_iff.mp (Nat.le_zero.mp h)]
  | succ fuel ih =>
    match xs, h with
    | [], _ => simp [sortFuel]
    | [x], _ => simp [sortFuel]
    | x :: y :: rest, h =>
      simp only [List.length_cons] at h
      rw [sortFuel, List.mergeSort]
      simp only [List.MergeSort.Internal.splitInTwo_fst, List.MergeSort.Internal.splitInTwo_snd]
      rw [ih _ (by simp only [List.length_take, List.length_cons]; omega),
        ih _ (by simp only [List.length_drop, List.length_cons]; omega),
        mergeFuel_eq]
      simp only [List.length_mergeSort, List.length_take, List.length_drop, List.length_cons]
      omega

/-- The sort is the merge sort of the core library. -/
theorem sort_eq_mergeSort (le : α → α → Bool) (xs : List α) : sort le xs = xs.mergeSort le :=
  sortFuel_eq le xs.length xs (Nat.le_refl _)

/-- A list that is sorted by a total order is in this order. -/
theorem pairwise_sort {le : α → α → Bool} {r : α → α → Prop} {xs : List α}
    (hle : ∀ {a b}, le a b = true ↔ r a b) (htrans : ∀ {a b c}, r a b → r b c → r a c)
    (htotal : ∀ a b, r a b ∨ r b a) : (sort le xs).Pairwise r := by
  rw [sort_eq_mergeSort]
  refine (List.pairwise_mergeSort (fun a b c hab hbc => ?_) (fun a b => ?_) xs).imp hle.mp
  · exact hle.mpr (htrans (hle.mp hab) (hle.mp hbc))
  · rw [Bool.or_eq_true, hle, hle]
    exact htotal a b

end Cardfolio.Stable
