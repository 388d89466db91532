import Cardfolio.Sorting.Boundary

/-!
# Merging two sorted runs

Two runs are merged from one end towards the other: from the front, where the
lesser of the two next elements is taken, or from the back, where the greater
one is; of equal elements the one of the left run comes first. As long as both
runs win by turns the elements are compared one by one. When one run has won
often enough in a row, the merge starts to leap: it looks for the place of the
next element of one run in the other run, takes all that come before it at once,
and goes on like this as long as the leaps are long. How often is enough is the
`patience`. It falls with each further round of leaps and rises when leaping has
to be given up, and is handed on to the next merge.

On runs in which any two elements can be compared all this only saves
comparisons. Where they cannot, it decides the result.

`merge_perm` says that a merge neither loses nor invents elements, whatever the
comparison answers.
-/

namespace Cardfolio.Merging

variable {α : Type _}

/-- An end of a list. -/
inductive End
  | front
  | back

namespace End

/-- The element at an end and all others. -/
def next? : End → List α → Option (α × List α)
  | front, [] => none
  | front, x :: xs => some (x, xs)
  | back, xs => xs.getLast?.map fun x => (x, xs.dropLast)

/-- A list with further elements at an end. -/
def put (taken : List α) (rest : List α) : End → List α
  | front => taken ++ rest
  | back => rest ++ taken

/-- The part of a list that is taken from an end, up to a place in it, and the part that is
kept. -/
def cut (place : Nat) (xs : List α) : End → List α × List α
  | front => (xs.take place, xs.drop place)
  | back => (xs.drop place, xs.take place)

/-- The place of the element at an end. -/
def place (xs : List α) : End → Nat
  | front => 0
  | back => xs.length - 1

/-- Whether the left of two runs gives its next element when the runs are compared one by one. -/
def takesLeft (rightIsLess : Bool) : End → Bool
  | front => !rightIsLess
  | back => rightIsLess

theorem perm_of_next? {e : End} {xs rest : List α} {x : α} (h : e.next? xs = some (x, rest)) :
    (e.put [x] rest).Perm xs := by
  cases e with
  | front =>
    cases xs with
    | nil => simp [next?] at h
    | cons y ys =>
      simp only [next?, Option.some.injEq, Prod.mk.injEq] at h
      obtain ⟨rfl, rfl⟩ := h
      exact .refl _
  | back =>
    cases hl : xs.getLast? with
    | none => simp [next?, hl] at h
    | some y =>
      simp only [next?, hl, Option.map_some, Option.some.injEq, Prod.mk.injEq] at h
      obtain ⟨rfl, rfl⟩ := h
      obtain ⟨ys, rfl⟩ := List.getLast?_eq_some_iff.mp hl
      simp [put]

theorem put_perm (e : End) (taken rest : List α) : (e.put taken rest).Perm (taken ++ rest) := by
  cases e with
  | front => exact .refl _
  | back => exact List.perm_append_comm

theorem cut_perm (e : End) (place : Nat) (xs : List α) :
    ((e.cut place xs).1 ++ (e.cut place xs).2).Perm xs := by
  cases e with
  | front => simp [cut]
  | back => exact List.perm_append_comm.trans (by simp [cut])

end End

/-- What a merge does next. -/
inductive Pace
  /-- It compares the next elements; so often has each run won in a row. -/
  | single (left right : Nat)
  /-- It leaps in the left run. -/
  | leapLeft
  /-- After a leap of this length it takes the next element of the right run. -/
  | takeRight (length : Nat)
  /-- It leaps in the right run. -/
  | leapRight (longest : Nat)
  /-- After leaps of at most this length it takes the next element of the left run. -/
  | takeLeft (longest : Nat)
  /-- It decides whether the leaps were long enough. -/
  | weigh (longest : Nat)

/-- The patience that merges begin with, and the least length of a long leap. -/
def usualPatience : Nat := 7

/-- The merge when one run is about to run out: nothing left of one of them, or a single element
that is known to be the last one of the merge. -/
def settled? (e : End) (left right : List α) : Option (List α) :=
  match e, left, right with
  | _, [], right => some right
  | _, left, [] => some left
  | .front, [x], right => some (right ++ [x])
  | .back, left, [x] => some (x :: left)
  | _, _, _ => none

/-- The merge of what is left of two runs, and the patience after it. A round of leaps has five
steps and takes at least two elements. -/
def mergeFuel (lt : α → α → Bool) (e : End) :
    Nat → Pace → Nat → List α → List α → List α × Nat
  | 0, _, patience, left, right => (left ++ right, patience)
  | fuel + 1, pace, patience, left, right =>
    match settled? e left right, e.next? left, e.next? right with
    | some merged, _, _ => (merged, patience)
    | none, some (a, left'), some (b, right') =>
      match pace with
      | .single won lost =>
        if e.takesLeft (lt b a) then
          let pace := if patience ≤ won + 1 then .leapLeft else .single (won + 1) 0
          let (rest, patience) := mergeFuel lt e fuel pace patience left' right
          (e.put [a] rest, patience)
        else
          let pace := if patience ≤ lost + 1 then .leapLeft else .single 0 (lost + 1)
          let (rest, patience) := mergeFuel lt e fuel pace patience left right'
          (e.put [b] rest, patience)
      | .leapLeft =>
        let place := Boundary.gallop (fun x => !lt b x) left (e.place left)
        let (taken, kept) := e.cut place left
        let (rest, patience) := mergeFuel lt e fuel (.takeRight taken.length) patience kept right
        (e.put taken rest, patience)
      | .takeRight length =>
        let (rest, patience) := mergeFuel lt e fuel (.leapRight length) patience left right'
        (e.put [b] rest, patience)
      | .leapRight longest =>
        let place := Boundary.gallop (fun x => lt x a) right (e.place right)
        let (taken, kept) := e.cut place right
        let (rest, patience) :=
          mergeFuel lt e fuel (.takeLeft (max longest taken.length)) patience left kept
        (e.put taken rest, patience)
      | .takeLeft longest =>
        let (rest, patience) := mergeFuel lt e fuel (.weigh longest) patience left' right
        (e.put [a] rest, patience)
      | .weigh longest =>
        if usualPatience ≤ longest then
          mergeFuel lt e fuel .leapLeft (max 1 (patience - 1)) left right
        else mergeFuel lt e fuel (.single 0 0) (patience + 1) left right
    | none, _, _ => (left ++ right, patience)

/-- The merge of two runs from an end, where the first element of the merge is known to come from
the run on the other side. -/
def mergeFrom (lt : α → α → Bool) (e : End) (patience : Nat) (left right : List α) :
    List α × Nat :=
  let fuel := 5 * (left.length + right.length + 1)
  match e, e.next? left, e.next? right with
  | .front, _, some (b, right') =>
    let (rest, patience) := mergeFuel lt e fuel (.single 0 0) patience left right'
    (b :: rest, patience)
  | .back, some (a, left'), _ =>
    let (rest, patience) := mergeFuel lt e fuel (.single 0 0) patience left' right
    (rest ++ [a], patience)
  | _, _, _ => (left ++ right, patience)

/-- The merge of two neighbouring runs and the patience after it. What the left run has before the
first element of the right one stays where it is, and so does what the right run has after the last
element of the left one. The rest is merged from the front or the back, so that the shorter run is
the one that has to make room. -/
def merge (lt : α → α → Bool) (patience : Nat) (left right : List α) : List α × Nat :=
  match right with
  | [] => (left, patience)
  | b :: _ =>
    let (before, left') := End.front.cut (Boundary.gallop (fun x => !lt b x) left 0) left
    match left'.getLast? with
    | none => (left ++ right, patience)
    | some a =>
      let (right', after) :=
        End.front.cut (Boundary.gallop (fun x => lt x a) right (right.length - 1)) right
      let e := if left'.length ≤ right'.length then End.front else End.back
      let (merged, patience) := mergeFrom lt e patience left' right'
      (before ++ merged ++ after, patience)

theorem perm_of_settled? {e : End} {left right merged : List α}
    (h : settled? e left right = some merged) : merged.Perm (left ++ right) := by
  unfold settled? at h
  split at h
  · obtain rfl := Option.some.inj h
    simp
  · obtain rfl := Option.some.inj h
    simp
  · obtain rfl := Option.some.inj h
    exact List.perm_append_comm
  · obtain rfl := Option.some.inj h
    exact (List.perm_append_singleton _ left).symm
  · cases h

theorem put_left_perm {e : End} {taken kept left right rest : List α}
    (h : (taken ++ kept).Perm left) (hrest : rest.Perm (kept ++ right)) :
    (e.put taken rest).Perm (left ++ right) := by
  refine (e.put_perm taken rest).trans ?_
  refine (hrest.append_left taken).trans ?_
  rw [← List.append_assoc]
  exact h.append_right right

theorem put_right_perm {e : End} {taken kept left right rest : List α}
    (h : (taken ++ kept).Perm right) (hrest : rest.Perm (left ++ kept)) :
    (e.put taken rest).Perm (left ++ right) := by
  refine (e.put_perm taken rest).trans ?_
  refine (hrest.append_left taken).trans ?_
  rw [← List.append_assoc]
  refine (List.perm_append_comm.append_right kept).trans ?_
  rw [List.append_assoc]
  exact h.append_left left

theorem mergeFuel_perm (lt : α → α → Bool) (e : End) (fuel : Nat) (pace : Pace) (patience : Nat)
    (left right : List α) :
    (mergeFuel lt e fuel pace patience left right).1.Perm (left ++ right) := by
  induction fuel generalizing pace patience left right with
  | zero => exact .refl _
  | succ fuel ih =>
    have single {x : α} {xs rest : List α} (h : e.next? xs = some (x, rest)) :
        ([x] ++ rest).Perm xs :=
      (e.put_perm [x] rest).symm.trans (End.perm_of_next? h)
    rw [mergeFuel]
    split
    · rename_i h
      exact perm_of_settled? h
    · rename_i hl hr
      cases pace with
      | single won lost =>
        dsimp only
        split
        · exact put_left_perm (single hl) (ih ..)
        · exact put_right_perm (single hr) (ih ..)
      | leapLeft => exact put_left_perm (e.cut_perm _ _) (ih ..)
      | takeRight length => exact put_right_perm (single hr) (ih ..)
      | leapRight longest => exact put_right_perm (e.cut_perm _ _) (ih ..)
      | takeLeft longest => exact put_left_perm (single hl) (ih ..)
      | weigh longest =>
        dsimp only
        split
        · exact ih ..
        · exact ih ..
    · exact .refl _

theorem mergeFrom_perm (lt : α → α → Bool) (e : End) (patience : Nat) (left right : List α) :
    (mergeFrom lt e patience left right).1.Perm (left ++ right) := by
  unfold mergeFrom
  dsimp only
  split
  · rename_i hr
    refine put_right_perm (e := .front) (End.perm_of_next? hr) ?_
    exact mergeFuel_perm ..
  · rename_i hl
    refine put_left_perm (e := .back) ?_ (mergeFuel_perm ..)
    refine List.Perm.trans ?_ (End.perm_of_next? hl)
    exact (List.perm_append_singleton ..).symm
  · exact .refl _

/-- A merge has the elements of both runs. -/
theorem merge_perm (lt : α → α → Bool) (patience : Nat) (left right : List α) :
    (merge lt patience left right).1.Perm (left ++ right) := by
  unfold merge
  split
  · simp
  · dsimp only [End.cut]
    split
    · exact .refl _
    · refine ((mergeFrom_perm ..).append_left _ |>.append_right _).trans ?_
      simp only [← List.append_assoc, List.take_append_drop]
      rw [List.append_assoc, List.take_append_drop]

end Cardfolio.Merging
