import Cardfolio.Sorting.Merging

/-!
# Sorting by runs

A list is cut into runs: a rising stretch as it is, a strictly falling one turned
round, and a short one made longer by putting further elements in, each at the
place that halving finds. Neighbouring runs are then merged two by two.

Which runs are merged first depends on where they lie. Between two neighbouring
runs there is a boundary of a certain `depth`: think of the list as the stretch
from zero to one, take the middles of both runs, and count the binary places up
to which they agree. When a new run is found, the runs before it are merged as
long as the boundary between the last two is deeper than the one in front of the
new run.

The result is the stable sort whenever any two elements can be compared. Where
some cannot, no order is right, and this procedure is what fixes one. `sort_perm`
says that it is still an order of the same elements.
-/

namespace Cardfolio.Runs

variable {α : Type _}

/-- The length of the stretch that begins after `x` and goes on while `step` allows. -/
def stretch (step : α → α → Bool) (x : α) : List α → Nat
  | [] => 0
  | y :: rest => if step x y then stretch step y rest + 1 else 0

/-- A run with one more element, behind all that are not after it. -/
def insert (lt : α → α → Bool) (run : List α) (x : α) : List α :=
  let place := Boundary.between (fun y => !lt x y) run 0 run.length
  run.take place ++ x :: run.drop place

/-- The run at the beginning of a list as it is found, and the elements after it. -/
def natural (lt : α → α → Bool) : List α → List α × List α
  | x :: y :: rest =>
    if lt y x then
      let n := stretch (fun a b => lt b a) y rest
      ((x :: y :: rest.take n).reverse, rest.drop n)
    else
      let n := stretch (fun a b => !lt b a) y rest
      (x :: y :: rest.take n, rest.drop n)
  | short => (short, [])

/-- The run at the beginning of a list with at least `least` elements, as far as there are so many,
and the elements after it. -/
def first (lt : α → α → Bool) (least : Nat) (xs : List α) : List α × List α :=
  let (run, rest) := natural lt xs
  let missing := least - run.length
  ((rest.take missing).foldl (insert lt) run, rest.drop missing)

/-- The least length of a run: at most 64, and such that it goes about a power of two times into the
length of the list. -/
def leastLength (length : Nat) : Nat :=
  let unit := Nat.pow 2 (length.log2 - 5)
  (length + unit - 1) / unit

/-- A run, where it begins in the list, and the depth of the boundary behind it. -/
structure Run (α : Type _) where
  start : Nat
  items : List α
  depth : Nat

/-- The depth of the boundary between two neighbouring runs in a list of some length. -/
def depth (length start left right : Nat) : Nat :=
  let middle := 2 * start + left
  let next := middle + left + right
  ((List.range length).find? fun n =>
    middle * Nat.pow 2 n / length != next * Nat.pow 2 n / length).getD 0 + 1

/-- The last run after it has been merged with those in front of it as long as their boundary is
deeper, the runs that are left, and the patience. The last run stands first. -/
def collapse (lt : α → α → Bool) (depth : Nat) :
    Nat → Run α → List (Run α) → Run α × List (Run α) × Nat
  | patience, last, [] => (last, [], patience)
  | patience, last, run :: rest =>
    if depth < run.depth then
      let (items, patience) := Merging.merge lt patience run.items last.items
      collapse lt depth patience { run with items } rest
    else (last, run :: rest, patience)

/-- The runs with a new one that follows them, and the patience. -/
def push (lt : α → α → Bool) (length patience : Nat) (run : Run α) :
    List (Run α) → List (Run α) × Nat
  | [] => ([run], patience)
  | last :: rest =>
    let depth := depth length last.start last.items.length run.items.length
    let (last, rest, patience) := collapse lt depth patience last rest
    (run :: { last with depth } :: rest, patience)

/-- The elements of some runs in the order of the list. -/
def elements (runs : List (Run α)) : List α :=
  (runs.reverse.map Run.items).flatten

/-- The merge of all runs from behind. When the last run is longer than the one two in front of it,
the two before the last are merged first. The fuel is the number of runs. -/
def mergeAll (lt : α → α → Bool) : Nat → Nat → List (Run α) → List α
  | fuel + 1, patience, c :: b :: a :: rest =>
    if a.items.length < c.items.length then
      let (items, patience) := Merging.merge lt patience a.items b.items
      mergeAll lt fuel patience (c :: { a with items } :: rest)
    else
      let (items, patience) := Merging.merge lt patience b.items c.items
      mergeAll lt fuel patience ({ b with items } :: a :: rest)
  | _, patience, [b, a] => (Merging.merge lt patience a.items b.items).1
  | _, _, runs => elements runs

/-- The sorted list, from the runs found so far and the elements after them. Each round finds a
run, so the number of elements is fuel enough. -/
def sortFuel (lt : α → α → Bool) (length : Nat) :
    Nat → Nat → Nat → List (Run α) → List α → List α
  | fuel + 1, patience, start, runs, x :: xs =>
    let (items, rest) := first lt (leastLength length) (x :: xs)
    let (runs, patience) := push lt length patience ⟨start, items, 0⟩ runs
    sortFuel lt length fuel patience (start + items.length) runs rest
  | _, patience, _, runs, rest => mergeAll lt runs.length patience runs ++ rest

/-- The list sorted by runs. -/
def sort (lt : α → α → Bool) (xs : List α) : List α :=
  sortFuel lt xs.length xs.length Merging.usualPatience 0 [] xs

theorem insert_perm (lt : α → α → Bool) (run : List α) (x : α) :
    (insert lt run x).Perm (run ++ [x]) := by
  unfold insert
  refine List.perm_middle.trans ?_
  rw [List.take_append_drop]
  exact (List.perm_append_singleton x run).symm

theorem foldl_insert_perm (lt : α → α → Bool) (run xs : List α) :
    (xs.foldl (insert lt) run).Perm (run ++ xs) := by
  induction xs generalizing run with
  | nil => simp
  | cons x xs ih =>
    refine (ih (insert lt run x)).trans ?_
    refine ((insert_perm lt run x).append_right xs).trans ?_
    simp

theorem natural_perm (lt : α → α → Bool) (xs : List α) :
    ((natural lt xs).1 ++ (natural lt xs).2).Perm xs := by
  unfold natural
  split
  · rename_i x y rest
    split
    · dsimp only
      refine ((List.reverse_perm _).append_right _).trans ?_
      simp
    · simp
  · simp

theorem first_perm (lt : α → α → Bool) (least : Nat) (xs : List α) :
    ((first lt least xs).1 ++ (first lt least xs).2).Perm xs := by
  unfold first
  refine ((foldl_insert_perm lt _ _).append_right _).trans ?_
  rw [List.append_assoc, List.take_append_drop]
  exact natural_perm lt xs

theorem elements_cons (run : Run α) (runs : List (Run α)) :
    elements (run :: runs) = elements runs ++ run.items := by
  simp [elements]

theorem collapse_perm (lt : α → α → Bool) (depth patience : Nat) (last : Run α)
    (rest : List (Run α)) :
    (elements ((collapse lt depth patience last rest).1 ::
      (collapse lt depth patience last rest).2.1)).Perm (elements (last :: rest)) := by
  induction rest generalizing patience last with
  | nil => exact .refl _
  | cons run rest ih =>
    have merged := Merging.merge_perm lt patience run.items last.items
    rw [collapse]
    generalize Merging.merge lt patience run.items last.items = result at merged ⊢
    split
    · refine (ih _ _).trans ?_
      simp only [elements_cons, List.append_assoc]
      exact merged.append_left _
    · exact .refl _

theorem push_perm (lt : α → α → Bool) (length patience : Nat) (run : Run α)
    (runs : List (Run α)) :
    (elements (push lt length patience run runs).1).Perm (elements (run :: runs)) := by
  cases runs with
  | nil => exact .refl _
  | cons last rest =>
    unfold push
    rw [elements_cons, elements_cons run]
    refine List.Perm.append_right _ ?_
    have := collapse_perm lt (depth length last.start last.items.length run.items.length) patience
      last rest
    rwa [elements_cons] at this ⊢

theorem mergeAll_perm (lt : α → α → Bool) (fuel patience : Nat) (runs : List (Run α)) :
    (mergeAll lt fuel patience runs).Perm (elements runs) := by
  fun_induction mergeAll lt fuel patience runs with
  | case1 fuel patience c b a rest h items patience' heq ih =>
    refine ih.trans ?_
    simp only [elements_cons, List.append_assoc]
    refine List.Perm.append_left _ ?_
    rw [← List.append_assoc]
    refine List.Perm.append_right _ ?_
    have := Merging.merge_perm lt patience a.items b.items
    rwa [heq] at this
  | case2 fuel patience c b a rest h items patience' heq ih =>
    refine ih.trans ?_
    simp only [elements_cons, List.append_assoc]
    refine List.Perm.append_left _ (List.Perm.append_left _ ?_)
    have := Merging.merge_perm lt patience b.items c.items
    rwa [heq] at this
  | case3 fuel patience b a =>
    simp only [elements_cons]
    exact Merging.merge_perm ..
  | case4 => exact .refl _

theorem sortFuel_perm (lt : α → α → Bool) (length fuel patience start : Nat)
    (runs : List (Run α)) (xs : List α) :
    (sortFuel lt length fuel patience start runs xs).Perm (elements runs ++ xs) := by
  induction fuel generalizing patience start runs xs with
  | zero => exact (mergeAll_perm ..).append_right _
  | succ fuel ih =>
    cases xs with
    | nil => exact (mergeAll_perm ..).append_right _
    | cons x xs =>
      refine (ih ..).trans ?_
      refine ((push_perm ..).append_right _).trans ?_
      rw [elements_cons, List.append_assoc]
      exact (first_perm ..).append_left _

/-- Sorting by runs keeps all elements, whatever the comparison answers. -/
theorem sort_perm (lt : α → α → Bool) (xs : List α) : (sort lt xs).Perm xs :=
  sortFuel_perm lt xs.length xs.length Merging.usualPatience 0 [] xs

end Cardfolio.Runs
