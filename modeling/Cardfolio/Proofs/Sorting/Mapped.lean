import Cardfolio.Sorting.Runs

/-!
# Sorting sees only what it compares

Elements are often sorted by something that is made of them. Then it makes no difference
whether they are sorted by it or it is made first and sorted: both ways every comparison
has the same answer, and nothing but the answers decides what is moved where.

For a stable sort this is a law of the result. Sorting by runs has no law when some elements
cannot be compared, so it is shown of the procedure: every step of it, from the search for a
boundary up to the stack of runs, does with the images what it does with the elements.
-/

namespace Cardfolio

variable {α β : Type _}

namespace Boundary

theorem halve_map (p : β → Bool) (f : α → β) (xs : List α) (fuel low high : Nat) :
    halve p (xs.map f) fuel low high = halve (fun x => p (f x)) xs fuel low high := by
  induction fuel generalizing low high with
  | zero => rfl
  | succ fuel ih =>
      simp only [halve, List.getElem?_map]
      cases xs[low + (high - low) / 2]? with
      | none => rfl
      | some x => simp only [Option.map_some, ih]

theorem between_map (p : β → Bool) (f : α → β) (xs : List α) (low high : Nat) :
    between p (xs.map f) low high = between (fun x => p (f x)) xs low high :=
  halve_map p f xs (high - low) low high

theorem gallop_map (p : β → Bool) (f : α → β) (xs : List α) (start : Nat) :
    gallop p (xs.map f) start = gallop (fun x => p (f x)) xs start := by
  have hany : ∀ i : Nat, (xs.map f)[i]?.any p = xs[i]?.any fun x => p (f x) := by
    intro i
    rw [List.getElem?_map]
    cases xs[i]? <;> rfl
  simp only [gallop, hany, List.length_map, between_map]

end Boundary

namespace Merging

/-- The images of the elements of two lists. -/
abbrev images (f : α → β) (parts : List α × List α) : List β × List β :=
  (parts.1.map f, parts.2.map f)

/-- A merge of images. -/
abbrev imageOf (f : α → β) (merged : List α × Nat) : List β × Nat :=
  (merged.1.map f, merged.2)

namespace End

theorem next?_map (e : End) (f : α → β) (xs : List α) :
    e.next? (xs.map f) = (e.next? xs).map fun next => (f next.1, next.2.map f) := by
  cases e with
  | front => cases xs <;> rfl
  | back =>
      simp only [next?, List.getLast?_map, Option.map_map, ← List.map_dropLast]
      rfl

theorem put_map (e : End) (f : α → β) (taken rest : List α) :
    e.put (taken.map f) (rest.map f) = (e.put taken rest).map f := by
  cases e <;> simp [put]

theorem cut_map (e : End) (f : α → β) (place : Nat) (xs : List α) :
    e.cut place (xs.map f) = images f (e.cut place xs) := by
  cases e <;> simp [cut, images]

theorem place_map (e : End) (f : α → β) (xs : List α) : e.place (xs.map f) = e.place xs := by
  cases e <;> simp [place]

end End

theorem settled?_map (e : End) (f : α → β) (left right : List α) :
    settled? e (left.map f) (right.map f) = (settled? e left right).map (List.map f) := by
  match e, left, right with
  | _, [], right => simp [settled?]
  | e, a :: left, [] => simp [settled?]
  | .front, [a], b :: right => simp [settled?]
  | .front, a :: a' :: left, b :: right => simp [settled?]
  | .back, a :: left, [b] => simp [settled?]
  | .back, a :: left, b :: b' :: right => simp [settled?]

theorem mergeFuel_map (lt : β → β → Bool) (f : α → β) (e : End) (fuel : Nat) (pace : Pace)
    (patience : Nat) (left right : List α) :
    mergeFuel lt e fuel pace patience (left.map f) (right.map f)
      = imageOf f (mergeFuel (fun a b => lt (f a) (f b)) e fuel pace patience left right) := by
  induction fuel generalizing pace patience left right with
  | zero => simp [mergeFuel, imageOf]
  | succ fuel ih =>
      rw [mergeFuel, mergeFuel, settled?_map, End.next?_map, End.next?_map]
      cases hsettled : settled? e left right with
      | some merged => rfl
      | none =>
          cases hleft : e.next? left with
          | none => simp [imageOf]
          | some a =>
              cases hright : e.next? right with
              | none => simp [imageOf]
              | some b =>
                  obtain ⟨a, left'⟩ := a
                  obtain ⟨b, right'⟩ := b
                  have hone : ∀ x : α, [f x] = [x].map f := fun _ => rfl
                  simp only [Option.map_none, Option.map_some]
                  -- Each pace takes from the ends of the two lists or cuts them at a place.
                  cases pace with
                  | single won lost =>
                      dsimp only
                      split
                      · rw [ih, hone, imageOf, End.put_map]
                      · rw [ih, hone, imageOf, End.put_map]
                  | leapLeft =>
                      simp only [Boundary.gallop_map, End.place_map, End.cut_map, images, ih,
                        imageOf, End.put_map, List.length_map]
                  | takeRight length =>
                      simp only [ih, hone, imageOf, End.put_map]
                  | leapRight longest =>
                      simp only [Boundary.gallop_map, End.place_map, End.cut_map, images, ih,
                        imageOf, End.put_map, List.length_map]
                  | takeLeft longest =>
                      simp only [ih, hone, imageOf, End.put_map]
                  | weigh longest =>
                      dsimp only
                      split
                      · exact ih ..
                      · exact ih ..

theorem mergeFrom_map (lt : β → β → Bool) (f : α → β) (e : End) (patience : Nat)
    (left right : List α) :
    mergeFrom lt e patience (left.map f) (right.map f)
      = imageOf f (mergeFrom (fun a b => lt (f a) (f b)) e patience left right) := by
  unfold mergeFrom
  rw [End.next?_map, End.next?_map, List.length_map, List.length_map]
  cases e with
  | front =>
      cases End.front.next? right with
      | none => simp [imageOf]
      | some b => simp [mergeFuel_map, imageOf]
  | back =>
      cases End.back.next? left with
      | none => simp [imageOf]
      | some a => simp [mergeFuel_map, imageOf]

theorem merge_map (lt : β → β → Bool) (f : α → β) (patience : Nat) (left right : List α) :
    merge lt patience (left.map f) (right.map f)
      = imageOf f (merge (fun a b => lt (f a) (f b)) patience left right) := by
  cases right with
  | nil => rfl
  | cons b right =>
      rw [List.map_cons, merge, merge, Boundary.gallop_map, End.cut_map]
      generalize End.front.cut (Boundary.gallop (fun x => !lt (f b) (f x)) left 0) left = parts
      obtain ⟨before, left'⟩ := parts
      dsimp only [images]
      rw [List.getLast?_map]
      cases left'.getLast? with
      | none => simp [imageOf]
      | some a =>
          have hright : f b :: right.map f = (b :: right).map f := rfl
          dsimp only [Option.map_some]
          rw [hright, Boundary.gallop_map, List.length_map, End.cut_map]
          simp only [List.length_map, mergeFrom_map]
          rw [imageOf, List.map_append, List.map_append]

end Merging

namespace Runs

/-- The run of images. -/
def Run.image (f : α → β) (run : Run α) : Run β :=
  { run with items := run.items.map f }

theorem stretch_map (step : β → β → Bool) (f : α → β) (x : α) (xs : List α) :
    stretch step (f x) (xs.map f) = stretch (fun a b => step (f a) (f b)) x xs := by
  induction xs generalizing x with
  | nil => rfl
  | cons y rest ih => simp only [List.map_cons, stretch, ih]

theorem insert_map (lt : β → β → Bool) (f : α → β) (run : List α) (x : α) :
    insert lt (run.map f) (f x) = (insert (fun a b => lt (f a) (f b)) run x).map f := by
  simp only [insert, Boundary.between_map, List.length_map, List.map_append, List.map_cons,
    List.map_take, List.map_drop]

theorem natural_map (lt : β → β → Bool) (f : α → β) (xs : List α) :
    natural lt (xs.map f) = Merging.images f (natural (fun a b => lt (f a) (f b)) xs) := by
  match xs with
  | [] => rfl
  | [_] => rfl
  | x :: y :: rest =>
      simp only [List.map_cons, natural, stretch_map]
      split <;> simp [Merging.images]

theorem first_map (lt : β → β → Bool) (f : α → β) (least : Nat) (xs : List α) :
    first lt least (xs.map f)
      = Merging.images f (first (fun a b => lt (f a) (f b)) least xs) := by
  have hfold : ∀ run rest : List α, (rest.map f).foldl (insert lt) (run.map f)
      = (rest.foldl (insert fun a b => lt (f a) (f b)) run).map f := by
    intro run rest
    induction rest generalizing run with
    | nil => rfl
    | cons x rest ih => rw [List.map_cons, List.foldl_cons, insert_map, ih, List.foldl_cons]
  simp only [first, natural_map, Merging.images, List.length_map, ← List.map_take, ← List.map_drop,
    hfold]

theorem collapse_map (lt : β → β → Bool) (f : α → β) (depth patience : Nat) (last : Run α)
    (runs : List (Run α)) :
    collapse lt depth patience (last.image f) (runs.map (Run.image f))
      = let (last, runs, patience) := collapse (fun a b => lt (f a) (f b)) depth patience last runs
        (last.image f, runs.map (Run.image f), patience) := by
  induction runs generalizing patience last with
  | nil => rfl
  | cons run runs ih =>
      have hmerge := Merging.merge_map lt f patience run.items last.items
      -- The depth of a run does not depend on its elements.
      by_cases hdepth : depth < run.depth
      · have hdepth' : depth < (run.image f).depth := hdepth
        rw [List.map_cons, collapse, collapse, if_pos hdepth, if_pos hdepth']
        have hitems : (Merging.merge lt patience (run.image f).items (last.image f).items)
            = Merging.imageOf f
              (Merging.merge (fun a b => lt (f a) (f b)) patience run.items last.items) := hmerge
        rw [hitems]
        exact ih _ { run with
          items := (Merging.merge (fun a b => lt (f a) (f b)) patience run.items last.items).1 }
      · have hdepth' : ¬ depth < (run.image f).depth := hdepth
        rw [List.map_cons, collapse, collapse, if_neg hdepth, if_neg hdepth']
        rfl

theorem push_map (lt : β → β → Bool) (f : α → β) (length patience : Nat) (run : Run α)
    (runs : List (Run α)) :
    push lt length patience (run.image f) (runs.map (Run.image f))
      = let (runs, patience) := push (fun a b => lt (f a) (f b)) length patience run runs
        (runs.map (Run.image f), patience) := by
  cases runs with
  | nil => rfl
  | cons last runs =>
      have hlength : ∀ run : Run α, (run.image f).items.length = run.items.length :=
        fun run => List.length_map _
      simp only [List.map_cons, push, hlength, collapse_map]
      rfl

theorem elements_map (f : α → β) (runs : List (Run α)) :
    elements (runs.map (Run.image f)) = (elements runs).map f := by
  induction runs with
  | nil => rfl
  | cons run runs ih => rw [List.map_cons, elements_cons, elements_cons, ih, List.map_append]; rfl

theorem mergeAll_map (lt : β → β → Bool) (f : α → β) (fuel patience : Nat)
    (runs : List (Run α)) :
    mergeAll lt fuel patience (runs.map (Run.image f))
      = (mergeAll (fun a b => lt (f a) (f b)) fuel patience runs).map f := by
  have hmerge : ∀ (patience : Nat) (a b : Run α),
      Merging.merge lt patience (a.image f).items (b.image f).items
        = Merging.imageOf f (Merging.merge (fun a b => lt (f a) (f b)) patience a.items b.items) :=
    fun patience a b => Merging.merge_map lt f patience a.items b.items
  induction fuel generalizing patience runs with
  | zero =>
      match runs with
      | [b, a] => simp [mergeAll, hmerge, Merging.imageOf]
      | [] => exact elements_map f []
      | [a] => exact elements_map f [a]
      | a :: b :: c :: rest => exact elements_map f (a :: b :: c :: rest)
  | succ fuel ih =>
      match runs with
      | [b, a] => simp [mergeAll, hmerge, Merging.imageOf]
      | [] => exact elements_map f []
      | [a] => exact elements_map f [a]
      | c :: b :: a :: rest =>
          have hlength : ∀ run : Run α, (run.image f).items.length = run.items.length :=
            fun run => List.length_map _
          simp only [List.map_cons, mergeAll, hlength, hmerge]
          split
          · exact ih _ (c :: { a with items := _ } :: rest)
          · exact ih _ ({ b with items := _ } :: a :: rest)

theorem sortFuel_map (lt : β → β → Bool) (f : α → β) (length fuel patience start : Nat)
    (runs : List (Run α)) (xs : List α) :
    sortFuel lt length fuel patience start (runs.map (Run.image f)) (xs.map f)
      = (sortFuel (fun a b => lt (f a) (f b)) length fuel patience start runs xs).map f := by
  induction fuel generalizing patience start runs xs with
  | zero => simp [sortFuel, mergeAll_map]
  | succ fuel ih =>
      cases xs with
      | nil => simp [sortFuel, mergeAll_map]
      | cons x xs =>
          rw [List.map_cons, sortFuel, sortFuel, ← List.map_cons, first_map]
          generalize first _ (leastLength length) (x :: xs) = parts
          obtain ⟨items, rest⟩ := parts
          have hpush := push_map lt f length patience ⟨start, items, 0⟩ runs
          dsimp only [Merging.images, Run.image] at hpush ⊢
          rw [hpush, List.length_map]
          exact ih ..

theorem sort_map (lt : β → β → Bool) (f : α → β) (xs : List α) :
    sort lt (xs.map f) = (sort (fun a b => lt (f a) (f b)) xs).map f := by
  rw [sort, sort, List.length_map]
  exact sortFuel_map lt f _ _ _ 0 [] xs

end Runs

end Cardfolio
