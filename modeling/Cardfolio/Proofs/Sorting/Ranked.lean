import Cardfolio.Proofs.Number.Order
import Cardfolio.Proofs.Sorting.Mapped
import Cardfolio.Query.Ranking
import Mathlib.Data.List.Sigma

/-!
# What a stable sort promises

A sorted list is a permutation of what was sorted, and no element of it stands after
one that it is before. A stable sort promises a third thing, about ties. Equal
elements cannot be told apart by looking at them, so the promise is made about any
relation `before` that holds from each element of the input to those after it: from
a tie to a tie it holds in the sorted list too. With places for elements and the
order of places for `before` this says that ties stay in the order of the input, and
`Ranked` then fixes the whole list.

`rising_ranked` and `falling_ranked` say that both directions of sorting keep the
promise. For a rising sort that is the stability of merge sort. A falling sort turns
the list round, sorts it, and turns the result round, and so turns each tie round
twice.

Only the elements of the list need to be comparable. The laws about merge sort ask
for an order of the whole type, and are therefore used at the type of elements of
the list.
-/

namespace Cardfolio

variable {α β : Type _}

/-- The elements of a list can be ordered by `lt`, up to ties. -/
structure OrderedBy (lt : α → α → Bool) (xs : List α) : Prop where
  asymm : ∀ a ∈ xs, ∀ b ∈ xs, lt a b = true → lt b a = false
  trans : ∀ a ∈ xs, ∀ b ∈ xs, ∀ c ∈ xs, lt b a = false → lt c b = false → lt c a = false

/-- The elements of `xs` in the order of `lt`, ties as they were. -/
structure Ranked (lt : α → α → Bool) (before : α → α → Prop) (xs ys : List α) : Prop where
  perm : ys.Perm xs
  sorted : ys.Pairwise fun x y => lt y x = false
  stable : ys.Pairwise fun x y => lt x y = false → before x y

theorem zipIdxLE_eq_true_iff {le : α → α → Bool} {x y : α × Nat} :
    List.zipIdxLE le x y = true ↔
      le x.1 y.1 = true ∧ (le y.1 x.1 = true → x.2 ≤ y.2) := by
  unfold List.zipIdxLE
  split
  · next hxy =>
      split
      · next hyx =>
          rw [decide_eq_true_eq]
          exact ⟨fun h => ⟨hxy, fun _ => h⟩, fun h => h.2 hyx⟩
      · next hyx =>
          exact ⟨fun _ => ⟨hxy, fun h => (hyx h).elim⟩, fun _ => rfl⟩
  · next hxy =>
      exact ⟨nofun, fun h => (hxy h.1).elim⟩

/-- Places tell whether one element came before another. -/
theorem before_of_places {before : α → α → Prop} {xs : List α} (h : xs.Pairwise before)
    {x y : α × Nat} (hx : x ∈ xs.zipIdx) (hy : y ∈ xs.zipIdx) (hlt : x.2 < y.2) :
    before x.1 y.1 := by
  obtain ⟨_, hxlen, hxval⟩ := List.mem_zipIdx hx
  obtain ⟨_, hylen, hyval⟩ := List.mem_zipIdx hy
  rw [hxval, hyval]
  exact List.pairwise_iff_getElem.mp h _ _ _ _ (by omega)

theorem places_lt (xs : List α) : xs.zipIdx.Pairwise fun x y => x.2 < y.2 := by
  rw [← List.pairwise_map (f := Prod.snd), List.zipIdx_map_snd]
  exact List.pairwise_lt_range'

theorem places_ne (xs : List α) : xs.zipIdx.Pairwise fun x y => x.2 ≠ y.2 :=
  (places_lt xs).imp Nat.ne_of_lt

/-- Merge sort by an order of the whole type, with what it promises about ties. -/
theorem pairwise_mergeSort_stable {le : α → α → Bool} {before : α → α → Prop} {xs : List α}
    (htrans : ∀ a b c, le a b = true → le b c = true → le a c = true)
    (htotal : ∀ a b, (le a b || le b a) = true) (hbefore : xs.Pairwise before) :
    (xs.mergeSort le).Pairwise fun x y => le x y = true ∧ (le y x = true → before x y) := by
  let placed := xs.zipIdx.mergeSort (List.zipIdxLE le)
  have hperm : placed.Perm xs.zipIdx := List.mergeSort_perm _ _
  have hplaced : placed.Pairwise fun x y => List.zipIdxLE le x y = true :=
    List.pairwise_mergeSort (List.zipIdxLE_trans htrans) (List.zipIdxLE_total htotal) _
  have hne : placed.Pairwise fun x y => x.2 ≠ y.2 :=
    (hperm.symm.pairwise_iff fun h => h.symm).mp (places_ne _)
  rw [← List.mergeSort_zipIdx, List.pairwise_map]
  refine (hplaced.and hne).imp_of_mem ?_
  intro x y hx hy hxy
  obtain ⟨hle, hties⟩ := zipIdxLE_eq_true_iff.mp hxy.1
  refine ⟨hle, fun htie => ?_⟩
  exact before_of_places hbefore (hperm.mem_iff.mp hx) (hperm.mem_iff.mp hy)
    (Nat.lt_of_le_of_ne (hties htie) hxy.2)

namespace Stable

theorem sort_ranked {lt : α → α → Bool} {before : α → α → Prop} {xs : List α}
    (hbefore : xs.Pairwise before) (h : OrderedBy lt xs) :
    Ranked lt before xs (sort (fun a b => !lt b a) xs) := by
  -- The elements of the list are a type of their own, and `lt` orders all of it.
  let le (a b : { x // x ∈ xs }) : Bool := !lt b.1 a.1
  have htrans : ∀ a b c, le a b = true → le b c = true → le a c = true := by
    intro a b c hab hbc
    rw [Bool.not_eq_true'] at hab hbc ⊢
    exact h.trans a a.2 b b.2 c c.2 hab hbc
  have htotal : ∀ a b, (le a b || le b a) = true := by
    intro a b
    rw [Bool.or_eq_true, Bool.not_eq_true', Bool.not_eq_true']
    cases hab : lt b.1 a.1 with
    | false => exact Or.inl rfl
    | true => exact Or.inr (h.asymm b b.2 a a.2 hab)
  have hattach : xs.attach.Pairwise fun a b => before a.1 b.1 := by
    rw [← List.pairwise_map (f := Subtype.val), List.attach_map_subtype_val]
    exact hbefore
  have hsort : sort (fun a b => !lt b a) xs = (xs.attach.mergeSort le).map Subtype.val := by
    have hval := List.map_mergeSort (r := le) (s := fun a b => !lt b a) (f := Subtype.val)
      (l := xs.attach) fun _ _ _ _ => rfl
    rw [List.attach_map_subtype_val] at hval
    rw [sort_eq_mergeSort, hval]
  have hsorted := pairwise_mergeSort_stable htrans htotal hattach
  refine ⟨?_, ?_, ?_⟩
  · rw [sort_eq_mergeSort]
    exact List.mergeSort_perm _ _
  · rw [hsort, List.pairwise_map]
    refine hsorted.imp fun hxy => ?_
    have := hxy.1
    rwa [Bool.not_eq_true'] at this
  · rw [hsort, List.pairwise_map]
    refine hsorted.imp fun hxy htie => hxy.2 ?_
    rw [Bool.not_eq_true']
    exact htie

theorem sort_map {le : β → β → Bool} (f : α → β) (xs : List α) :
    sort le (xs.map f) = (sort (fun a b => le (f a) (f b)) xs).map f := by
  rw [sort_eq_mergeSort, sort_eq_mergeSort]
  exact (List.map_mergeSort (f := f) fun _ _ _ _ => rfl).symm

end Stable

theorem OrderedBy.reverse {lt : α → α → Bool} {xs : List α} (h : OrderedBy lt xs) :
    OrderedBy lt xs.reverse := by
  constructor
  · intro a ha b hb
    rw [List.mem_reverse] at ha hb
    exact h.asymm a ha b hb
  · intro a ha b hb c hc
    rw [List.mem_reverse] at ha hb hc
    exact h.trans a ha b hb c hc

theorem OrderedBy.converse {lt : α → α → Bool} {xs : List α} (h : OrderedBy lt xs) :
    OrderedBy (fun a b => lt b a) xs := by
  constructor
  · intro a ha b hb hba
    exact h.asymm b hb a ha hba
  · intro a ha b hb c hc hab hbc
    exact h.trans c hc b hb a ha hbc hab

theorem orderedBy_map_iff {lt : β → β → Bool} {f : α → β} {xs : List α} :
    OrderedBy lt (xs.map f) ↔ OrderedBy (fun a b => lt (f a) (f b)) xs := by
  constructor
  · intro h
    constructor
    · intro a ha b hb
      exact h.asymm _ (List.mem_map_of_mem ha) _ (List.mem_map_of_mem hb)
    · intro a ha b hb c hc
      exact h.trans _ (List.mem_map_of_mem ha) _ (List.mem_map_of_mem hb) _
        (List.mem_map_of_mem hc)
  · intro h
    constructor
    · intro a ha b hb
      obtain ⟨x, hx, rfl⟩ := List.mem_map.mp ha
      obtain ⟨y, hy, rfl⟩ := List.mem_map.mp hb
      exact h.asymm x hx y hy
    · intro a ha b hb c hc
      obtain ⟨x, hx, rfl⟩ := List.mem_map.mp ha
      obtain ⟨y, hy, rfl⟩ := List.mem_map.mp hb
      obtain ⟨z, hz, rfl⟩ := List.mem_map.mp hc
      exact h.trans x hx y hy z hz

/-- Numbers can be ordered, those that are none apart. -/
theorem Number.orderedBy_lt {numbers : List Number} (h : ∀ n ∈ numbers, n.isNaN = false) :
    OrderedBy lt numbers := by
  constructor
  · intro a _ b _ hab
    exact lt_asymm hab
  · intro a _ b hb c _ hab hbc
    exact not_lt_trans (h b hb) hab hbc

/-- Elements can be ordered by how much there is of each, the most first. -/
theorem orderedBy_count (count : α → Nat) (xs : List α) :
    OrderedBy (fun x y => decide (count y < count x)) xs := by
  constructor
  · intro a _ b _ hab
    rw [decide_eq_true_eq] at hab
    rw [decide_eq_false_iff_not]
    omega
  · intro a _ b _ c _ hab hbc
    rw [decide_eq_false_iff_not] at hab hbc ⊢
    omega

/-- A ranking that is turned round ranks the other way. -/
theorem Ranked.reverse {lt : α → α → Bool} {before : α → α → Prop} {xs ys : List α}
    (h : Ranked lt (fun x y => before y x) xs.reverse ys) :
    Ranked (fun x y => lt y x) before xs ys.reverse := by
  refine ⟨?_, ?_, ?_⟩
  · exact (List.reverse_perm ys).trans (h.perm.trans (List.reverse_perm xs))
  · rw [List.pairwise_reverse]
    exact h.sorted
  · rw [List.pairwise_reverse]
    exact h.stable

/-- There is one ranking of some elements, where each comes before or after each other. -/
theorem Ranked.eq {lt : α → α → Bool} {before : α → α → Prop} {xs ys ys' : List α}
    (hbefore : ∀ x y, before x y → ¬ before y x) (h : Ranked lt before xs ys)
    (h' : Ranked lt before xs ys') : ys = ys' := by
  refine List.Perm.eq_of_pairwise ?_ (h.sorted.and h.stable) (h'.sorted.and h'.stable)
    (h.perm.trans h'.perm.symm)
  intro x y _ _ hxy hyx
  exact (hbefore x y (hxy.2 hyx.1) (hyx.2 hxy.1)).elim

/-- Everything is in front of what stands in a ranking, or it is this, or it is no better and comes
later if it is as good. -/
theorem Ranked.mem_front_or {lt : α → α → Bool} {before : α → α → Prop} {xs front back : List α}
    {x : α} (h : Ranked lt before xs (front ++ x :: back)) {y : α} (hy : y ∈ xs) :
    y ∈ front ∨ y = x ∨ lt y x = false ∧ (lt x y = false → before x y) := by
  rcases List.mem_append.mp (h.perm.mem_iff.mpr hy) with hfront | hrest
  · exact Or.inl hfront
  · rcases List.mem_cons.mp hrest with rfl | hback
    · exact Or.inr (Or.inl rfl)
    · have hsorted := (List.pairwise_append.mp h.sorted).2.1
      have hstable := (List.pairwise_append.mp h.stable).2.1
      exact Or.inr (Or.inr ⟨List.rel_of_pairwise_cons hsorted hback,
        List.rel_of_pairwise_cons hstable hback⟩)

/-- A selection of a ranking ranks the selection. -/
theorem Ranked.filter {lt : α → α → Bool} {before : α → α → Prop} {xs ys : List α}
    (h : Ranked lt before xs ys) (p : α → Bool) :
    Ranked lt before (xs.filter p) (ys.filter p) :=
  ⟨h.perm.filter p, h.sorted.filter p, h.stable.filter p⟩

theorem OrderedBy.filter {lt : α → α → Bool} {xs : List α} (h : OrderedBy lt xs) (p : α → Bool) :
    OrderedBy lt (xs.filter p) where
  asymm a ha b hb := h.asymm a (List.mem_filter.mp ha).1 b (List.mem_filter.mp hb).1
  trans a ha b hb c hc :=
    h.trans a (List.mem_filter.mp ha).1 b (List.mem_filter.mp hb).1 c (List.mem_filter.mp hc).1

namespace Ranking

theorem rising_ranked {lt : α → α → Bool} {before : α → α → Prop} {xs : List α}
    (hbefore : xs.Pairwise before) (h : OrderedBy lt xs) :
    Ranked lt before xs (rising true lt xs) :=
  Stable.sort_ranked hbefore h

theorem falling_ranked {lt : α → α → Bool} {before : α → α → Prop} {xs : List α}
    (hbefore : xs.Pairwise before) (h : OrderedBy lt xs) :
    Ranked (fun x y => lt y x) before xs (falling true lt xs) := by
  refine Ranked.reverse (rising_ranked ?_ h.reverse)
  rw [List.pairwise_reverse]
  exact hbefore

theorem rising_map (comparable : Bool) (lt : β → β → Bool) (f : α → β) (xs : List α) :
    rising comparable lt (xs.map f) = (rising comparable (fun a b => lt (f a) (f b)) xs).map f := by
  cases comparable with
  | false => exact Runs.sort_map lt f xs
  | true => exact Stable.sort_map f xs

theorem falling_map (comparable : Bool) (lt : β → β → Bool) (f : α → β) (xs : List α) :
    falling comparable lt (xs.map f) =
      (falling comparable (fun a b => lt (f a) (f b)) xs).map f := by
  unfold falling
  rw [← List.map_reverse, rising_map, List.map_reverse]

/-- To sort some of the elements is to sort all of them and keep these. -/
theorem rising_filter {lt : α → α → Bool} {xs : List α} (h : OrderedBy lt xs) (p : α → Bool) :
    rising true lt (xs.filter p) = (rising true lt xs).filter p := by
  -- With their places the elements have one ranking, which the sorted places are.
  have hplaces : OrderedBy (fun x y : α × Nat => lt x.1 y.1) xs.zipIdx := by
    rw [← orderedBy_map_iff, List.zipIdx_map_fst]
    exact h
  have hall := rising_ranked (places_lt xs) hplaces
  have hsome := rising_ranked ((places_lt xs).filter fun x => p x.1) (hplaces.filter fun x => p x.1)
  have heq := hsome.eq (fun _ _ hlt hgt => Nat.lt_asymm hlt hgt) (hall.filter fun x => p x.1)
  have hxs : xs = xs.zipIdx.map Prod.fst := (List.zipIdx_map_fst 0 xs).symm
  calc rising true lt (xs.filter p)
      = rising true lt ((xs.zipIdx.filter fun x => p x.1).map Prod.fst) := by
        conv => lhs; rw [hxs, List.filter_map]
        rfl
    _ = ((rising true (fun x y => lt x.1 y.1) xs.zipIdx).filter fun x => p x.1).map Prod.fst := by
        rw [rising_map, heq]
    _ = (rising true lt xs).filter p := by
        conv => rhs; rw [hxs, rising_map, List.filter_map]
        rfl

/-- Sorting keeps all elements, comparable or not. -/
theorem rising_perm (comparable : Bool) (lt : α → α → Bool) (xs : List α) :
    (rising comparable lt xs).Perm xs := by
  unfold rising
  split
  · rw [Stable.sort_eq_mergeSort]
    exact List.mergeSort_perm _ _
  · exact Runs.sort_perm lt xs

end Ranking

end Cardfolio
