import Cardfolio.Proofs.Datum.Same
import Cardfolio.Proofs.Sorting.Ranked
import Mathlib.Data.List.Basic
import Mathlib.Data.List.Induction

/-!
# Groups, by the places of their first members

`gather` goes through a list once and puts each member into the first group of its
key. Here the same groups are described without going through anything. A member is
the first of its key when no earlier one has the same key (`IsFirst`), and its
companions are itself and all members with the same key, in the order of the list.
`gather_map` says that the groups are exactly that: one for each first member, in
their order, with its companions.

A key that is not the same as itself makes a group of its own each time it occurs,
and the description covers that: a member counts among its companions because it
stands where it stands, and not because its key is the same as its key.

The induction adds a member at the end. Either its key is new, and a group begins;
or one of the first members has the same key, and then only one has, since `same` is
symmetric and transitive and two first members of one key cannot be.
-/

namespace Cardfolio

namespace GroupKey

/-- The key of a value, whether it can be looked up or not. -/
def of : Datum → GroupKey
  | .null => missing
  | .text s => text (Text.comparable s.toList)
  | v => value v

theorem ofDatum_eq {v : Datum} {k : GroupKey} (h : ofDatum v = .ok k) : k = of v := by
  unfold ofDatum at h
  split at h
  · exact (Except.ok.inj h).symm
  · exact (Except.ok.inj h).symm
  · next hnull htext =>
      split at h
      · obtain rfl := Except.ok.inj h
        unfold of
        split
        · exact (hnull rfl).elim
        · exact (htext _ rfl).elim
        · rfl
      · cases h

end GroupKey

section

variable {α : Type _} {key : GroupKey} {member : α}

theorem addMember_of_new {groups : List (GroupKey × List α)}
    (h : ∀ g ∈ groups, g.1.same key = false) :
    addMember key member groups = groups ++ [(key, [member])] := by
  induction groups with
  | nil => rfl
  | cons g rest ih =>
      obtain ⟨hg, hrest⟩ := List.forall_mem_cons.mp h
      rw [addMember, if_neg (by rw [hg]; exact Bool.false_ne_true), ih hrest]
      rfl

/-- A group with one more member, if it is the group of the key. -/
def joined (key : GroupKey) (member : α) (g : GroupKey × List α) : GroupKey × List α :=
  if g.1.same key then (g.1, g.2 ++ [member]) else g

theorem joined_of_other {g : GroupKey × List α} (h : g.1.same key = false) :
    joined key member g = g := by
  rw [joined, if_neg (Bool.eq_false_iff.mp h)]

theorem map_joined_of_new {groups : List (GroupKey × List α)}
    (h : ∀ g ∈ groups, g.1.same key = false) : groups.map (joined key member) = groups :=
  (List.map_congr_left fun g hg => joined_of_other (h g hg)).trans (List.map_id groups)

theorem addMember_of_known {groups : List (GroupKey × List α)}
    (hone : groups.Pairwise fun g g' => g.1.same key = true → g'.1.same key = false)
    (h : ∃ g ∈ groups, g.1.same key = true) :
    addMember key member groups = groups.map (joined key member) := by
  induction groups with
  | nil =>
      obtain ⟨_, hg, _⟩ := h
      cases hg
  | cons g rest ih =>
      obtain ⟨hg, hrest⟩ := List.pairwise_cons.mp hone
      rw [addMember, List.map_cons, joined]
      split
      · next hsame =>
          rw [map_joined_of_new fun g' hg' => hg g' hg' hsame]
      · next hsame =>
          rw [ih hrest ((List.exists_mem_cons_iff ..).mp h |>.resolve_left hsame)]

end

/-! ## First members and their companions -/

section

variable {α β : Type _} (key : α → GroupKey) (xs : List α)

/-- No earlier member has the same key. -/
structure IsFirst (x : α × Nat) : Prop where
  mem : x ∈ xs.zipIdx
  new : ∀ y ∈ xs.zipIdx, y.2 < x.2 → (key y.1).same (key x.1) = false

/-- A member of a list and all that have the same key, in the order of the list. -/
def companions (x : α × Nat) : List α :=
  (xs.zipIdx.filter fun y => y.2 == x.2 || (key x.1).same (key y.1)).map Prod.fst

/-- The members that are the first of their key, in the order of the list. -/
def firsts : List (α × Nat) :=
  xs.zipIdx.filter fun x =>
    xs.zipIdx.all fun y => !(decide (y.2 < x.2) && (key y.1).same (key x.1))

variable {key xs}

theorem mem_firsts_iff {x : α × Nat} : x ∈ firsts key xs ↔ IsFirst key xs x := by
  unfold firsts
  rw [List.mem_filter, List.all_eq_true]
  constructor
  · intro h
    refine ⟨h.1, fun y hy hlt => ?_⟩
    have := h.2 y hy
    rw [decide_eq_true hlt, Bool.true_and, Bool.not_eq_true'] at this
    exact this
  · intro h
    refine ⟨h.mem, fun y hy => ?_⟩
    by_cases hlt : y.2 < x.2
    · rw [h.new y hy hlt, Bool.and_false]
      rfl
    · rw [decide_eq_false hlt, Bool.false_and]
      rfl

theorem firsts_places_lt : (firsts key xs).Pairwise fun x y => x.2 < y.2 :=
  (places_lt xs).filter _

theorem firsts_nodup : (firsts key xs).Nodup := by
  refine firsts_places_lt.imp ?_
  intro x y hlt heq
  rw [heq] at hlt
  exact Nat.lt_irrefl _ hlt

/-- Two first members have different keys. -/
theorem firsts_pairwise_not_same :
    (firsts key xs).Pairwise fun x y => (key x.1).same (key y.1) = false := by
  refine firsts_places_lt.imp_of_mem ?_
  intro x y hx hy hlt
  exact (mem_firsts_iff.mp hy).new x (mem_firsts_iff.mp hx).mem hlt

/-- Where a key occurs, it occurs for the first time. -/
theorem exists_first {k : GroupKey} {y : α × Nat} (hy : y ∈ xs.zipIdx)
    (hsame : (key y.1).same k = true) : ∃ x ∈ firsts key xs, (key x.1).same k = true := by
  induction hn : y.2 using Nat.strongRecOn generalizing y with
  | ind n ih =>
      by_cases hfirst : IsFirst key xs y
      · exact ⟨y, mem_firsts_iff.mpr hfirst, hsame⟩
      · obtain ⟨z, hz, hlt, hzy⟩ :
            ∃ z ∈ xs.zipIdx, z.2 < y.2 ∧ (key z.1).same (key y.1) = true := by
          by_contra hnone
          refine hfirst ⟨hy, fun z hz hlt => ?_⟩
          rw [Bool.eq_false_iff]
          exact fun hzy => hnone ⟨z, hz, hlt, hzy⟩
        exact ih z.2 (hn ▸ hlt) hz (GroupKey.same_trans hzy hsame) rfl

theorem head?_of_least {ys : List (α × Nat)} {x : α × Nat}
    (hplaces : ys.Pairwise fun x y => x.2 < y.2) (hx : x ∈ ys) (hleast : ∀ y ∈ ys, x.2 ≤ y.2) :
    ys.head? = some x := by
  cases ys with
  | nil => cases hx
  | cons y rest =>
      rcases List.mem_cons.mp hx with rfl | hx
      · rfl
      · have hlt := (List.pairwise_cons.mp hplaces).1 x hx
        have hle := hleast y List.mem_cons_self
        omega

/-- The companions of a first member begin with it. -/
theorem companions_head? {x : α × Nat} (hx : IsFirst key xs x) :
    (companions key xs x).head? = some x.1 := by
  rw [companions, List.head?_map, head?_of_least ((places_lt xs).filter _)]
  · rfl
  · refine List.mem_filter.mpr ⟨hx.mem, ?_⟩
    rw [beq_self_eq_true, Bool.true_or]
  · intro y hy
    obtain ⟨hmem, hy⟩ := List.mem_filter.mp hy
    rcases Bool.or_eq_true .. ▸ hy with heq | hsame
    · exact Nat.le_of_eq (beq_iff_eq.mp heq).symm
    · by_contra hlt
      have hnew := hx.new y hmem (Nat.lt_of_not_le hlt)
      rw [GroupKey.same_symm hsame] at hnew
      cases hnew

theorem place_lt_length {x : α × Nat} (hx : x ∈ xs.zipIdx) : x.2 < xs.length := by
  have := (List.mem_zipIdx hx).2.1
  omega

/-! ## A member at the end -/

theorem zipIdx_concat (xs : List α) (x : α) :
    (xs ++ [x]).zipIdx = xs.zipIdx ++ [(x, xs.length)] := by
  rw [List.zipIdx_append, Nat.zero_add]
  rfl

theorem filter_firsts_concat (x : α) :
    (xs.zipIdx.filter fun y => (xs ++ [x]).zipIdx.all fun z =>
      !(decide (z.2 < y.2) && (key z.1).same (key y.1))) = firsts key xs := by
  refine List.filter_congr fun y hy => ?_
  have hlast : ¬ xs.length < y.2 := by have := place_lt_length hy; omega
  rw [zipIdx_concat, List.all_append, List.all_cons, List.all_nil, decide_eq_false hlast,
    Bool.false_and, Bool.not_false, Bool.and_true, Bool.and_true]

theorem isFirst_concat_iff {x : α} :
    IsFirst key (xs ++ [x]) (x, xs.length) ↔
      ∀ y ∈ xs.zipIdx, (key y.1).same (key x) = false := by
  constructor
  · intro h y hy
    refine h.new y ?_ (place_lt_length hy)
    rw [zipIdx_concat]
    exact List.mem_append_left _ hy
  · intro h
    constructor
    · rw [zipIdx_concat]
      exact List.mem_append_right _ (List.mem_singleton_self _)
    · intro y hy hlt
      rw [zipIdx_concat] at hy
      rcases List.mem_append.mp hy with hy | hy
      · exact h y hy
      · rw [List.mem_singleton.mp hy] at hlt
        exact (Nat.lt_irrefl _ hlt).elim

theorem firsts_concat_of_new {x : α}
    (h : ∀ y ∈ xs.zipIdx, (key y.1).same (key x) = false) :
    firsts key (xs ++ [x]) = firsts key xs ++ [(x, xs.length)] := by
  have hx := mem_firsts_iff.mpr (isFirst_concat_iff.mpr h)
  have hpred := (List.mem_filter.mp hx).2
  rw [firsts]
  conv => lhs; arg 2; rw [zipIdx_concat]
  rw [List.filter_append, filter_firsts_concat, List.filter_cons, if_pos hpred]
  rfl

theorem firsts_concat_of_known {x : α}
    (h : ∃ y ∈ xs.zipIdx, (key y.1).same (key x) = true) :
    firsts key (xs ++ [x]) = firsts key xs := by
  obtain ⟨y, hy, hsame⟩ := h
  have hx : ¬ IsFirst key (xs ++ [x]) (x, xs.length) := by
    intro hfirst
    rw [isFirst_concat_iff.mp hfirst y hy] at hsame
    cases hsame
  rw [← mem_firsts_iff, firsts, List.mem_filter, not_and] at hx
  have hmem : (x, xs.length) ∈ (xs ++ [x]).zipIdx := by
    rw [zipIdx_concat]
    exact List.mem_append_right _ (List.mem_singleton_self _)
  rw [firsts]
  conv => lhs; arg 2; rw [zipIdx_concat]
  rw [List.filter_append, filter_firsts_concat, List.filter_cons, if_neg (hx hmem)]
  exact List.append_nil _

theorem companions_concat {x : α} {y : α × Nat} (hy : y ∈ xs.zipIdx) :
    companions key (xs ++ [x]) y =
      companions key xs y ++ if (key y.1).same (key x) = true then [x] else [] := by
  have hlast : (xs.length == y.2) = false := by
    have := place_lt_length hy
    rw [beq_eq_false_iff_ne]
    omega
  rw [companions, zipIdx_concat, List.filter_append, List.map_append, List.filter_cons,
    hlast, Bool.false_or]
  split
  · rfl
  · rfl

theorem companions_concat_self {x : α}
    (h : ∀ y ∈ xs.zipIdx, (key y.1).same (key x) = false) :
    companions key (xs ++ [x]) (x, xs.length) = [x] := by
  have hnone : (xs.zipIdx.filter fun y =>
      y.2 == xs.length || (key x).same (key y.1)) = [] := by
    rw [List.filter_eq_nil_iff]
    intro y hy
    have := place_lt_length hy
    rw [Bool.or_eq_true, beq_iff_eq]
    rintro (heq | hsame)
    · omega
    · have := h y hy
      rw [GroupKey.same_symm hsame] at this
      cases this
  rw [companions, zipIdx_concat, List.filter_append, hnone, List.filter_cons,
    beq_self_eq_true, Bool.true_or]
  rfl

/-- One group for each first member: its key, and what is kept of its companions. -/
def groupsOf (key : α → GroupKey) (f : α → β) (xs : List α) : List (GroupKey × List β) :=
  (firsts key xs).map fun x => (key x.1, (companions key xs x).map f)

theorem groupsOf_concat_of_new (f : α → β) {x : α}
    (h : ∀ y ∈ xs.zipIdx, (key y.1).same (key x) = false) :
    addMember (key x) (f x) (groupsOf key f xs) = groupsOf key f (xs ++ [x]) := by
  rw [groupsOf, groupsOf, firsts_concat_of_new h, List.map_append, addMember_of_new]
  · refine congrArg₂ _ (List.map_congr_left fun y hy => ?_) ?_
    · have hmem := (mem_firsts_iff.mp hy).mem
      rw [companions_concat hmem, h y hmem, if_neg Bool.false_ne_true, List.append_nil]
    · rw [List.map_singleton, companions_concat_self h]
      rfl
  · intro g hg
    obtain ⟨y, hy, rfl⟩ := List.mem_map.mp hg
    exact h y (mem_firsts_iff.mp hy).mem

theorem groupsOf_concat_of_known (f : α → β) {x : α}
    (h : ∃ y ∈ xs.zipIdx, (key y.1).same (key x) = true) :
    addMember (key x) (f x) (groupsOf key f xs) = groupsOf key f (xs ++ [x]) := by
  rw [groupsOf, groupsOf, firsts_concat_of_known h, addMember_of_known, List.map_map]
  · refine List.map_congr_left fun z hz => ?_
    rw [companions_concat (mem_firsts_iff.mp hz).mem]
    show joined (key x) (f x) (key z.1, _) = _
    rw [joined]
    split
    · rw [List.map_append]
      rfl
    · rw [List.append_nil]
  · rw [List.pairwise_map]
    refine firsts_pairwise_not_same.imp fun hne hzx => ?_
    rw [Bool.eq_false_iff]
    intro hwx
    rw [GroupKey.same_trans hzx (GroupKey.same_symm hwx)] at hne
    cases hne
  · obtain ⟨y, hy, hsame⟩ := h
    obtain ⟨z, hz, hzx⟩ := exists_first hy hsame
    exact ⟨_, List.mem_map.mpr ⟨z, hz, rfl⟩, hzx⟩

/-- The groups of a list are the companions of the first members, in their order. -/
theorem gather_map (f : α → β) (xs : List α) :
    gather (xs.map fun x => (key x, f x)) = groupsOf key f xs := by
  induction xs using List.reverseRecOn with
  | nil => rfl
  | append_singleton xs x ih =>
      have hstep : gather ((xs ++ [x]).map fun x => (key x, f x)) =
          addMember (key x) (f x) (gather (xs.map fun x => (key x, f x))) := by
        rw [gather, List.map_append, List.foldl_append]
        rfl
      rw [hstep, ih]
      by_cases hnew : ∀ y ∈ xs.zipIdx, (key y.1).same (key x) = false
      · exact groupsOf_concat_of_new f hnew
      · refine groupsOf_concat_of_known f ?_
        by_contra hnone
        refine hnew fun y hy => ?_
        rw [Bool.eq_false_iff]
        exact fun hsame => hnone ⟨y, hy, hsame⟩

theorem gather_eq_groupsOf (keyed : List (GroupKey × α)) :
    gather keyed = groupsOf Prod.fst Prod.snd keyed := by
  rw [← gather_map, List.map_id']

end

end Cardfolio
