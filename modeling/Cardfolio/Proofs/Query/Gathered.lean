import Cardfolio.Proofs.Query.Groups
import Mathlib.Algebra.BigOperators.Group.List.Basic
import Mathlib.Algebra.Ring.Int.Defs
import Mathlib.Data.Multiset.AddSub
import Mathlib.Data.Multiset.MapFold

/-!
# What gathering keeps

`gather` puts each member into one group and leaves none out. So whatever can be added up
over the members of a list is the same when it is added up group by group first
(`sum_gather`), and there are no more groups than members.

The groups of a selection are a selection of the groups when it is keys that are selected
(`gather_filter`), since a group has one key, up to `same`.

Last, the order of the list does not matter for what the groups are (`gather_perm`). It does
matter for the order of the groups, for the order of the members in a group and for the key
that a group is known by, which is the key of its first member. What is left is a matching:
the groups of the two lists can be paired off so that paired groups have the same members
and keys that are alike. The induction goes along the permutation, from the end of the list.
A member more preserves a matching, and for two members more it makes no difference which of
them comes first. Both need to know that no key is the same as the keys of two groups.
-/

namespace Cardfolio

variable {α β : Type _} {key : GroupKey} {member : α} {groups : List (GroupKey × List α)}

theorem gather_concat (keyed : List (GroupKey × α)) (k : GroupKey × α) :
    gather (keyed ++ [k]) = addMember k.1 k.2 (gather keyed) := by
  unfold gather
  rw [List.foldl_append]
  rfl

/-- A group is known by the key of its first member. -/
theorem head?_of_mem_gather {keyed : List (GroupKey × α)} {g : GroupKey × List α}
    (h : g ∈ gather keyed) : ∃ k ∈ keyed, g.1 = k.1 ∧ g.2.head? = some k.2 := by
  rw [gather_eq_groupsOf] at h
  obtain ⟨x, hx, rfl⟩ := List.mem_map.mp h
  have hfirst := mem_firsts_iff.mp hx
  refine ⟨x.1, ?_, rfl, ?_⟩
  · rw [← List.zipIdx_map_fst 0 keyed]
    exact List.mem_map_of_mem hfirst.mem
  · rw [List.head?_map, companions_head? hfirst]
    rfl

theorem addMember_members :
    ((addMember key member groups).flatMap (·.2)).Perm (member :: groups.flatMap (·.2)) := by
  induction groups with
  | nil => exact .refl _
  | cons g rest ih =>
      obtain ⟨other, members⟩ := g
      rw [addMember]
      split
      · show (members ++ [member] ++ rest.flatMap (·.2)).Perm _
        rw [List.append_assoc]
        exact List.perm_middle
      · exact (ih.append_left members).trans List.perm_middle

/-- The members of the groups are the members of the list. -/
theorem gather_members (keyed : List (GroupKey × α)) :
    ((gather keyed).flatMap (·.2)).Perm (keyed.map (·.2)) := by
  induction keyed using List.reverseRecOn with
  | nil => exact .refl _
  | append_singleton keyed k ih =>
      rw [gather_concat, List.map_append]
      exact (addMember_members.trans (ih.cons k.2)).trans (List.perm_append_singleton _ _).symm

/-- What is added up by groups is what is added up at once. -/
theorem sum_gather (weight : α → Int) (keyed : List (GroupKey × α)) :
    ((gather keyed).map fun g => (g.2.map weight).sum).sum =
      (keyed.map fun k => weight k.2).sum := by
  have hgroups : ∀ groups : List (GroupKey × List α),
      (groups.map fun g => (g.2.map weight).sum).sum =
        ((groups.flatMap (·.2)).map weight).sum := by
    intro groups
    induction groups with
    | nil => rfl
    | cons g rest ih => simp [ih]
  rw [hgroups, ((gather_members keyed).map weight).sum_eq, List.map_map]
  rfl

theorem length_gather_le (keyed : List (GroupKey × α)) :
    (gather keyed).length ≤ keyed.length := by
  have hmembers := (gather_members keyed).length_eq
  rw [List.length_flatMap, List.length_map] at hmembers
  rw [← hmembers, ← List.length_map (f := fun g : GroupKey × List α => g.2.length)]
  refine List.length_le_sum_of_one_le _ fun n hn => ?_
  obtain ⟨g, hg, rfl⟩ := List.mem_map.mp hn
  obtain ⟨k, _, _, hhead⟩ := head?_of_mem_gather hg
  cases hmembers : g.2 with
  | nil =>
      rw [hmembers] at hhead
      cases hhead
  | cons m rest => exact Nat.succ_pos _

/-! ## Selected keys -/

theorem addMember_filter {p : GroupKey → Bool}
    (hp : ∀ a b : GroupKey, a.same b = true → p a = p b) :
    (addMember key member groups).filter (fun g => p g.1) =
      if p key then addMember key member (groups.filter fun g => p g.1)
      else groups.filter fun g => p g.1 := by
  induction groups with
  | nil =>
      show List.filter _ [(key, [member])] = _
      rw [List.filter_cons]
      rfl
  | cons g rest ih =>
      obtain ⟨other, members⟩ := g
      rw [addMember]
      cases hsame : other.same key with
      | true =>
          have hkey : p other = p key := hp other key hsame
          rw [if_pos rfl, List.filter_cons, List.filter_cons]
          dsimp only
          rw [hkey]
          split
          · rw [addMember, hsame, if_pos rfl]
          · rfl
      | false =>
          rw [if_neg Bool.false_ne_true, List.filter_cons, List.filter_cons, ih]
          dsimp only
          cases p other with
          | false => rfl
          | true =>
              rw [if_pos rfl, if_pos rfl, addMember, hsame, if_neg Bool.false_ne_true]
              split <;> rfl

/-- The groups of the members with some keys are the groups with these keys. -/
theorem gather_filter {p : GroupKey → Bool}
    (hp : ∀ a b : GroupKey, a.same b = true → p a = p b) (keyed : List (GroupKey × α)) :
    gather (keyed.filter fun k => p k.1) = (gather keyed).filter fun g => p g.1 := by
  induction keyed using List.reverseRecOn with
  | nil => rfl
  | append_singleton keyed k ih =>
      rw [gather_concat, addMember_filter hp, ← ih, List.filter_append, List.filter_cons]
      split
      · exact gather_concat _ k
      · rw [List.filter_nil, List.append_nil]

/-! ## Groups that differ in order only -/

/-- Keys that make one group, or that are one key. A key that is not the same as itself is alike
to itself. -/
def GroupKey.Alike (a b : GroupKey) : Prop :=
  a = b ∨ a.same b = true

theorem GroupKey.Alike.trans {a b c : GroupKey} (hab : a.Alike b) (hbc : b.Alike c) :
    a.Alike c := by
  rcases hab with rfl | hab
  · exact hbc
  · rcases hbc with rfl | hbc
    · exact Or.inr hab
    · exact Or.inr (GroupKey.same_trans hab hbc)

/-- Keys that are alike are the same as the same keys. -/
theorem GroupKey.Alike.same_eq {a b : GroupKey} (h : a.Alike b) (k : GroupKey) :
    a.same k = b.same k := by
  rcases h with rfl | h
  · rfl
  · rw [Bool.eq_iff_iff]
    exact ⟨GroupKey.same_trans (GroupKey.same_symm h), GroupKey.same_trans h⟩

/-- Two groups of the same members. -/
structure GroupAlike (g g' : GroupKey × List α) : Prop where
  key : g.1.Alike g'.1
  members : g.2.Perm g'.2

theorem GroupAlike.refl (g : GroupKey × List α) : GroupAlike g g :=
  ⟨Or.inl rfl, .refl _⟩

instance : IsTrans (GroupKey × List α) GroupAlike where
  trans _ _ _ h h' := ⟨h.key.trans h'.key, h.members.trans h'.members⟩

/-- The groups of two lists can be paired off. -/
def Matched (groups groups' : List (GroupKey × List α)) : Prop :=
  Multiset.Rel GroupAlike (groups : Multiset (GroupKey × List α)) groups'

/-- No two groups have the same key. -/
def KeysApart (groups : List (GroupKey × List α)) : Prop :=
  groups.Pairwise fun g g' => g.1.same g'.1 = false

theorem gather_apart (keyed : List (GroupKey × α)) : KeysApart (gather keyed) := by
  rw [gather_eq_groupsOf, KeysApart, groupsOf, List.pairwise_map]
  show (firsts Prod.fst keyed).Pairwise fun x y => x.1.1.same y.1.1 = false
  exact firsts_pairwise_not_same

/-- The group that begins with a member, if none has its key. -/
def newGroup (key : GroupKey) (member : α) (groups : List (GroupKey × List α)) :
    List (GroupKey × List α) :=
  if groups.any (·.1.same key) then [] else [(key, [member])]

theorem addMember_eq (h : KeysApart groups) :
    addMember key member groups = groups.map (joined key member) ++ newGroup key member groups := by
  unfold newGroup
  cases hany : groups.any (·.1.same key) with
  | true =>
      rw [if_pos rfl, List.append_nil]
      refine addMember_of_known (h.imp fun hne hg => ?_) (List.any_eq_true.mp hany)
      rw [Bool.eq_false_iff]
      intro hg'
      rw [GroupKey.same_trans hg (GroupKey.same_symm hg')] at hne
      cases hne
  | false =>
      rw [if_neg Bool.false_ne_true]
      have hnew : ∀ g ∈ groups, g.1.same key = false := by
        intro g hg
        rw [Bool.eq_false_iff]
        exact List.any_eq_false.mp hany g hg
      rw [map_joined_of_new hnew, addMember_of_new hnew]

theorem joined_fst (key : GroupKey) (member : α) (g : GroupKey × List α) :
    (joined key member g).1 = g.1 := by
  unfold joined
  split <;> rfl

theorem GroupAlike.joined {g g' : GroupKey × List α} (h : GroupAlike g g') :
    GroupAlike (joined key member g) (joined key member g') := by
  unfold Cardfolio.joined
  rw [h.key.same_eq key]
  split
  · exact ⟨h.key, h.members.append_right _⟩
  · exact h

/-- Two members join a group in either order. -/
theorem joined_joined_alike (key key' : GroupKey) (member member' : α) (g : GroupKey × List α) :
    GroupAlike (joined key member (joined key' member' g))
      (joined key' member' (joined key member g)) := by
  refine ⟨Or.inl (by simp only [joined_fst]), ?_⟩
  unfold joined
  cases hkey : g.1.same key <;> cases hkey' : g.1.same key' <;>
    simp only [hkey, hkey', Bool.false_eq_true, if_true, if_false, List.Perm.refl]
  rw [List.append_assoc, List.append_assoc]
  exact (List.Perm.swap _ _ []).append_left g.2

theorem Matched.any_eq {groups groups' : List (GroupKey × List α)} (h : Matched groups groups')
    (key : GroupKey) : groups.any (·.1.same key) = groups'.any (·.1.same key) := by
  rw [Bool.eq_iff_iff, List.any_eq_true, List.any_eq_true]
  constructor
  · rintro ⟨g, hg, hsame⟩
    obtain ⟨g', hg', halike⟩ := Multiset.exists_mem_of_rel_of_mem h hg
    exact ⟨g', hg', (halike.key.same_eq key).symm.trans hsame⟩
  · rintro ⟨g', hg', hsame⟩
    obtain ⟨g, hg, halike⟩ := Multiset.exists_mem_of_rel_of_mem (Multiset.rel_flip.mpr h) hg'
    exact ⟨g, hg, (GroupAlike.key halike).same_eq key |>.trans hsame⟩

theorem Matched.append {groups groups' more more' : List (GroupKey × List α)}
    (h : Matched groups groups') (hmore : Matched more more') :
    Matched (groups ++ more) (groups' ++ more') := by
  unfold Matched
  rw [← Multiset.coe_add, ← Multiset.coe_add]
  exact h.add hmore

theorem Matched.map {f f' : GroupKey × List α → GroupKey × List α}
    {groups groups' : List (GroupKey × List α)} (h : Matched groups groups')
    (hf : ∀ g g', GroupAlike g g' → GroupAlike (f g) (f' g')) :
    Matched (groups.map f) (groups'.map f') := by
  unfold Matched
  rw [← Multiset.map_coe, ← Multiset.map_coe, Multiset.rel_map]
  exact h.mono fun g _ g' _ halike => hf g g' halike

theorem Matched.refl (groups : List (GroupKey × List α)) : Matched groups groups :=
  Multiset.rel_refl_of_refl_on fun g _ => .refl g

theorem Matched.of_perm {groups groups' : List (GroupKey × List α)} (h : groups.Perm groups') :
    Matched groups groups' := by
  unfold Matched
  rw [Multiset.coe_eq_coe.mpr h]
  exact Matched.refl groups'

/-- A member more preserves a matching. -/
theorem Matched.addMember {groups groups' : List (GroupKey × List α)} (h : Matched groups groups')
    (hgroups : KeysApart groups) (hgroups' : KeysApart groups') :
    Matched (addMember key member groups) (addMember key member groups') := by
  rw [addMember_eq hgroups, addMember_eq hgroups', newGroup, newGroup, h.any_eq key]
  exact (h.map fun _ _ halike => halike.joined).append (Matched.refl _)

theorem apart_addMember (h : KeysApart groups) : KeysApart (addMember key member groups) := by
  rw [addMember_eq h, KeysApart, List.pairwise_append]
  refine ⟨?_, ?_, ?_⟩
  · rw [List.pairwise_map]
    exact h.imp fun hne => by rw [joined_fst, joined_fst]; exact hne
  · unfold newGroup
    split
    · exact .nil
    · exact List.pairwise_singleton _ _
  · intro g hg g' hg'
    unfold newGroup at hg'
    split at hg'
    · cases hg'
    · next hnone =>
        obtain ⟨old, hold, rfl⟩ := List.mem_map.mp hg
        rw [List.mem_singleton.mp hg', joined_fst, Bool.eq_false_iff]
        exact fun hsame => hnone (List.any_eq_true.mpr ⟨old, hold, hsame⟩)

theorem any_addMember (h : KeysApart groups) (other : GroupKey) :
    (addMember key member groups).any (·.1.same other) =
      (groups.any (·.1.same other) || (!groups.any (·.1.same key) && key.same other)) := by
  have hjoined : (groups.map (joined key member)).any (·.1.same other) =
      groups.any (·.1.same other) := by
    rw [List.any_map]
    exact congrArg groups.any (funext fun g => congrArg (·.same other) (joined_fst key member g))
  rw [addMember_eq h, List.any_append, hjoined, newGroup]
  cases groups.any (·.1.same key) with
  | true => rfl
  | false => exact congrArg _ (Bool.or_false _)

theorem any_same_eq {a b : GroupKey} (h : a.same b = true) (groups : List (GroupKey × List α)) :
    groups.any (·.1.same a) = groups.any (·.1.same b) := by
  refine congrArg groups.any (funext fun g => ?_)
  rw [Bool.eq_iff_iff]
  exact ⟨fun ha => GroupKey.same_trans ha h,
    fun hb => GroupKey.same_trans hb (GroupKey.same_symm h)⟩

/-- The groups that two members begin in one order and in the other. -/
theorem newGroup_newGroup_matched {key' : GroupKey} {member' : α} (h : KeysApart groups) :
    Matched
      ((newGroup key' member' groups).map (joined key member) ++
        newGroup key member (addMember key' member' groups))
      ((newGroup key member groups).map (joined key' member') ++
        newGroup key' member' (addMember key member groups)) := by
  unfold newGroup
  rw [any_addMember h, any_addMember h]
  cases hsame : key'.same key with
  | true =>
      -- Both members belong to one group, which is known or begins with the first of them.
      have hsame' := GroupKey.same_symm hsame
      rw [any_same_eq hsame, hsame']
      cases groups.any (·.1.same key) with
      | true => exact Matched.refl []
      | false =>
          refine Multiset.Rel.cons ⟨?_, ?_⟩ .zero
          · rw [joined_fst, joined_fst]
            exact Or.inr hsame
          · rw [joined, joined, if_pos hsame, if_pos hsame']
            exact List.Perm.swap _ _ []
  | false =>
      have hsame' : key.same key' = false := by
        rw [Bool.eq_false_iff] at hsame ⊢
        exact fun hother => hsame (GroupKey.same_symm hother)
      have hjoined : joined key member (key', [member']) = (key', [member']) :=
        joined_of_other hsame
      have hjoined' : joined key' member' (key, [member]) = (key, [member]) :=
        joined_of_other hsame'
      rw [hsame']
      cases groups.any (·.1.same key) with
      | true =>
          cases groups.any (·.1.same key') with
          | true => exact Matched.refl []
          | false =>
              show Matched [joined key member (key', [member'])] [(key', [member'])]
              rw [hjoined]
              exact Matched.refl _
      | false =>
          cases groups.any (·.1.same key') with
          | true =>
              show Matched [(key, [member])] [joined key' member' (key, [member])]
              rw [hjoined']
              exact Matched.refl _
          | false =>
              show Matched [joined key member (key', [member']), (key, [member])]
                [joined key' member' (key, [member]), (key', [member'])]
              rw [hjoined, hjoined']
              exact Matched.of_perm (.swap _ _ [])

/-- Two members more make the same groups in either order. -/
theorem addMember_addMember_matched {key' : GroupKey} {member' : α} (h : KeysApart groups) :
    Matched (addMember key member (addMember key' member' groups))
      (addMember key' member' (addMember key member groups)) := by
  rw [addMember_eq (apart_addMember h), addMember_eq (apart_addMember h)]
  conv => lhs; arg 1; rw [addMember_eq h]
  conv => rhs; arg 1; rw [addMember_eq h]
  rw [List.map_append, List.map_append, List.append_assoc, List.append_assoc, List.map_map,
    List.map_map]
  refine Matched.append ?_ (newGroup_newGroup_matched h)
  unfold Matched
  rw [← Multiset.map_coe, ← Multiset.map_coe, Multiset.rel_map]
  exact Multiset.rel_refl_of_refl_on fun g _ => joined_joined_alike key key' member member' g

/-- The groups of two lists with the same members can be paired off. -/
theorem gather_perm {keyed keyed' : List (GroupKey × α)} (h : keyed.Perm keyed') :
    Matched (gather keyed) (gather keyed') := by
  suffices hreverse : ∀ {xs ys : List (GroupKey × α)}, xs.Perm ys →
      Matched (gather xs.reverse) (gather ys.reverse) by
    have := hreverse ((List.reverse_perm keyed).trans (h.trans (List.reverse_perm keyed').symm))
    rwa [List.reverse_reverse, List.reverse_reverse] at this
  intro xs ys hperm
  induction hperm with
  | nil => exact Matched.refl _
  | cons k _ ih =>
      rw [List.reverse_cons, List.reverse_cons, gather_concat, gather_concat]
      exact ih.addMember (gather_apart _) (gather_apart _)
  | swap k k' rest =>
      simp only [List.reverse_cons, gather_concat]
      exact addMember_addMember_matched (gather_apart _)
  | trans _ _ ih ih' => exact Multiset.Rel.trans _ ih ih'

end Cardfolio
