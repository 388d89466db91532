import Cardfolio.Question.Plan

/-!
# Runs of alternatives, by position

`runs` cuts a list of conditions as it goes through it. What it is meant to find
can be said without going through anything: the first and the last position of a
stretch in which each condition is an alternative to the next, and which cannot
be made longer at either end. `IsRun` says that, about positions alone.

`mem_runs_iff` is the agreement of the two. Its induction follows the recursion
of `runs`, and the only thing to watch is what happens to the positions when a
condition is put in front of the list: they move up by one, and the connection
that comes with the new condition decides whether position 0 joins the first run
or is a run by itself. So the statement that is carried along treats the first
run, which begins at position 0, apart from all others.
-/

namespace Cardfolio.Dictionary

/-- The positions from `first` to `last` are a maximal run among the first
`length` ones: each but the last is connected with the next as an alternative,
and neither end can be moved outwards. -/
structure IsRun (connections : List Logic) (length first last : Nat) : Prop where
  ordered : first ≤ last
  inside : last < length
  joined : ∀ k, first ≤ k → k < last → connections[k]? = some .any
  begins : first = 0 ∨ connections[first - 1]? ≠ some .any
  ends : last + 1 = length ∨ connections[last]? ≠ some .any

/-- The conditions from one position to another. -/
def stretch (conditions : List Condition) (first last : Nat) : List Condition :=
  (conditions.drop first).take (last + 1 - first)

theorem mem_stretch_iff {conditions : List Condition} {first last : Nat} {c : Condition} :
    c ∈ stretch conditions first last ↔
      ∃ k, first ≤ k ∧ k ≤ last ∧ conditions[k]? = some c := by
  unfold stretch
  rw [List.mem_iff_getElem?]
  simp only [List.getElem?_take, List.getElem?_drop]
  constructor
  · rintro ⟨k, hc⟩
    split at hc
    · exact ⟨first + k, by omega, by omega, hc⟩
    · cases hc
  · rintro ⟨k, hfirst, hlast, hc⟩
    refine ⟨k - first, ?_⟩
    rw [if_pos (by omega), show first + (k - first) = k by omega]
    exact hc

theorem stretch_cons_succ (c : Condition) (conditions : List Condition) (first last : Nat) :
    stretch (c :: conditions) (first + 1) (last + 1) = stretch conditions first last := by
  unfold stretch
  rw [List.drop_succ_cons, show last + 1 + 1 - (first + 1) = last + 1 - first by omega]

theorem stretch_cons_zero (c : Condition) (conditions : List Condition) (last : Nat) :
    stretch (c :: conditions) 0 (last + 1) = c :: stretch conditions 0 last := by
  unfold stretch
  rw [List.drop_zero, List.drop_zero, show last + 1 + 1 - 0 = last + 1 - 0 + 1 by omega,
    List.take_succ_cons]

/-! ## A condition in front

What a maximal run of a list with one more condition in front is, in terms of the
list without it. -/

theorem isRun_zero_zero {connections : List Logic} {n : Nat} :
    IsRun connections (n + 1) 0 0 ↔ n = 0 ∨ connections.head? ≠ some .any := by
  rw [List.head?_eq_getElem?]
  constructor
  · intro h
    rcases h.ends with h | h
    · exact Or.inl (by omega)
    · exact Or.inr h
  · intro h
    refine ⟨by omega, by omega, by omega, Or.inl rfl, ?_⟩
    rcases h with h | h
    · exact Or.inl (by omega)
    · exact Or.inr h

theorem isRun_zero_succ {connections : List Logic} {n last : Nat} :
    IsRun connections (n + 1) 0 (last + 1) ↔
      connections.head? = some .any ∧ IsRun connections.tail n 0 last := by
  rw [List.head?_eq_getElem?]
  constructor
  · intro h
    refine ⟨h.joined 0 (by omega) (by omega), by omega, by have := h.inside; omega, ?_,
      Or.inl rfl, ?_⟩
    · intro k _ hk
      rw [List.getElem?_tail]
      exact h.joined (k + 1) (by omega) (by omega)
    · rw [List.getElem?_tail]
      exact h.ends.imp_left (by omega)
  · rintro ⟨hhead, h⟩
    refine ⟨by omega, by have := h.inside; omega, ?_, Or.inl rfl, ?_⟩
    · intro k _ hk
      cases k with
      | zero => exact hhead
      | succ k =>
          rw [← List.getElem?_tail]
          exact h.joined k (by omega) (by omega)
    · rw [← List.getElem?_tail]
      exact h.ends.imp_left (by omega)

theorem isRun_succ_succ {connections : List Logic} {n first last : Nat} :
    IsRun connections (n + 1) (first + 1) (last + 1) ↔
      IsRun connections.tail n first last ∧
        (first = 0 → connections.head? ≠ some .any) := by
  rw [List.head?_eq_getElem?]
  constructor
  · intro h
    have hbegins : connections[first]? ≠ some .any := h.begins.resolve_left (by omega)
    refine ⟨⟨?_, ?_, ?_, ?_, ?_⟩, ?_⟩
    · have := h.ordered; omega
    · have := h.inside; omega
    · intro k hk hlast
      rw [List.getElem?_tail]
      exact h.joined (k + 1) (by omega) (by omega)
    · rw [List.getElem?_tail]
      cases first with
      | zero => exact Or.inl rfl
      | succ first => exact Or.inr hbegins
    · rw [List.getElem?_tail]
      exact h.ends.imp_left (by omega)
    · rintro rfl
      exact hbegins
  · rintro ⟨h, hhead⟩
    refine ⟨?_, ?_, ?_, Or.inr ?_, ?_⟩
    · have := h.ordered; omega
    · have := h.inside; omega
    · intro k hk hlast
      cases k with
      | zero => omega
      | succ k =>
          rw [← List.getElem?_tail]
          exact h.joined k (by omega) (by omega)
    · cases first with
      | zero => exact hhead rfl
      | succ first =>
          have := h.begins.resolve_left (by omega)
          rw [List.getElem?_tail] at this
          exact this
    · rw [← List.getElem?_tail]
      exact h.ends.imp_left (by omega)

/-- A run ends in one place only. -/
theorem IsRun.last_unique {connections : List Logic} {n first last last' : Nat}
    (h : IsRun connections n first last) (h' : IsRun connections n first last') :
    last = last' := by
  rcases Nat.lt_trichotomy last last' with hlt | heq | hgt
  · have hjoined := h'.joined last h.ordered hlt
    have := h'.inside
    rcases h.ends with hend | hend
    · omega
    · exact absurd hjoined hend
  · exact heq
  · have hjoined := h.joined last' h'.ordered hgt
    have := h.inside
    rcases h'.ends with hend | hend
    · omega
    · exact absurd hjoined hend

/-- The first of the runs begins at position 0, and the others are the maximal
runs that begin later. -/
structure FoundRuns (conditions : List Condition) (connections : List Logic)
    (found : List (List Condition)) : Prop where
  head : ∃ last, IsRun connections conditions.length 0 last ∧
    found.head? = some (stretch conditions 0 last)
  tail : ∀ run, run ∈ found.tail ↔
    ∃ first last, 0 < first ∧ IsRun connections conditions.length first last ∧
      run = stretch conditions first last

theorem FoundRuns.mem_iff {conditions : List Condition} {connections : List Logic}
    {found : List (List Condition)} (h : FoundRuns conditions connections found)
    {run : List Condition} :
    run ∈ found ↔ ∃ first last, IsRun connections conditions.length first last ∧
      run = stretch conditions first last := by
  obtain ⟨last, hrun, hhead⟩ := h.head
  obtain ⟨others, rfl⟩ := List.head?_eq_some_iff.mp hhead
  rw [List.mem_cons]
  constructor
  · rintro (rfl | hmem)
    · exact ⟨0, last, hrun, rfl⟩
    · obtain ⟨i, j, _, hij, heq⟩ := (h.tail run).mp hmem
      exact ⟨i, j, hij, heq⟩
  · rintro ⟨i, j, hij, rfl⟩
    cases i with
    | zero =>
        rw [hij.last_unique hrun]
        exact Or.inl rfl
    | succ i => exact Or.inr ((h.tail _).mpr ⟨i + 1, j, by omega, hij, rfl⟩)

/-- A condition in front that is an alternative to the next one joins the first
run. -/
theorem FoundRuns.join {c : Condition} {conditions : List Condition}
    {connections : List Logic} {run : List Condition} {others : List (List Condition)}
    (h : FoundRuns conditions connections.tail (run :: others))
    (hany : connections.head? = some .any) :
    FoundRuns (c :: conditions) connections ((c :: run) :: others) := by
  obtain ⟨last, hrun, hhead⟩ := h.head
  refine ⟨⟨last + 1, isRun_zero_succ.mpr ⟨hany, hrun⟩, ?_⟩, fun r => ?_⟩
  · rw [stretch_cons_zero]
    rw [List.head?_cons, Option.some.injEq] at hhead
    rw [List.head?_cons, hhead]
  · refine (h.tail r).trans ⟨?_, ?_⟩
    · rintro ⟨i, j, hi, hij, rfl⟩
      exact ⟨i + 1, j + 1, by omega, isRun_succ_succ.mpr ⟨hij, by omega⟩,
        (stretch_cons_succ ..).symm⟩
    · rintro ⟨i, j, hi, hij, rfl⟩
      obtain ⟨i, rfl⟩ : ∃ k, i = k + 1 := ⟨i - 1, by omega⟩
      obtain ⟨j, rfl⟩ : ∃ k, j = k + 1 := ⟨j - 1, by have := hij.ordered; omega⟩
      obtain ⟨hshift, hzero⟩ := isRun_succ_succ.mp hij
      have hne : i ≠ 0 := fun h0 => hzero h0 hany
      exact ⟨i, j, by omega, hshift, stretch_cons_succ ..⟩

/-- A condition in front that is none is a run by itself. -/
theorem FoundRuns.separate {c : Condition} {conditions : List Condition}
    {connections : List Logic} {found : List (List Condition)}
    (h : FoundRuns conditions connections.tail found)
    (hany : connections.head? ≠ some .any) :
    FoundRuns (c :: conditions) connections ([c] :: found) := by
  refine ⟨⟨0, isRun_zero_zero.mpr (Or.inr hany), rfl⟩, fun r => ?_⟩
  refine h.mem_iff.trans ⟨?_, ?_⟩
  · rintro ⟨i, j, hij, rfl⟩
    exact ⟨i + 1, j + 1, by omega, isRun_succ_succ.mpr ⟨hij, fun _ => hany⟩,
      (stretch_cons_succ ..).symm⟩
  · rintro ⟨i, j, hi, hij, rfl⟩
    obtain ⟨i, rfl⟩ : ∃ k, i = k + 1 := ⟨i - 1, by omega⟩
    obtain ⟨j, rfl⟩ : ∃ k, j = k + 1 := ⟨j - 1, by have := hij.ordered; omega⟩
    exact ⟨i, j, (isRun_succ_succ.mp hij).1, stretch_cons_succ ..⟩

theorem foundRuns_cons (c : Condition) (conditions : List Condition)
    (connections : List Logic) :
    FoundRuns (c :: conditions) connections (runs (c :: conditions) connections) := by
  induction conditions generalizing c connections with
  | nil =>
      refine ⟨⟨0, isRun_zero_zero.mpr (Or.inl rfl), rfl⟩, fun r => ?_⟩
      refine ⟨fun h => (List.not_mem_nil h).elim, ?_⟩
      rintro ⟨i, j, hi, hij, _⟩
      have := hij.ordered
      have := hij.inside
      rw [List.length_singleton] at this
      omega
  | cons d conditions ih =>
      have hrest := ih d connections.tail
      rw [runs]
      split
      · next hnil =>
          rw [hnil] at hrest
          obtain ⟨_, _, hhead⟩ := hrest.head
          cases hhead
      · next run others hruns =>
          rw [hruns] at hrest
          split
          · next hany =>
              exact hrest.join hany
          · next hany =>
              exact hrest.separate hany

/-- The runs of conditions are the stretches between the ends of maximal runs. -/
theorem mem_runs_iff {conditions : List Condition} {connections : List Logic}
    {run : List Condition} :
    run ∈ runs conditions connections ↔
      ∃ first last, IsRun connections conditions.length first last ∧
        run = stretch conditions first last := by
  cases conditions with
  | nil =>
      refine ⟨fun h => (List.not_mem_nil h).elim, ?_⟩
      rintro ⟨_, _, h, _⟩
      exact (Nat.not_lt_zero _ h.inside).elim
  | cons c conditions => exact (foundRuns_cons c conditions connections).mem_iff

end Cardfolio.Dictionary
