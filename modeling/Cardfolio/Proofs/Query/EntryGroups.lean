import Cardfolio.Proofs.Query.Carried
import Cardfolio.Proofs.Query.Gathered
import Cardfolio.Proofs.Query.GroupRows

/-!
# The groups of entries, and their rows

The table of a grouped query and the table of the different values of a field are made of the
same thing: the entries, gathered by a key. Here these groups are set apart from what is made
of them (`Query.entryGroups`), with the whole entries for members.

The row of a group is then a function of the group. It begins with what the first member shows
and goes on with the figures over all members, and the table is the rows of all groups in the
order of a column (`Query.groupRows_eq_ok`). That order is a permutation whatever the figures
are, and by counts it is a stable sort.
-/

namespace Cardfolio.Query

/-- The groups of entries by what they show in a field. -/
def entryGroups (field : String) (entries : List Entry) : List (GroupKey × List Entry) :=
  gather (entries.map fun e => (e.groupKey field, e))

/-- What a group shows in its field: the value of its first entry. -/
def shownBy (field : String) (g : GroupKey × List Entry) : Datum :=
  (g.2.head?.map (Entry.shownIn field)).getD .null

variable {field : String} {entries : List Entry} {g : GroupKey × List Entry}

/-- A group begins with an entry that has its key. -/
theorem exists_head_of_mem_entryGroups (h : g ∈ entryGroups field entries) :
    ∃ e ∈ entries, g.2.head? = some e ∧ g.1 = e.groupKey field := by
  obtain ⟨k, hk, hkey, hhead⟩ := head?_of_mem_gather h
  obtain ⟨e, he, rfl⟩ := List.mem_map.mp hk
  exact ⟨e, he, hhead, hkey⟩

/-- The key of a group is the key of what it shows. -/
theorem of_shownBy (h : g ∈ entryGroups field entries) : GroupKey.of (shownBy field g) = g.1 := by
  obtain ⟨e, _, hhead, hkey⟩ := exists_head_of_mem_entryGroups h
  rw [shownBy, hhead, hkey]
  rfl

theorem entryGroups_members (field : String) (entries : List Entry) :
    ((entryGroups field entries).flatMap (·.2)).Perm entries := by
  refine (gather_members _).trans (.of_eq ?_)
  rw [List.map_map]
  exact List.map_id' entries

theorem mem_of_mem_entryGroups (h : g ∈ entryGroups field entries) :
    ∀ e ∈ g.2, e ∈ entries := fun _ he =>
  (entryGroups_members field entries).mem_iff.mp (List.mem_flatMap.mpr ⟨g, h, he⟩)

/-- Groups of parts of entries are the groups of the entries. -/
theorem gather_parts {α : Type} (part : Entry → α) :
    gather (entries.map fun e => (e.groupKey field, part e)) =
      (entryGroups field entries).map (Prod.map id (List.map part)) := by
  rw [entryGroups, ← gather_carry, List.map_map]
  rfl

theorem groupRow_eq (field : String) (asked : List Aggregation) (g : GroupKey × List Entry) :
    groupRow field asked (g.2.map fun e => (e.shownIn field, e.card)) =
      putFigures asked (g.2.map Entry.card) [(field, shownBy field g)] := by
  rw [groupRow, shownBy, List.map_map, List.head?_map, Option.map_map]
  rfl

/-- The column that orders the rows of a table. -/
def orderColumn (asked : List Aggregation) : String :=
  (asked.head?.map Aggregation.column).getD ""

theorem rankRows_perm (column : String) (rows : List (List (String × Datum))) :
    (rankRows column rows).Perm rows :=
  Ranking.rising_perm _ _ _

theorem exists_rankRows_map {α : Type} (column : String) (row : α → List (String × Datum))
    (xs : List α) :
    ∃ order : List α, order.Perm xs ∧ rankRows column (xs.map row) = order.map row :=
  ⟨_, Ranking.rising_perm _ _ xs, Ranking.rising_map _ _ row xs⟩

/-- A table of groups has the row of each group, in the order of a column. -/
theorem groupRows_eq_ok {asked : List Aggregation} {rows : List (List (String × Datum))}
    (h : groupRows field asked entries = .ok rows) :
    (∀ e ∈ entries, e.Has field) ∧
      ∃ row : GroupKey × List Entry → List (String × Datum),
        (∀ g ∈ entryGroups field entries,
          putFigures asked (g.2.map Entry.card) [(field, shownBy field g)] = .ok (row g)) ∧
        rows = rankRows (orderColumn asked) ((entryGroups field entries).map row) := by
  obtain ⟨keyed, hkeyed, h⟩ := bind_eq_ok.mp h
  constructor
  · intro e he
    obtain ⟨k, hk⟩ := exists_ok_of_mapM_eq_ok hkeyed he
    exact (groupOf_eq hk).1
  · obtain rfl := eq_map_of_mapM_eq_ok hkeyed fun e _ k hk => (groupOf_eq hk).2
    obtain ⟨unranked, hunranked, h⟩ := bind_eq_ok.mp h
    rw [gather_parts fun e => (e.shownIn field, e.card), List.mapM_map] at hunranked
    obtain ⟨row, rfl, hrow⟩ := exists_map_of_mapM_eq_ok hunranked
    refine ⟨row, fun g hg => ?_, (pure_eq_ok.mp h).symm⟩
    rw [← groupRow_eq]
    exact hrow g hg

theorem mem_shownFigures {asked : List Aggregation} {b : Aggregation} (h : b ∈ asked) :
    b ∈ shownFigures asked := by
  cases asked with
  | nil => cases h
  | cons _ _ => exact h

/-- A query for figures without groups is answered by one row, over all rows that pass. -/
theorem answer_singleRow {q : Query} {rows : List (List (String × Datum))} {a : Answer}
    (hgroup : q.groupField? = none) (hasked : q.aggregations ≠ [])
    (h : q.answer (.list (rows.map .object)) = .ok a) :
    Stages q rows a (q.passing rows) ∧
      ∃ row, putFigures q.aggregations ((q.passing rows).map Entry.card) [] = .ok row ∧
        a.results = [.object row] := by
  obtain ⟨ordered, hstages⟩ := answer_rows h
  obtain ⟨found, hfound, hresults, rfl⟩ :=
    resultsOf_figures (fun hrecords => hasked hrecords.1) hstages.results
  rw [figuresAsked, hgroup] at hfound
  obtain ⟨row, hrow, hfound⟩ := bind_eq_ok.mp hfound
  obtain rfl := pure_eq_ok.mp hfound
  exact ⟨hstages, row, hrow, hresults⟩

theorem whole_lt_whole (m n : Nat) :
    (Number.whole m).lt (Number.whole n) = decide (m < n) := by
  have hone : (0 : Int) < Binary64.one := by
    have := Binary64.one_pos
    omega
  show decide ((m : Int) * Binary64.one < n * Binary64.one) = _
  rw [decide_eq_decide, Int.mul_lt_mul_right hone]
  omega

/-- Rows with a count in a column are ordered by their counts. -/
theorem rankRows_map_of_count {α : Type} {column : String} {row : α → List (String × Datum)}
    {count : α → Nat} {xs : List α}
    (h : ∀ x, (row x).lookup column = some (.number (.whole (count x)))) :
    rankRows column (xs.map row) =
      (Ranking.rising true (fun x y => decide (count y < count x)) xs).map row := by
  have hfigure : ∀ x, figureIn column (row x) = .whole (count x) := fun x => figureIn_eq (h x)
  have hall : (xs.map row).all (fun row => !(figureIn column row).isNaN) = true := by
    rw [List.all_map, List.all_eq_true]
    intro x _
    show (!(figureIn column (row x)).isNaN) = true
    rw [hfigure]
    rfl
  rw [rankRows, hall, Ranking.rising_map]
  simp only [hfigure, whole_lt_whole]

end Cardfolio.Query
