import Cardfolio.Proofs.Card.Normal
import Cardfolio.Proofs.Query.DistinctValues
import Cardfolio.Proofs.Query.EntryGroups

/-!
# Different values and counted groups

A query can ask for the different values of a field, and it can ask for groups by that field
without naming any figure, which counts them. Both tables come from gathering the chosen
entries, each by a loop of its own. The groups have every entry, and those that show nothing
are one group, of absent values and reward tables. The different values leave these entries
out, and blank texts with them.

A cell of a row is never a blank text, since reading it makes null of one. So the entries
with a value are those whose group has a key that is not `missing`, and the table of values
is about the groups but that one. It is then the same selection before sorting and after
(`Ranking.rising_filter`), because both tables are sorted by how many members there are, and
the row of a counted group says what the table of values says (`ValueCount.row`).
-/

namespace Cardfolio

/-- No text that has been read from a row is blank. -/
theorem Datum.isTold_of_readAs {form : Field.Form} {v : Datum} {s : String}
    (h : v.readAs form = .ok (.text s)) : (Datum.text s).isTold = true := by
  have hform := (v.readAs_settles form).of_eq_ok h
  cases hform with
  | text s =>
      cases asText_isRead h with
      | text hstrip hne =>
          rw [isTold_text_iff, Text.comparable, hstrip, ne_eq, Text.fold_eq_nil_iff,
            String.toList_eq_nil_iff]
          exact hne

namespace Card

variable {card : Card}

theorem ShowsRow.isTold_of_get {s : String} (hcard : card.ShowsRow) (name : String)
    (h : card.get name = .ok (.text s)) : (Datum.text s).isTold = true := by
  unfold get at h
  split at h
  · next f _ =>
      by_cases hstored : f ∈ Field.stored
      · rw [value_of_stored card hstored] at h
        have hread := hcard.readAs_cell hstored
        rw [Except.ok.inj h] at hread
        exact Datum.isTold_of_readAs hread
      · have hform := hcard.value_hasForm h
        rw [if_neg hstored] at hform
        cases hform
  · cases h

end Card

/-- The key of a value that is there. -/
def GroupKey.isPresent : GroupKey → Bool
  | missing => false
  | _ => true

theorem GroupKey.isPresent_eq_of_same {a b : GroupKey} (h : a.same b = true) :
    a.isPresent = b.isPresent := by
  cases a <;> cases b <;> first | rfl | cases h

theorem GroupKey.isPresent_of (v : Datum) : (GroupKey.of v).isPresent = !v.isNull := by
  cases v <;> rfl

namespace Entry

variable {field : String} {e : Entry}

/-- An entry has a value in a field exactly when it shows one to groups. -/
theorem hasValue_eq (hcard : e.card.ShowsRow) :
    e.hasValue field = (e.groupKey field).isPresent := by
  rw [hasValue, groupKey, shownIn, GroupKey.isPresent_of]
  cases hcell : e.cell field with
  | text s =>
      refine hcard.isTold_of_get field ?_
      unfold cell at hcell
      split at hcell
      · next v hv => rw [hv, hcell]
      · cases hcell
  | _ => rfl

theorem shownIn_of_hasValue (h : e.hasValue field = true) : e.shownIn field = e.cell field := by
  unfold hasValue at h
  rw [shownIn]
  cases hcell : e.cell field with
  | object entries =>
      rw [hcell] at h
      cases h
  | _ => rfl

end Entry

namespace Query

variable {field : String} {entries : List Entry}

/-- The groups of entries with a value are the groups that show one. -/
theorem gather_hasValue (hcards : ∀ e ∈ entries, e.card.ShowsRow) :
    gather ((entries.filter (Entry.hasValue field)).map fun e =>
        (e.keyOf field, (e.cell field, e.record))) =
      ((entryGroups field entries).filter fun g => g.1.isPresent).map
        (Prod.map id (List.map fun e => (e.shownIn field, e.record))) := by
  have hkeyed : (entries.filter (Entry.hasValue field)).map (fun e =>
        (e.keyOf field, (e.cell field, e.record))) =
      ((entries.map fun e => (e.groupKey field, e)).filter fun k => k.1.isPresent).map
        (Prod.map id fun e => (e.shownIn field, e.record)) := by
    have hselected : entries.filter (fun e => (e.groupKey field).isPresent) =
        entries.filter (Entry.hasValue field) :=
      List.filter_congr fun e he => (Entry.hasValue_eq (hcards e he)).symm
    rw [List.filter_map, List.map_map]
    show _ = (entries.filter fun e => (e.groupKey field).isPresent).map _
    rw [hselected]
    refine List.map_congr_left fun e he => ?_
    show (GroupKey.of (e.cell field), _) = (GroupKey.of (e.shownIn field), (e.shownIn field, _))
    rw [Entry.shownIn_of_hasValue (List.mem_filter.mp he).2]
  rw [hkeyed, gather_carry, gather_filter fun _ _ => GroupKey.isPresent_eq_of_same]
  rfl

/-- There is one group at most that shows nothing. -/
theorem countP_not_isPresent_le (field : String) (entries : List Entry) :
    (entryGroups field entries).countP (fun g => !g.1.isPresent) ≤ 1 := by
  rw [List.countP_eq_length_filter]
  have hapart : ((entryGroups field entries).filter fun g => !g.1.isPresent).Pairwise
      fun g g' => g.1.same g'.1 = false := (gather_apart _).filter _
  have hmissing : ∀ g ∈ (entryGroups field entries).filter (fun g => !g.1.isPresent),
      g.1 = .missing := by
    intro g hg
    obtain ⟨_, hg⟩ := List.mem_filter.mp hg
    cases hkey : g.1 with
    | missing => rfl
    | _ =>
        rw [hkey] at hg
        cases hg
  generalize (entryGroups field entries).filter (fun g => !g.1.isPresent) = groups at *
  match groups with
  | [] => exact Nat.zero_le 1
  | [g] => exact Nat.le_refl 1
  | g :: g' :: rest =>
      have hne := List.rel_of_pairwise_cons hapart List.mem_cons_self
      rw [hmissing g List.mem_cons_self,
        hmissing g' (List.mem_cons_of_mem _ List.mem_cons_self)] at hne
      cases hne

/-- The row of a group that has only been counted. -/
def countedRow (field : String) (g : GroupKey × List Entry) : List (String × Datum) :=
  [(field, shownBy field g), ("count", .whole g.2.length)]

/-- Groups from the largest to the smallest, equally large ones as they appeared. -/
def bySize (groups : List (GroupKey × List Entry)) : List (GroupKey × List Entry) :=
  Ranking.rising true (fun x y => decide (y.2.length < x.2.length)) groups

variable {f : Field}

theorem name_ne_count (f : Field) : f.name ≠ "count" := by
  have hcolumn : ({ operation := .count, field := none } : Aggregation).column ≠ f.name :=
    Aggregation.column_ne_name rfl f
  exact hcolumn.symm

theorem putFigures_count (g : GroupKey × List Entry) :
    putFigures [{ operation := .count, field := none }] (g.2.map Entry.card)
      [(f.name, shownBy f.name g)] = .ok (countedRow f.name g) := by
  show Except.ok (Datum.putEntry "count" (.whole (g.2.map Entry.card).length)
    [(f.name, shownBy f.name g)]) = _
  rw [Datum.putEntry, if_neg (name_ne_count f), List.length_map]
  rfl

theorem lookup_count_countedRow (g : GroupKey × List Entry) :
    (countedRow f.name g).lookup "count" = some (.number (.whole g.2.length)) := by
  rw [countedRow, List.lookup_cons, beq_eq_false_iff_ne.mpr (name_ne_count f).symm]
  rfl

theorem groupRows_count {rows : List (List (String × Datum))}
    (h : groupRows f.name [{ operation := .count, field := none }] entries = .ok rows) :
    rows = (bySize (entryGroups f.name entries)).map (countedRow f.name) := by
  obtain ⟨_, row, hrow, rfl⟩ := groupRows_eq_ok h
  have hcounted : (entryGroups f.name entries).map row =
      (entryGroups f.name entries).map (countedRow f.name) := by
    refine List.map_congr_left fun g hg => ?_
    exact Except.ok.inj ((hrow g hg).symm.trans (putFigures_count g))
  rw [hcounted]
  exact rankRows_map_of_count lookup_count_countedRow

theorem valueCounts_groups {d : Distinct} {counts : List ValueCount}
    (hcards : ∀ e ∈ entries, e.card.ShowsRow) (h : valueCounts d entries = .ok counts) :
    counts = ((bySize (entryGroups d.field entries)).filter fun g => g.1.isPresent).map
      fun g => countOf d.details (g.2.map fun e => (e.shownIn d.field, e.record)) := by
  obtain ⟨_, rfl⟩ := valueCounts_eq_rising h
  have hsize : ∀ g : GroupKey × List Entry, (countOf d.details (Prod.map id
      (List.map fun e => (e.shownIn d.field, e.record)) g).2).count = g.2.length :=
    fun g => List.length_map _
  rw [gather_hasValue hcards, List.map_map, Ranking.rising_map, bySize,
    ← Ranking.rising_filter (orderedBy_count _ _)]
  simp only [Function.comp_apply, hsize]
  rfl

end Query

/-- What the table of different values says, as the row of a group. -/
def ValueCount.row (field : String) (c : ValueCount) : Datum :=
  .object [(field, c.value), ("count", .whole c.count)]

/-- A row that shows null in a field. -/
def Datum.lacks (field : String) (row : Datum) : Bool :=
  (row.entry? field).any isNull

namespace Query

variable {field : String} {entries : List Entry} {f : Field}

theorem row_countOf (details : Bool) (g : GroupKey × List Entry) :
    (countOf details (g.2.map fun e => (e.shownIn field, e.record))).row field =
      .object (countedRow field g) := by
  rw [ValueCount.row, countOf, countedRow, shownBy, List.head?_map, Option.map_map,
    List.length_map]
  rfl

theorem lacks_countedRow {g : GroupKey × List Entry} (hg : g ∈ entryGroups field entries) :
    (Datum.object (countedRow field g)).lacks field = !g.1.isPresent := by
  rw [← of_shownBy hg, GroupKey.isPresent_of, Bool.not_not, Datum.lacks, Datum.entry?, countedRow,
    List.lookup_cons_self]
  rfl

/-- The different values of a field and their counts are the counted groups by that field, in
their order and without the group that shows null, of which there is one at most. -/
theorem answer_values_eq_groups {q : Query} {details : Bool}
    {rows : List (List (String × Datum))} {a : Answer} (hgrouping : q.grouping = some f.name)
    (hnone : q.aggregations = []) (hdistinct : q.distinct = some { field := f.name, details })
    (h : q.answer (.list (rows.map .object)) = .ok a) :
    a.values.map (·.map (ValueCount.row f.name)) =
        some (a.results.filter fun row => !row.lacks f.name) ∧
      a.results.countP (Datum.lacks f.name) ≤ 1 := by
  obtain ⟨hstages, found, hfound, hresults⟩ := answer_groupRows hgrouping h
  rw [hnone] at hfound
  obtain ⟨counts, hcounts, hvalues, _⟩ := hstages.values _ hdistinct
  have hcards : ∀ e ∈ q.passing rows, e.card.ShowsRow := fun _ he =>
    showsRow_of_mem (List.mem_filter.mp he).1
  let groups := entryGroups f.name (q.passing rows)
  have hperm : (bySize groups).Perm groups := Ranking.rising_perm _ _ _
  have hlacks : ∀ g ∈ bySize groups,
      (Datum.object (countedRow f.name g)).lacks f.name = !g.1.isPresent := fun g hg =>
    lacks_countedRow (hperm.mem_iff.mp hg)
  have hshown : a.results = (bySize groups).map fun g => .object (countedRow f.name g) := by
    rw [hresults, groupRows_count hfound, List.map_map]
    rfl
  constructor
  · rw [hvalues, hshown, valueCounts_groups hcards hcounts, List.filter_map, Option.map_some,
      List.map_map]
    refine congrArg some ?_
    have hselected : (bySize groups).filter (fun g => g.1.isPresent) =
        (bySize groups).filter
          fun g => !(Datum.object (countedRow f.name g)).lacks f.name := by
      refine List.filter_congr fun g hg => ?_
      rw [hlacks g hg, Bool.not_not]
    rw [hselected]
    exact List.map_congr_left fun g _ => row_countOf details g
  · rw [hshown, List.countP_map]
    have hcount : (bySize groups).countP
          (fun g => (Datum.object (countedRow f.name g)).lacks f.name) =
        groups.countP fun g => !g.1.isPresent :=
      (List.countP_congr fun g hg => by rw [hlacks g hg]).trans (hperm.countP_eq _)
    exact (Nat.le_of_eq hcount).trans (countP_not_isPresent_le _ _)

def issuersCounted : Query :=
  { grouping := some Field.issuer.name
    distinct := some { field := Field.issuer.name, details := true }
    dataset := .null }

theorem answer_values_eq_groups_fourIssuers :
    ∃ a, issuersCounted.answer (.list (fourIssuers.map .object)) = .ok a ∧
      a.values.map (·.map (ValueCount.row Field.issuer.name)) =
        some (a.results.filter fun row => !row.lacks Field.issuer.name) ∧
      a.results.countP (Datum.lacks Field.issuer.name) ≤ 1 := by
  obtain ⟨a, ha⟩ : ∃ a, issuersCounted.answer (.list (fourIssuers.map .object)) = .ok a :=
    exists_ok_of_isOk (by decide +kernel)
  exact ⟨a, ha, answer_values_eq_groups rfl rfl rfl ha⟩

end Query

end Cardfolio
