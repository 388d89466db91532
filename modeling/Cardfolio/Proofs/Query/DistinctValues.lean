import Cardfolio.Proofs.Query.Groups
import Cardfolio.Proofs.Query.Rows
import Cardfolio.Proofs.Sorting.Ranked
import Cardfolio.Proofs.Text.Comparable

/-!
# The different values of a field

A query for the different values of a field is answered by a table. The table is
about the entries in the order that the results have, and only about those with a
value to be told apart: absent values, the reward table and blank texts do not count.
Of these entries the first with each key gives the spelling of its value, and the
table says how many there are (`Query.countAmong`). The most frequent value comes
first, and of equally frequent ones the one that appeared first.

`valueOf?` decides about blank texts by their keys and not by the texts. That is the
same, because folding never makes a text empty.
-/

namespace Cardfolio

/-- A value that is told apart from others: neither absent nor the reward table nor
blank. -/
def Datum.isTold : Datum → Bool
  | .null | .object _ => false
  | .text s => !s.toList.all Text.isBlank
  | _ => true

theorem Datum.isTold_text_iff {s : String} :
    (Datum.text s).isTold = true ↔ Text.comparable s.toList ≠ [] := by
  rw [isTold, Bool.not_eq_true', ne_eq, Text.comparable_eq_nil_iff, ← List.all_eq_true,
    Bool.not_eq_true]

namespace Entry

/-- The key by which the entry's value in a field is told apart. -/
def keyOf (field : String) (e : Entry) : GroupKey :=
  GroupKey.of (e.cell field)

/-- The entry has a value in a field that counts as one. -/
def hasValue (field : String) (e : Entry) : Bool :=
  (e.cell field).isTold

end Entry

namespace Query

theorem valueOf?_eq {field : String} {e : Entry} {o : Option (GroupKey × (Datum × Datum))}
    (h : valueOf? field e = .ok o) :
    e.Has field ∧ o = if e.hasValue field then
      some (e.keyOf field, e.cell field, e.record) else none := by
  obtain ⟨v, hv, h⟩ := bind_eq_ok.mp h
  refine ⟨Entry.has_of_get hv, ?_⟩
  rw [Entry.hasValue, Entry.keyOf, Entry.cell_eq hv]
  split at h
  · exact (pure_eq_ok.mp h).symm
  · exact (pure_eq_ok.mp h).symm
  · next hnull hobject =>
      obtain ⟨k, hk, h⟩ := bind_eq_ok.mp h
      obtain rfl := GroupKey.ofDatum_eq hk
      cases v with
      | null => exact (hnull rfl).elim
      | object entries => exact (hobject entries rfl).elim
      | text s =>
          dsimp only [GroupKey.of] at h ⊢
          split at h
          · next hkey =>
              have hblank := GroupKey.text.inj hkey
              rw [if_neg fun htold => Datum.isTold_text_iff.mp htold hblank]
              exact (pure_eq_ok.mp h).symm
          · next hkey =>
              have htold : Text.comparable s.toList ≠ [] := by
                intro hblank
                rw [hblank] at hkey
                exact hkey rfl
              rw [if_pos (Datum.isTold_text_iff.mpr htold)]
              exact (pure_eq_ok.mp h).symm
      | bool _ => exact (pure_eq_ok.mp h).symm
      | number _ => exact (pure_eq_ok.mp h).symm
      | list _ => exact (pure_eq_ok.mp h).symm
      | date _ => exact (pure_eq_ok.mp h).symm
      | moment _ => exact (pure_eq_ok.mp h).symm
      | card _ => exact (pure_eq_ok.mp h).symm

/-- How many entries have the same value as one of them. -/
def frequency (field : String) (counted : List Entry) (x : Entry × Nat) : Nat :=
  (companions (Entry.keyOf field) counted x).length

/-- What the table says about the value that an entry is the first to have. -/
def countAmong (d : Distinct) (counted : List Entry) (x : Entry × Nat) : ValueCount where
  value := x.1.cell d.field
  count := frequency d.field counted x
  cards :=
    if d.details then
      some (((companions (Entry.keyOf d.field) counted x).take 3).map Entry.record)
    else none

/-- The first entries with a value of their own, the most frequent value first and
then in the order in which they appeared. -/
structure ByFrequency (field : String) (counted : List Entry) (order : List (Entry × Nat)) :
    Prop where
  first : ∀ x, x ∈ order ↔ IsFirst (Entry.keyOf field) counted x
  sorted : order.Pairwise fun x y =>
    frequency field counted y < frequency field counted x ∨
      frequency field counted y = frequency field counted x ∧ x.2 < y.2

/-- The first entries with a value of their own, sorted by how many have it. -/
def mostFrequent (field : String) (counted : List Entry) : List (Entry × Nat) :=
  Ranking.rising true
    (fun x y => decide (frequency field counted y < frequency field counted x))
    (firsts (Entry.keyOf field) counted)

theorem mostFrequent_byFrequency {field : String} {counted : List Entry} :
    ByFrequency field counted (mostFrequent field counted) := by
  have hranked := Ranking.rising_ranked firsts_places_lt
    (orderedBy_count (frequency field counted) (firsts (Entry.keyOf field) counted))
  constructor
  · intro x
    rw [mostFrequent, hranked.perm.mem_iff, mem_firsts_iff]
  · refine hranked.sorted.imp₂ ?_ hranked.stable
    intro x y hle htie
    rw [decide_eq_false_iff_not] at hle htie
    omega

theorem countOf_companions {d : Distinct} {counted : List Entry} {x : Entry × Nat}
    (hx : IsFirst (Entry.keyOf d.field) counted x) :
    countOf d.details ((companions (Entry.keyOf d.field) counted x).map fun e =>
      (e.cell d.field, e.record)) = countAmong d counted x := by
  rw [countOf, countAmong, frequency, List.head?_map, companions_head? hx, List.length_map,
    ← List.map_take, List.map_map]
  rfl

/-- The table is about the groups of the entries with a value, the largest first. -/
theorem valueCounts_eq_rising {d : Distinct} {entries : List Entry} {counts : List ValueCount}
    (h : valueCounts d entries = .ok counts) :
    (∀ e ∈ entries, e.Has d.field) ∧
      counts = Ranking.rising true (fun a b => decide (b.count < a.count))
        ((gather ((entries.filter (Entry.hasValue d.field)).map fun e =>
          (e.keyOf d.field, (e.cell d.field, e.record)))).map fun g =>
            countOf d.details g.2) := by
  obtain ⟨keyed, hkeyed, h⟩ := bind_eq_ok.mp h
  constructor
  · intro e he
    obtain ⟨o, ho⟩ := exists_ok_of_mapM_eq_ok hkeyed he
    exact (valueOf?_eq ho).1
  · have hvalues : keyed.filterMap id = (entries.filter (Entry.hasValue d.field)).map fun e =>
        (e.keyOf d.field, (e.cell d.field, e.record)) := by
      rw [eq_map_of_mapM_eq_ok hkeyed fun e _ o ho => (valueOf?_eq ho).2, List.filterMap_map,
        ← List.filterMap_eq_map, List.filterMap_filter]
      rfl
    rw [← pure_eq_ok.mp h, hvalues]

theorem valueCounts_eq {d : Distinct} {entries : List Entry} {counts : List ValueCount}
    (h : valueCounts d entries = .ok counts) :
    (∀ e ∈ entries, e.Has d.field) ∧
      ∃ order, ByFrequency d.field (entries.filter (Entry.hasValue d.field)) order ∧
        counts = order.map (countAmong d (entries.filter (Entry.hasValue d.field))) := by
  obtain ⟨hhas, rfl⟩ := valueCounts_eq_rising h
  let counted := entries.filter (Entry.hasValue d.field)
  refine ⟨hhas, mostFrequent d.field counted, mostFrequent_byFrequency, ?_⟩
  have hcounts : ((groupsOf (Entry.keyOf d.field) (fun e => (e.cell d.field, e.record))
      counted).map fun g => countOf d.details g.2) =
      (firsts (Entry.keyOf d.field) counted).map (countAmong d counted) := by
    rw [groupsOf, List.map_map]
    refine List.map_congr_left fun x hx => ?_
    exact countOf_companions (mem_firsts_iff.mp hx)
  rw [gather_map, hcounts, Ranking.rising_map]
  rfl

/-- A query for the different values of a field is answered by one entry for each key
among the rows that have a value, taken in the order of the results. -/
theorem answer_values {q : Query} {rows : List (List (String × Datum))} {d : Distinct}
    {a : Answer} (hdistinct : q.distinct = some d)
    (h : q.answer (.list (rows.map .object)) = .ok a) :
    ∃ S, q.Arranged (q.passing rows) S ∧ (q.AsksRecords → a.results = S.map Entry.record) ∧
      (∀ e ∈ S, e.Has d.field) ∧
      ∃ order, ByFrequency d.field (S.filter (Entry.hasValue d.field)) order ∧
        a.values = some (order.map (countAmong d (S.filter (Entry.hasValue d.field)))) ∧
        a.total = order.length := by
  obtain ⟨ordered, hstages⟩ := answer_rows h
  obtain ⟨counts, hcounts, hvalues, htotal⟩ := hstages.values d hdistinct
  obtain ⟨hhas, order, horder, rfl⟩ := valueCounts_eq hcounts
  refine ⟨ordered, resultsOf_arranged hstages.results, ?_, hhas, order, horder, hvalues, ?_⟩
  · intro hasks
    exact (resultsOf_records hasks hstages.results).2
  · rw [htotal, List.length_map]

/-- Rows with three spellings of two issuers, and one without. -/
def fourIssuers : List (List (String × Datum)) :=
  [[("issuer", .text "Citi")], [("issuer", .text " Chase ")], [("apr", .whole 20)],
    [("issuer", .text "CHASE")]]

def issuersWithCards : Query :=
  { distinct := some { field := "issuer", details := true }, dataset := .null }

theorem answer_values_issuersWithCards :
    ∃ a, issuersWithCards.answer (.list (fourIssuers.map .object)) = .ok a ∧
      ∃ S, issuersWithCards.Arranged (issuersWithCards.passing fourIssuers) S ∧
        ∃ order, ByFrequency "issuer" (S.filter (Entry.hasValue "issuer")) order ∧
          a.values = some (order.map (countAmong { field := "issuer", details := true }
            (S.filter (Entry.hasValue "issuer")))) ∧
          a.total = order.length := by
  obtain ⟨a, ha⟩ : ∃ a, issuersWithCards.answer (.list (fourIssuers.map .object)) = .ok a :=
    exists_ok_of_isOk (by decide +kernel)
  obtain ⟨S, harranged, _, _, order, horder⟩ := answer_values rfl ha
  exact ⟨a, ha, S, harranged, order, horder⟩

end Query

end Cardfolio
