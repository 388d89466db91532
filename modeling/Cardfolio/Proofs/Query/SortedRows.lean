import Cardfolio.Proofs.Query.Groups
import Cardfolio.Proofs.Query.Rows
import Cardfolio.Proofs.Sorting.Ranked

/-!
# Rows in the order of a field

A query that asks for records in the order of a field gets the records that pass,
each once: first those that have something to be sorted by, in the order of their
keys, and then the others as they were. Records with one key stay as they were in
both directions, and so do those without any.

What a cell is sorted as is one thing, and what decides between two cells is another.
A truth value is sorted as a number and the reward table by a greatest multiplier
(`Datum.SortsAs`). Then all cells are looked at together: when every one of them is
sorted as a number the numbers decide, and otherwise the texts do (`SortKey.among`).
This is why a key can only be given for a cell among others.

Only numbers that are none stand in the way. They have no place in an order, and the
laws below ask that there are none among the keys.
-/

namespace Cardfolio

/-- The value by which a cell is sorted, null when there is none. -/
inductive Datum.SortsAs : Datum → Datum → Prop
  | flag (b : Bool) : SortsAs (.bool b) (.whole (if b then 1 else 0))
  | unrewarded {entries : List (String × Datum)}
      (hnone : ∀ e ∈ entries, e.2.toNumber? = none) : SortsAs (.object entries) .null
  | rewarded {entries : List (String × Datum)} {best : Number}
      (hmem : ∃ e ∈ entries, e.2.toNumber? = some best)
      (hbest : ∀ e ∈ entries, ∀ n, e.2.toNumber? = some n → best.lt n = false) :
      SortsAs (.object entries) (.number best)
  | itself {value : Datum} (hflag : ∀ b, value ≠ .bool b)
      (hobject : ∀ entries, value ≠ .object entries) : SortsAs value value

/-- None of the numbers by which a cell could be sorted is missing its place. -/
def Datum.Rankable : Datum → Prop
  | .number n => n.isNaN = false
  | .object entries => ∀ e ∈ entries, ∀ n ∈ e.2.toNumber?, n.isNaN = false
  | _ => True

instance : DecidablePred Datum.Rankable
  | .number n => inferInstanceAs (Decidable (n.isNaN = false))
  | .object entries =>
      inferInstanceAs (Decidable (∀ e ∈ entries, ∀ n ∈ e.2.toNumber?, n.isNaN = false))
  | .null | .bool _ | .text _ | .list _ | .date _ | .moment _ | .card _ => isTrue trivial

namespace Query

theorem mem_multipliers_iff {entries : List (String × Datum)} {n : Number} :
    n ∈ (entries.map (·.2)).filterMap Datum.toNumber? ↔
      ∃ e ∈ entries, e.2.toNumber? = some n := by
  rw [List.mem_filterMap]
  constructor
  · intro h
    obtain ⟨v, hv, hn⟩ := h
    obtain ⟨e, he, rfl⟩ := List.mem_map.mp hv
    exact ⟨e, he, hn⟩
  · intro h
    obtain ⟨e, he, hn⟩ := h
    exact ⟨e.2, List.mem_map_of_mem he, hn⟩

theorem sortValue_sortsAs {value : Datum} (h : value.Rankable) :
    value.SortsAs (sortValue value) := by
  unfold sortValue
  split
  · next entries =>
      have hmem := @mem_multipliers_iff entries
      split
      · next hnil =>
          refine .unrewarded fun e he => ?_
          rw [Option.eq_none_iff_forall_not_mem]
          intro n hn
          have := hmem.mpr ⟨e, he, hn⟩
          rw [hnil] at this
          cases this
      · next first rest hcons =>
          rw [hcons] at hmem
          have hplace : ∀ n ∈ first :: rest, n.isNaN = false := by
            intro n hn
            obtain ⟨e, he, hen⟩ := hmem.mp hn
            exact h e he n hen
          have hgreatest := Number.isGreatest_greatest first rest
          refine .rewarded (hmem.mp hgreatest.mem) ?_
          intro e he n hn
          exact hgreatest.ge hplace n (hmem.mpr ⟨e, he, hn⟩)
  · next b => exact .flag b
  · next hobject hflag => exact .itself (fun b => hflag b) fun entries => hobject entries

theorem sortValue_place {value : Datum} {n : Number} (h : value.Rankable)
    (hn : sortValue value = .number n) : n.isNaN = false := by
  have hsorts := sortValue_sortsAs h
  rw [hn] at hsorts
  cases hsorts with
  | flag b => rfl
  | rewarded hmem _ =>
      obtain ⟨e, he, hen⟩ := hmem
      exact h e he n hen
  | itself _ _ => exact h

/-! ## Keys -/

namespace SortKey

/-- A cell that is sorted as a number. -/
def isNumeric : Datum → Bool
  | .number _ => true
  | _ => false

/-- The key of a cell among those that are sorted: its number when all of them are
numbers, and its text with case folded away otherwise. -/
def among (values : List Datum) (value : Datum) : SortKey :=
  match value, values.all isNumeric with
  | .number n, true => number n
  | value, _ => text (Text.fold value.written.toList)

theorem among_number {values : List Datum} (h : values.all isNumeric = true) (n : Number) :
    among values (.number n) = number n := by
  unfold among
  rw [h]

theorem among_text {values : List Datum} (h : values.all isNumeric = false) (value : Datum) :
    among values value = text (Text.fold value.written.toList) := by
  unfold among
  rw [h]
  split
  · next hnever => cases hnever
  · rfl

theorem mapM_number_eq_some {values : List Datum} {numbers : List Number}
    (h : values.mapM (fun value => match value with | .number n => some n | _ => none)
      = some numbers) : values = numbers.map .number := by
  induction values generalizing numbers with
  | nil =>
      obtain rfl := Option.some.inj h
      rfl
  | cons value rest ih =>
      rw [List.mapM_cons, Option.bind_eq_bind, Option.bind_eq_some_iff] at h
      obtain ⟨n, hn, h⟩ := h
      rw [Option.bind_eq_bind, Option.bind_eq_some_iff] at h
      obtain ⟨others, hothers, h⟩ := h
      obtain rfl := Option.some.inj h
      rw [List.map_cons, ← ih hothers]
      split at hn
      · rw [Option.some.inj hn]
      · cases hn

theorem mapM_number_map (numbers : List Number) :
    (numbers.map Datum.number).mapM
      (fun value => match value with | .number n => some n | _ => none) = some numbers := by
  induction numbers with
  | nil => rfl
  | cons n rest ih =>
      rw [List.map_cons, List.mapM_cons, ih]
      rfl

theorem all_isNumeric_iff {values : List Datum} :
    values.all isNumeric = true ↔ ∃ numbers : List Number, values = numbers.map .number := by
  constructor
  · intro h
    induction values with
    | nil => exact ⟨[], rfl⟩
    | cons value rest ih =>
        rw [List.all_cons, Bool.and_eq_true] at h
        obtain ⟨others, rfl⟩ := ih h.2
        cases value with
        | number n => exact ⟨n :: others, rfl⟩
        | _ => cases h.1
  · intro h
    obtain ⟨numbers, rfl⟩ := h
    rw [List.all_eq_true]
    intro value hvalue
    obtain ⟨n, _, rfl⟩ := List.mem_map.mp hvalue
    rfl

theorem all_isNumeric_of_mapM_eq_none {values : List Datum}
    (h : values.mapM (fun value => match value with | .number n => some n | _ => none) = none) :
    values.all isNumeric = false := by
  rw [Bool.eq_false_iff]
  intro hall
  obtain ⟨numbers, rfl⟩ := all_isNumeric_iff.mp hall
  cases h.symm.trans (mapM_number_map numbers)

theorem ofValues_eq {values : List Datum} {keys : List SortKey} (h : ofValues values = .ok keys) :
    keys = values.map (among values) := by
  unfold ofValues at h
  split at h
  · next numbers hnumbers =>
      have hall := all_isNumeric_iff.mpr ⟨numbers, mapM_number_eq_some hnumbers⟩
      rw [← Except.ok.inj h]
      refine Eq.trans ?_ (congrArg (List.map (among values)) (mapM_number_eq_some hnumbers).symm)
      rw [List.map_map]
      exact List.map_congr_left fun n _ => (among_number hall n).symm
  · next hnone =>
      refine eq_map_of_mapM_eq_ok h fun value _ key hkey => ?_
      obtain ⟨s, hs, rfl⟩ := map_eq_ok.mp hkey
      rw [among_text (all_isNumeric_of_mapM_eq_none hnone), value.write_settles.of_eq_ok hs]

/-- Cells have keys unless they are sorted as texts and one of them cannot be written. -/
theorem ofValues_settles (values : List Datum) :
    Settles False (values.all isNumeric = false ∧ ∃ value ∈ values, value.isWritable = false)
      (fun _ => True) (ofValues values) := by
  unfold ofValues
  split
  · exact .value trivial
  · next hnone =>
      have hall := all_isNumeric_of_mapM_eq_none hnone
      refine (Settles.mapM (r := fun _ _ => True) fun value hvalue => ?_).mono id id
        fun _ _ => trivial
      exact (value.write_settles.mono id (fun hlong => ⟨hall, value, hvalue, hlong⟩)
        fun _ h => h).map fun _ _ => trivial

theorem orderedBy_numbers {numbers : List Number} (h : ∀ n ∈ numbers, n.isNaN = false) :
    OrderedBy lt (numbers.map number) :=
  orderedBy_map_iff.mpr (Number.orderedBy_lt h)

theorem orderedBy_texts (texts : List (List Char)) : OrderedBy lt (texts.map text) := by
  rw [orderedBy_map_iff]
  constructor
  · intro a _ b _ hab
    simp only [lt, Text.precedes, decide_eq_true_eq, decide_eq_false_iff_not] at hab ⊢
    exact List.lt_asymm hab
  · intro a _ b _ c _ hab hbc
    simp only [lt, Text.precedes, decide_eq_false_iff_not, List.not_lt] at hab hbc ⊢
    exact List.le_trans hab hbc

/-- The keys of cells that have one can be compared with each other. -/
theorem orderedBy_among {values : List Datum}
    (h : ∀ n, Datum.number n ∈ values → n.isNaN = false) :
    OrderedBy lt (values.map (among values)) := by
  cases hall : values.all isNumeric with
  | true =>
      obtain ⟨numbers, hvalues⟩ := all_isNumeric_iff.mp hall
      have hkeys : values.map (among values) = numbers.map number := by
        refine (congrArg (List.map (among values)) hvalues).trans ?_
        rw [List.map_map]
        exact List.map_congr_left fun n _ => among_number hall n
      rw [hkeys]
      refine orderedBy_numbers fun n hn => h n ?_
      rw [hvalues]
      exact List.mem_map_of_mem hn
  | false =>
      have hkeys : values.map (among values) =
          (values.map fun value => Text.fold value.written.toList).map text := by
        rw [List.map_map]
        exact List.map_congr_left fun value _ => among_text hall value
      rw [hkeys]
      exact orderedBy_texts _

theorem among_isComparable {values : List Datum} {value : Datum}
    (h : ∀ n, value = .number n → n.isNaN = false) :
    (among values value).isComparable = true := by
  unfold among
  split
  · next n _ =>
      rw [isComparable, h n rfl]
      rfl
  · rfl

/-- One key is before another in a direction. -/
def before : Direction → SortKey → SortKey → Bool
  | .ascending, a, b => a.lt b
  | .descending, a, b => b.lt a

end SortKey

/-! ## Ranking -/

theorem rank_ranked {α β : Type _} {xs : List α} {key : α → SortKey} {before : α → α → Prop}
    (direction : Direction) (f : α → β) (hbefore : xs.Pairwise before)
    (horder : OrderedBy SortKey.lt (xs.map key))
    (hcomparable : ∀ x ∈ xs, (key x).isComparable = true) :
    ∃ ys, (rank direction (xs.map fun x => (key x, f x))).map (·.2) = ys.map f ∧
      Ranked (fun x y => SortKey.before direction (key x) (key y)) before xs ys := by
  have hall : (xs.map fun x => (key x, f x)).all (·.1.isComparable) = true := by
    rw [List.all_eq_true]
    intro keyed hkeyed
    obtain ⟨x, hx, rfl⟩ := List.mem_map.mp hkeyed
    exact hcomparable x hx
  cases direction with
  | ascending =>
      refine ⟨_, ?_, Ranking.rising_ranked hbefore (orderedBy_map_iff.mp horder)⟩
      rw [rank, hall]
      show (Ranking.rising true _ _).map _ = _
      rw [Ranking.rising_map, List.map_map]
      rfl
  | descending =>
      refine ⟨_, ?_, Ranking.falling_ranked hbefore (orderedBy_map_iff.mp horder)⟩
      rw [rank, hall]
      show (Ranking.falling true _ _).map _ = _
      rw [Ranking.falling_map, List.map_map]
      rfl

/-- The value by which an entry is sorted. -/
def sortedAs (s : Sorting) (e : Entry) : Datum :=
  sortValue (e.cell s.field)

/-- The entries that have a value to be sorted by. -/
def sortable (s : Sorting) (e : Entry) : Bool :=
  !(sortedAs s e).isNull

/-- The key of an entry among those that are sorted. -/
def keyAmong (s : Sorting) (entries : List Entry) (e : Entry) : SortKey :=
  SortKey.among ((entries.filter (sortable s)).map (sortedAs s)) (sortedAs s e)

/-- An entry beside the value that it is sorted by. -/
def valuedBy (s : Sorting) (e : Entry) : Except Fault (Datum × Entry) := do
  let value ← e.card.get s.field
  return (sortValue value, e)

theorem mapM_valuedBy_eq {s : Sorting} {entries : List Entry} {valued : List (Datum × Entry)}
    (h : entries.mapM (valuedBy s) = .ok valued) :
    valued = entries.map fun e => (sortedAs s e, e) := by
  refine eq_map_of_mapM_eq_ok h fun e _ v hv => ?_
  obtain ⟨value, hvalue, hv⟩ := bind_eq_ok.mp hv
  rw [← Except.ok.inj hv, sortedAs, Entry.cell_eq hvalue]

theorem present_eq (s : Sorting) (entries : List Entry) :
    (entries.map fun e => (sortedAs s e, e)).filter (not ∘ (·.1.isNull)) =
      (entries.filter (sortable s)).map fun e => (sortedAs s e, e) := by
  rw [List.filter_map]
  rfl

theorem sortBy_eq {s : Sorting} {entries ordered : List Entry}
    (h : sortBy s entries = .ok ordered) :
    (∀ e ∈ entries, e.Has s.field) ∧
      ordered =
        (rank s.direction ((entries.filter (sortable s)).map fun e =>
          (keyAmong s entries e, e))).map (·.2)
        ++ entries.filter fun e => !sortable s e := by
  obtain ⟨valued, hvalued, h⟩ := bind_eq_ok.mp h
  have hhas : ∀ e ∈ entries, e.Has s.field := by
    intro e he
    obtain ⟨v, hv⟩ := exists_ok_of_mapM_eq_ok hvalued he
    obtain ⟨value, hvalue, _⟩ := bind_eq_ok.mp hv
    exact Entry.has_of_get hvalue
  refine ⟨hhas, ?_⟩
  obtain rfl := mapM_valuedBy_eq hvalued
  rw [List.partition_eq_filter_filter] at h
  obtain ⟨keys, hkeys, h⟩ := bind_eq_ok.mp h
  obtain rfl := pure_eq_ok.mp h
  have hmissing : ((entries.map fun e => (sortedAs s e, e)).filter (·.1.isNull)).map (·.2) =
      entries.filter fun e => !sortable s e := by
    rw [List.filter_map, List.map_map]
    refine (List.map_id' _).trans (List.filter_congr fun e _ => ?_)
    exact (Bool.not_not _).symm
  rw [hmissing, SortKey.ofValues_eq hkeys, present_eq, List.map_map, List.map_map, List.map_map,
    List.map_map, List.zip_map']
  rfl

/-- Sorting fails only where looking up the field does, if what is sorted are numbers or can be
written. -/
theorem sortBy_settles {large : Prop} {p : Datum → Prop} {s : Sorting} {entries : List Entry}
    (hget : ∀ e ∈ entries, Settles large False p (e.card.get s.field))
    (hkeys : (∀ e ∈ entries, sortable s e = true → SortKey.isNumeric (sortedAs s e) = true) ∨
      ∀ e ∈ entries, (sortedAs s e).isWritable = true) :
    Settles large False (fun _ => True) (sortBy s entries) := by
  have hvalued : Settles large False (List.Forall₂ (fun _ _ => True) entries)
      (entries.mapM (valuedBy s)) :=
    .mapM fun e he => (hget e he).bind fun _ _ _ => .value trivial
  refine hvalued.bind fun valued hvalued _ => ?_
  obtain rfl := mapM_valuedBy_eq hvalued
  rw [List.partition_eq_filter_filter]
  refine ((SortKey.ofValues_settles _).mono False.elim ?_ fun _ h => h).bind
    fun _ _ _ => .value trivial
  rintro ⟨hmixed, value, hvalue, hlong⟩
  rw [present_eq, List.map_map] at hmixed hvalue
  rcases hkeys with hnumeric | hwritable
  · rw [List.all_eq_false] at hmixed
    obtain ⟨value, hvalue, hnot⟩ := hmixed
    obtain ⟨e, he, rfl⟩ := List.mem_map.mp hvalue
    obtain ⟨he, hsortable⟩ := List.mem_filter.mp he
    exact hnot (hnumeric e he hsortable)
  · obtain ⟨e, he, rfl⟩ := List.mem_map.mp hvalue
    have hsortedAs := hwritable e (List.mem_filter.mp he).1
    cases hlong.symm.trans hsortedAs

theorem rank_perm {α : Type _} (direction : Direction) (keyed : List (SortKey × α)) :
    (rank direction keyed).Perm keyed := by
  cases direction with
  | ascending => exact Ranking.rising_perm _ _ _
  | descending =>
      exact ((List.reverse_perm _).trans (Ranking.rising_perm _ _ _)).trans (List.reverse_perm _)

/-- Sorting keeps all entries, whether they can be compared or not. -/
theorem sortBy_perm {s : Sorting} {entries ordered : List Entry}
    (h : sortBy s entries = .ok ordered) : ordered.Perm entries := by
  obtain ⟨_, rfl⟩ := sortBy_eq h
  refine (List.Perm.append_right _ ?_).trans (List.filter_append_perm (sortable s) entries)
  refine ((rank_perm _ _).map _).trans (.of_eq ?_)
  rw [List.map_map]
  exact List.map_id' _

theorem Arranged.perm {q : Query} {entries ordered : List Entry}
    (h : q.Arranged entries ordered) : ordered.Perm entries := by
  cases h with
  | sorted _ _ h => exact sortBy_perm h
  | unsorted _ => exact .refl _

/-! ## Sorted rows -/

theorem filter_eq_map_zipIdx {α : Type _} (p : α → Bool) (xs : List α) :
    xs.filter p = (xs.zipIdx.filter fun x => p x.1).map Prod.fst := by
  conv => lhs; rw [← List.zipIdx_map_fst 0 xs]
  exact List.filter_map

/-- Entries in the order of a field, those without a value last. Each entry stands
beside its place. -/
structure InOrder (s : Sorting) (entries : List Entry) (present missing : List (Entry × Nat)) :
    Prop where
  perm : (present ++ missing).Perm entries.zipIdx
  valued : ∀ x ∈ present, sortedAs s x.1 ≠ .null
  missing : missing = entries.zipIdx.filter fun x => (sortedAs s x.1).isNull
  sorted : present.Pairwise fun x y =>
    SortKey.before s.direction (keyAmong s entries y.1) (keyAmong s entries x.1) = false
  stable : present.Pairwise fun x y =>
    SortKey.before s.direction (keyAmong s entries x.1) (keyAmong s entries y.1) = false →
      x.2 < y.2

theorem sortBy_inOrder {s : Sorting} {entries ordered : List Entry}
    (hrank : ∀ e ∈ entries, (e.cell s.field).Rankable) (h : sortBy s entries = .ok ordered) :
    ∃ present missing, InOrder s entries present missing ∧
      ordered = (present ++ missing).map Prod.fst := by
  let xs := entries.zipIdx.filter fun x => sortable s x.1
  have hplace : ∀ e ∈ entries.filter (sortable s), ∀ n,
      sortedAs s e = .number n → n.isNaN = false := by
    intro e he n hn
    exact sortValue_place (hrank e (List.mem_filter.mp he).1) hn
  have hfst : entries.filter (sortable s) = xs.map Prod.fst := filter_eq_map_zipIdx _ _
  have hmem : ∀ x ∈ xs, x.1 ∈ entries.filter (sortable s) := by
    intro x hx
    rw [hfst]
    exact List.mem_map_of_mem hx
  have hkeys : OrderedBy SortKey.lt (xs.map fun x => keyAmong s entries x.1) := by
    have hnumbers : ∀ n, Datum.number n ∈ (entries.filter (sortable s)).map (sortedAs s) →
        n.isNaN = false := by
      intro n hn
      obtain ⟨e, he, hen⟩ := List.mem_map.mp hn
      exact hplace e he n hen
    have horder := SortKey.orderedBy_among hnumbers
    rw [List.map_map] at horder
    conv at horder => arg 2; arg 2; rw [hfst]
    rw [List.map_map] at horder
    exact horder
  have hcomparable : ∀ x ∈ xs, (keyAmong s entries x.1).isComparable = true :=
    fun x hx => SortKey.among_isComparable (hplace x.1 (hmem x hx))
  obtain ⟨present, hpresent, hranked⟩ := rank_ranked s.direction Prod.fst
    ((places_lt entries).filter _) hkeys hcomparable
  refine ⟨present, entries.zipIdx.filter fun x => (sortedAs s x.1).isNull, ?_, ?_⟩
  · constructor
    · have hsplit := List.filter_append_perm (fun x => sortable s x.1) entries.zipIdx
      simp only [sortable, Bool.not_not] at hsplit
      exact (hranked.perm.append_right _).trans hsplit
    · intro x hx hnull
      have hsortable := (List.mem_filter.mp (hranked.perm.mem_iff.mp hx)).2
      rw [sortable, hnull] at hsortable
      cases hsortable
    · rfl
    · exact hranked.sorted
    · exact hranked.stable
  · obtain ⟨_, hordered⟩ := sortBy_eq h
    rw [hordered, hfst, List.map_map, List.map_append, ← hpresent, filter_eq_map_zipIdx]
    simp only [sortable, Bool.not_not]
    rfl

/-- A query for records in the order of a field is answered by the rows that pass, those
with a key in the order of the keys and all others behind them, ties as they were. -/
theorem answer_inOrder {q : Query} {rows : List (List (String × Datum))} {s : Sorting}
    {a : Answer} (hasks : q.AsksRecords) (hsorting : q.sorting = some s)
    (hrank : ∀ e ∈ q.passing rows, (e.cell s.field).Rankable)
    (h : q.answer (.list (rows.map .object)) = .ok a) :
    (∀ e ∈ q.passing rows, e.Has s.field ∧ (e.cell s.field).SortsAs (sortedAs s e)) ∧
      ∃ present missing, InOrder s (q.passing rows) present missing ∧
        a.results = (present ++ missing).map fun x => x.1.record := by
  obtain ⟨ordered, hstages⟩ := answer_rows h
  obtain ⟨harranged, hresults⟩ := resultsOf_records hasks hstages.results
  have hsorted : sortBy s (q.passing rows) = .ok ordered := by
    cases harranged with
    | sorted _ hsorting' hsorted =>
        obtain rfl := Option.some.inj (hsorting.symm.trans hsorting')
        exact hsorted
    | unsorted hnone => cases hsorting.symm.trans (hnone hasks)
  obtain ⟨hhas, _⟩ := sortBy_eq hsorted
  obtain ⟨present, missing, horder, rfl⟩ := sortBy_inOrder hrank hsorted
  refine ⟨?_, present, missing, horder, ?_⟩
  · intro e he
    exact ⟨hhas e he, sortValue_sortsAs (hrank e he)⟩
  · rw [hresults, List.map_map]
    rfl

/-- Rows with a tie between two forms of a number, and one without a balance. -/
def tiedBalances : List (List (String × Datum)) :=
  [[("issuer", .text "Chase"), ("current_balance", .whole 200)],
    [("issuer", .text "Citi")],
    [("issuer", .text "Amex"), ("current_balance", .text "$1,200")],
    [("issuer", .text "Discover"), ("current_balance", .text "200.0")]]

def byBalance : Query :=
  { sorting := some { field := "current_balance", direction := .descending }, dataset := .null }

theorem answer_inOrder_byBalance :
    byBalance.AsksRecords ∧
      (∀ e ∈ byBalance.passing tiedBalances, (e.cell "current_balance").Rankable) ∧
      ∃ a, byBalance.answer (.list (tiedBalances.map .object)) = .ok a ∧
        ∃ present missing,
          InOrder { field := "current_balance", direction := .descending }
            (byBalance.passing tiedBalances) present missing ∧
          a.results = (present ++ missing).map fun x => x.1.record := by
  have hasks : byBalance.AsksRecords := ⟨rfl, rfl⟩
  have hrank : ∀ e ∈ byBalance.passing tiedBalances,
      (e.cell "current_balance").Rankable := by decide +kernel
  obtain ⟨a, ha⟩ : ∃ a, byBalance.answer (.list (tiedBalances.map .object)) = .ok a :=
    exists_ok_of_isOk (by decide +kernel)
  exact ⟨hasks, hrank, a, ha, (answer_inOrder hasks rfl hrank ha).2⟩

end Query

end Cardfolio
