import Cardfolio.Proofs.Query.Figures
import Cardfolio.Proofs.Query.Groups
import Cardfolio.Proofs.Sorting.Ranked

/-!
# Rows of figures by group

A query that groups by a field gets one row for each key of the field. The row of a
key belongs to the first entry with that key. It shows this entry's value in the field
and, for each figure that was asked for, the figure over all entries with the key, in
their order (`GroupRow`). The reward table counts as an absent value here, and without
any figure the entries of each group are counted. What is no number is a key as an object:
entries that show one such object are one group, and any other entry without a number is its own.

The rows are sorted by their first figure, the greatest first, and among equal ones the
one whose entry came first. As everywhere, that presupposes that there are no figures
without a place.
-/

namespace Cardfolio

/-- A number that is none. -/
def Datum.isNaN : Datum → Bool
  | .number n => n.isNaN
  | _ => false

/-- What a group shows of a value. -/
def Datum.grouped : Datum → Datum
  | .object _ => .null
  | value => value

/-- The value by which an entry is grouped. -/
def Entry.shownIn (field : String) (e : Entry) : Datum :=
  (e.cell field).grouped

/-- The key of the group to which an entry belongs. -/
def Entry.groupKey (field : String) (e : Entry) : GroupKey :=
  GroupKey.of (e.shownIn field)

namespace Query

theorem groupOf_eq {field : String} {e : Entry} {keyed : GroupKey × (Datum × Card)}
    (h : groupOf field e = .ok keyed) :
    e.Has field ∧ keyed = (e.groupKey field, (e.shownIn field, e.card)) := by
  obtain ⟨v, hv, h⟩ := bind_eq_ok.mp h
  refine ⟨Entry.has_of_get hv, ?_⟩
  obtain ⟨k, hk, h⟩ := bind_eq_ok.mp h
  obtain rfl := pure_eq_ok.mp h
  obtain rfl := GroupKey.ofDatum_eq hk
  rw [Entry.groupKey, Entry.shownIn, Entry.cell_eq hv]
  rfl

/-- The figures that are shown for groups: those that were asked for, or else a count. -/
def shownFigures : List Aggregation → List Aggregation
  | [] => [{ operation := .count, field := none }]
  | asked => asked

/-- The row of the group that begins with an entry. -/
structure GroupRow (field : String) (asked : List Aggregation) (entries : List Entry)
    (x : Entry × Nat) (row : List (String × Datum)) : Prop where
  value : row.lookup field = some (x.1.shownIn field)
  read : ∀ a ∈ asked, ∀ name, a.field = some name →
    ∀ e ∈ companions (Entry.groupKey field) entries x, e.Has name
  figures : ∀ a ∈ asked, ∃ n,
    Figures (companions (Entry.groupKey field) entries x) a n ∧
      row.lookup a.column = some (.number n)
  rest : ∀ name, name ≠ field → (∀ a ∈ asked, a.column ≠ name) → row.lookup name = none

theorem groupRow_spec {f : Field} {asked : List Aggregation} {entries : List Entry}
    {x : Entry × Nat} {row : List (String × Datum)}
    (hknown : ∀ a ∈ asked, a.operation.isKnown = true)
    (hx : IsFirst (Entry.groupKey f.name) entries x)
    (h : groupRow f.name asked ((companions (Entry.groupKey f.name) entries x).map fun e =>
      (e.shownIn f.name, e.card)) = .ok row) : GroupRow f.name asked entries x row := by
  rw [groupRow, List.map_map, List.head?_map, companions_head? hx] at h
  obtain ⟨hfigures, hothers⟩ := putFigures_lookup hknown h
  constructor
  · rw [hothers f.name fun a ha => Aggregation.column_ne_name (hknown a ha) f]
    exact List.lookup_cons_self
  · intro a ha name hname
    obtain ⟨n, hn, _⟩ := hfigures a ha
    exact has_of_figure hname hn
  · intro a ha
    obtain ⟨n, hn, hcolumn⟩ := hfigures a ha
    exact ⟨n, figures_of_figure (hknown a ha) hn, hcolumn⟩
  · intro name hname hcolumns
    rw [hothers name hcolumns, List.lookup_cons, beq_eq_false_iff_ne.mpr hname]
    rfl

/-- One row for each key, the greatest first figure first. -/
structure GroupOrder (field : String) (asked : List Aggregation) (entries : List Entry)
    (order : List (Entry × Nat)) (row : Entry × Nat → List (String × Datum)) : Prop where
  first : ∀ x, x ∈ order ↔ IsFirst (Entry.groupKey field) entries x
  nodup : order.Nodup
  shown : ∀ x ∈ order, GroupRow field asked entries x (row x)
  sorted : order.Pairwise fun x y => ∀ a, asked.head? = some a →
    ∀ m n, (row x).lookup a.column = some (.number m) →
      (row y).lookup a.column = some (.number n) →
      n.lt m = true ∨ m.same n = true ∧ x.2 < y.2

theorem figureIn_eq {column : String} {row : List (String × Datum)} {n : Number}
    (h : row.lookup column = some (.number n)) : figureIn column row = n := by
  rw [figureIn, h]

theorem rankRows_map {field column : String} {entries : List Entry}
    {row : Entry × Nat → List (String × Datum)}
    (hplace : ∀ x, IsFirst (Entry.groupKey field) entries x →
      (figureIn column (row x)).isNaN = false) :
    ∃ order, rankRows column ((firsts (Entry.groupKey field) entries).map row) =
        order.map row ∧
      Ranked (fun x y => (figureIn column (row y)).lt (figureIn column (row x)))
        (fun x y => x.2 < y.2) (firsts (Entry.groupKey field) entries) order := by
  have hall : ((firsts (Entry.groupKey field) entries).map row).all
      (fun row => !(figureIn column row).isNaN) = true := by
    rw [List.all_eq_true]
    intro r hr
    obtain ⟨x, hx, rfl⟩ := List.mem_map.mp hr
    rw [hplace x (mem_firsts_iff.mp hx)]
    rfl
  have hnumbers : ∀ n ∈ (firsts (Entry.groupKey field) entries).map
      (fun x => figureIn column (row x)), n.isNaN = false := by
    intro n hn
    obtain ⟨x, hx, rfl⟩ := List.mem_map.mp hn
    exact hplace x (mem_firsts_iff.mp hx)
  have horder := (orderedBy_map_iff.mp (Number.orderedBy_lt hnumbers)).converse
  refine ⟨_, ?_, Ranking.rising_ranked firsts_places_lt horder⟩
  rw [rankRows, hall, Ranking.rising_map]

theorem groupOrder_of_ranked {field : String} {asked : List Aggregation} {b : Aggregation}
    {entries : List Entry} {order : List (Entry × Nat)}
    {row : Entry × Nat → List (String × Datum)} (hb : asked.head? = some b)
    (hshown : ∀ x, IsFirst (Entry.groupKey field) entries x →
      GroupRow field asked entries x (row x))
    (hplace : ∀ x, IsFirst (Entry.groupKey field) entries x →
      (figureIn b.column (row x)).isNaN = false)
    (hranked : Ranked
      (fun x y => (figureIn b.column (row y)).lt (figureIn b.column (row x)))
      (fun x y => x.2 < y.2) (firsts (Entry.groupKey field) entries) order) :
    GroupOrder field asked entries order row := by
  have hfirst : ∀ x, x ∈ order ↔ IsFirst (Entry.groupKey field) entries x := by
    intro x
    rw [hranked.perm.mem_iff, mem_firsts_iff]
  refine ⟨hfirst, hranked.perm.nodup_iff.mpr firsts_nodup, ?_, ?_⟩
  · intro x hx
    exact hshown x ((hfirst x).mp hx)
  · refine (hranked.sorted.and hranked.stable).imp_of_mem ?_
    intro x y hx hy hxy a ha m n hm hn
    obtain rfl := Option.some.inj (hb.symm.trans ha)
    have hx := hplace x ((hfirst x).mp hx)
    have hy := hplace y ((hfirst y).mp hy)
    obtain ⟨hle, htie⟩ := hxy
    rw [figureIn_eq hm] at hx hle htie
    rw [figureIn_eq hn] at hy hle htie
    cases hnm : n.lt m with
    | true => exact Or.inl rfl
    | false => exact Or.inr ⟨Number.same_of_not_lt hx hy hle hnm, htie hnm⟩

theorem groupRows_groupOrder {f : Field} {asked : List Aggregation} {entries : List Entry}
    {rows : List (List (String × Datum))}
    (hknown : ∀ a ∈ asked, a.operation.isKnown = true)
    (hplace : ∀ row ∈ rows, ∀ a, asked.head? = some a → ∀ n,
      row.lookup a.column = some (.number n) → n.isNaN = false)
    (hasked : asked ≠ [])
    (h : groupRows f.name asked entries = .ok rows) :
    (∀ e ∈ entries, e.Has f.name) ∧
      ∃ order row, GroupOrder f.name asked entries order row ∧ rows = order.map row := by
  obtain ⟨keyed, hkeyed, h⟩ := bind_eq_ok.mp h
  have hhas : ∀ e ∈ entries, e.Has f.name := by
    intro e he
    obtain ⟨k, hk⟩ := exists_ok_of_mapM_eq_ok hkeyed he
    exact (groupOf_eq hk).1
  refine ⟨hhas, ?_⟩
  obtain rfl := eq_map_of_mapM_eq_ok hkeyed fun e _ k hk => (groupOf_eq hk).2
  obtain ⟨unranked, hunranked, h⟩ := bind_eq_ok.mp h
  obtain rfl := pure_eq_ok.mp h
  rw [gather_map, groupsOf, List.mapM_map] at hunranked
  obtain ⟨row, rfl, hrow⟩ := exists_map_of_mapM_eq_ok hunranked
  have hshown : ∀ x, IsFirst (Entry.groupKey f.name) entries x →
      GroupRow f.name asked entries x (row x) := by
    intro x hx
    exact groupRow_spec hknown hx (hrow x (mem_firsts_iff.mpr hx))
  obtain ⟨b, hb⟩ : ∃ b, asked.head? = some b := by
    cases asked with
    | nil => exact (hasked rfl).elim
    | cons b rest => exact ⟨b, rfl⟩
  have hcolumn : (asked.head?.map Aggregation.column).getD "" = b.column := by rw [hb]; rfl
  rw [hcolumn] at hplace ⊢
  have hfigure : ∀ x, IsFirst (Entry.groupKey f.name) entries x →
      (figureIn b.column (row x)).isNaN = false := by
    intro x hx
    obtain ⟨n, _, hn⟩ := (hshown x hx).figures b (List.mem_of_mem_head? hb)
    rw [figureIn_eq hn]
    refine hplace (row x) ?_ b hb n hn
    exact (Ranking.rising_perm _ _ _).mem_iff.mpr (List.mem_map_of_mem (mem_firsts_iff.mpr hx))
  obtain ⟨order, hrank, hranked⟩ := rankRows_map hfigure
  exact ⟨order, row, groupOrder_of_ranked hb hshown hfigure hranked, hrank⟩

theorem figuresAsked_of_grouping {q : Query} {f : Field} (h : q.grouping = some f.name) :
    q.groupField? = some f.name ∧ q.figuresAsked = shownFigures q.aggregations := by
  have hgroup : q.groupField? = some f.name := by
    rw [groupField?, h]
    cases f <;> rfl
  refine ⟨hgroup, ?_⟩
  rw [figuresAsked, hgroup]
  cases q.aggregations with
  | nil => rfl
  | cons a rest => rfl

theorem shownFigures_ne_nil (asked : List Aggregation) : shownFigures asked ≠ [] := by
  cases asked with
  | nil => exact List.cons_ne_nil _ _
  | cons a rest => exact List.cons_ne_nil _ _

theorem shownFigures_known {asked : List Aggregation}
    (h : ∀ a ∈ asked, a.operation.isKnown = true) :
    ∀ a ∈ shownFigures asked, a.operation.isKnown = true := by
  cases asked with
  | nil =>
      intro a ha
      rw [List.mem_singleton.mp ha]
      rfl
  | cons a rest => exact h

/-- A query that groups is answered by the rows of the groups, and the rows that pass keep their
order. -/
theorem answer_groupRows {q : Query} {f : Field} {rows : List (List (String × Datum))}
    {a : Answer} (hgrouping : q.grouping = some f.name)
    (h : q.answer (.list (rows.map .object)) = .ok a) :
    Stages q rows a (q.passing rows) ∧
      ∃ found, groupRows f.name (shownFigures q.aggregations) (q.passing rows) = .ok found ∧
        a.results = found.map .object := by
  obtain ⟨hfield, hasked⟩ := figuresAsked_of_grouping hgrouping
  obtain ⟨ordered, hstages⟩ := answer_rows h
  have hfigures : ¬ q.AsksRecords := by
    intro hrecords
    cases hfield.symm.trans hrecords.2
  obtain ⟨found, hfound, hresults, rfl⟩ := resultsOf_figures hfigures hstages.results
  rw [hfield, hasked] at hfound
  exact ⟨hstages, found, hfound, hresults⟩

/-- A query that groups by a field is answered by one row for each key that occurs among
the rows that pass, in the order of the first figure. -/
theorem answer_groupOrder {q : Query} {f : Field} {rows : List (List (String × Datum))}
    {a : Answer} (hgrouping : q.grouping = some f.name)
    (hknown : ∀ b ∈ q.aggregations, b.operation.isKnown = true)
    (hplace : ∀ b ∈ (shownFigures q.aggregations).head?,
      ∀ r ∈ a.results, ∀ v ∈ r.entry? b.column, v.isNaN = false)
    (h : q.answer (.list (rows.map .object)) = .ok a) :
    (∀ e ∈ q.passing rows, e.Has f.name) ∧
      ∃ order row,
        GroupOrder f.name (shownFigures q.aggregations) (q.passing rows) order row ∧
        a.results = order.map fun x => .object (row x) := by
  obtain ⟨_, found, hfound, hresults⟩ := answer_groupRows hgrouping h
  have hplaced : ∀ row ∈ found, ∀ b, (shownFigures q.aggregations).head? = some b →
      ∀ n, row.lookup b.column = some (.number n) → n.isNaN = false := by
    intro row hrow b hb n hn
    refine hplace b hb (.object row) ?_ (.number n) hn
    rw [hresults]
    exact List.mem_map_of_mem hrow
  obtain ⟨hhas, order, row, horder, rfl⟩ := groupRows_groupOrder
    (shownFigures_known hknown) hplaced (shownFigures_ne_nil q.aggregations) hfound
  refine ⟨hhas, order, row, horder, ?_⟩
  rw [hresults, List.map_map]
  rfl

/-- Four rows of two issuers, one of them with two spellings. -/
def fourBalances : List (List (String × Datum)) :=
  [[("issuer", .text "Citi"), ("current_balance", .whole 50)],
    [("issuer", .text "Chase"), ("current_balance", .text "$1,200")],
    [("issuer", .text "CITI "), ("current_balance", .whole 25)],
    [("issuer", .text "Chase")]]

def balancesByIssuer : Query :=
  { aggregations := [{ operation := .sum, field := some "current_balance" },
      { operation := .count, field := none }]
    grouping := some Field.issuer.name
    dataset := .null }

theorem answer_groupOrder_balancesByIssuer :
    (∀ b ∈ balancesByIssuer.aggregations, b.operation.isKnown = true) ∧
      ∃ a, balancesByIssuer.answer (.list (fourBalances.map .object)) = .ok a ∧
        (∀ b ∈ (shownFigures balancesByIssuer.aggregations).head?,
          ∀ r ∈ a.results, ∀ v ∈ r.entry? b.column, v.isNaN = false) ∧
        ∃ order row,
          GroupOrder Field.issuer.name (shownFigures balancesByIssuer.aggregations)
            (balancesByIssuer.passing fourBalances) order row ∧
          a.results = order.map fun x => .object (row x) := by
  have hok : (balancesByIssuer.answer (.list (fourBalances.map .object))).toOption.any
      (fun a => decide (∀ b ∈ (shownFigures balancesByIssuer.aggregations).head?,
        ∀ r ∈ a.results, ∀ v ∈ r.entry? b.column, v.isNaN = false)) = true := by
    decide +kernel
  obtain ⟨a, ha, hplace⟩ := exists_ok_of_any hok
  have hknown : ∀ b ∈ balancesByIssuer.aggregations, b.operation.isKnown = true := by
    decide +kernel
  have hplace := of_decide_eq_true hplace
  exact ⟨hknown, a, ha, hplace, (answer_groupOrder rfl hknown hplace ha).2⟩

/-- Two rows that hold one and the same object that is no number. -/
def sharedNaN : List (List (String × Datum)) :=
  [[("apr", .number (.real (.nan (some 0))))], [("apr", .number (.real (.nan (some 0))))]]

def countByApr : Query :=
  { grouping := some Field.apr.name
    dataset := .null }

/-- Both rows pass with a value that is equal to nothing, and they are one group. -/
theorem answer_sharedNaN :
    (countByApr.passing sharedNaN).length = 2 ∧
      (∀ e ∈ countByApr.passing sharedNaN, (e.shownIn Field.apr.name).isNaN = true) ∧
      ∃ a, countByApr.answer (.list (sharedNaN.map .object)) = .ok a ∧
        a.results.map (fun r => (r.entry? "count").bind Datum.operand?) = [some (.whole 2)] := by
  have hok : (countByApr.answer (.list (sharedNaN.map .object))).toOption.any
      (fun a => decide (a.results.map (fun r => (r.entry? "count").bind Datum.operand?)
        = [some (.whole 2)])) = true := by
    decide +kernel
  obtain ⟨a, ha, hcounts⟩ := exists_ok_of_any hok
  exact ⟨by decide +kernel, by decide +kernel, a, ha, of_decide_eq_true hcounts⟩

end Query

end Cardfolio
