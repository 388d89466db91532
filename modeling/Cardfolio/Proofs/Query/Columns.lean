import Cardfolio.Proofs.Query.EntryGroups

/-!
# Columns of a table of figures

A row of figures grows entry by entry. The value of the grouping field comes first, if there is
one, and then each aggregation puts its figure under the name of its column. Nothing keeps an
aggregation from putting its figure where another entry is, and what is there is then replaced.

That this loses nothing rests on the names alone. Aggregations with one column are one
aggregation, and no column is named like a field (`ColumnsApart`). So the only figure that is
ever replaced is that of an aggregation which is asked for twice, and what takes its place is
the same figure over the same entries.

`FigureRow` is what a row holds in the end, and it says where every entry comes from. It holds
of each row of a table, with or without a grouping, whatever the figures are. The order of the
rows does not matter for this, so figures that are no numbers need no exception here.
-/

namespace Cardfolio.Query

/-- Each aggregation has a column of its own, and none has the name of the grouping field. -/
structure ColumnsApart (grouping : Option Field) (asked : List Aggregation) : Prop where
  different : ∀ a ∈ asked, ∀ b ∈ asked, a ≠ b → a.column ≠ b.column
  field : ∀ a ∈ asked, ∀ f ∈ grouping, a.column ≠ f.name

variable {grouping : Option Field} {asked : List Aggregation} {entries : List Entry}

theorem columnsApart (hknown : ∀ a ∈ asked, a.operation.isKnown = true) :
    ColumnsApart grouping asked := by
  constructor
  · intro a ha b hb hne heq
    exact hne (Aggregation.column_injective (hknown a ha) (hknown b hb) heq)
  · intro a ha f _
    exact Aggregation.column_ne_name (hknown a ha) f

/-- Figures that are put into a row add their columns to its names, each once. -/
theorem putFigures_names {cards : List Card} {row row' : List (String × Datum)}
    (hrow : (row.map Prod.fst).Nodup) (h : putFigures asked cards row = .ok row') :
    (row'.map Prod.fst).Nodup ∧
      ∀ name, name ∈ row'.map Prod.fst ↔
        name ∈ row.map Prod.fst ∨ ∃ a ∈ asked, a.column = name := by
  induction asked generalizing row with
  | nil =>
      obtain rfl := pure_eq_ok.mp h
      refine ⟨hrow, fun name => (or_iff_left ?_).symm⟩
      rintro ⟨a, ha, _⟩
      cases ha
  | cons b rest ih =>
      rw [putFigures, List.foldlM_cons] at h
      obtain ⟨between, hbetween, h⟩ := bind_eq_ok.mp h
      obtain ⟨n, _, hbetween⟩ := bind_eq_ok.mp hbetween
      obtain rfl := pure_eq_ok.mp hbetween
      obtain ⟨hnodup, hnames⟩ := ih (Datum.nodup_putEntry hrow _) h
      refine ⟨hnodup, fun name => ?_⟩
      rw [hnames, Datum.mem_names_putEntry, or_assoc, List.exists_mem_cons_iff]

/-- What the row of some entries holds: the value of the first of them in the grouping field, the
figure of each aggregation over all of them in its column, and nothing else. -/
structure FigureRow (grouping : Option Field) (asked : List Aggregation) (members : List Entry)
    (row : List (String × Datum)) : Prop where
  figures : ∀ a ∈ asked, ∃ n, a.figure (members.map Entry.card) = .ok n ∧
    Figures members a n ∧ row.lookup a.column = some (.number n)
  shown : ∀ f ∈ grouping, ∃ e, members.head? = some e ∧
    row.lookup f.name = some (e.shownIn f.name)
  names : ∀ name, name ∈ row.map Prod.fst ↔
    (∃ f ∈ grouping, f.name = name) ∨ ∃ a ∈ asked, a.column = name
  nodup : (row.map Prod.fst).Nodup

theorem figureRow_of_putFigures {members : List Entry} {start row : List (String × Datum)}
    (hknown : ∀ a ∈ asked, a.operation.isKnown = true)
    (hstart : start.map Prod.fst = (grouping.map Field.name).toList)
    (hshown : ∀ f ∈ grouping, ∃ e, members.head? = some e ∧
      start.lookup f.name = some (e.shownIn f.name))
    (h : putFigures asked (members.map Entry.card) start = .ok row) :
    FigureRow grouping asked members row := by
  have hapart : ColumnsApart grouping asked := columnsApart hknown
  obtain ⟨hfigures, hothers⟩ := putFigures_lookup hknown h
  have honce : (start.map Prod.fst).Nodup := by
    rw [hstart]
    exact Option.toList_nodup _
  obtain ⟨hnodup, hnames⟩ := putFigures_names honce h
  constructor
  · intro a ha
    obtain ⟨n, hn, hcolumn⟩ := hfigures a ha
    exact ⟨n, hn, figures_of_figure (hknown a ha) hn, hcolumn⟩
  · intro f hf
    obtain ⟨e, hhead, hvalue⟩ := hshown f hf
    rw [hothers f.name fun a ha => hapart.field a ha f hf]
    exact ⟨e, hhead, hvalue⟩
  · intro name
    rw [hnames, hstart, Option.mem_toList]
    exact or_congr_left Option.map_eq_some_iff
  · exact hnodup

/-- The entries of each row: all of them without a grouping, and by a field those of each key,
in the order in which the keys first occur. -/
def rowMembers (grouping : Option Field) (entries : List Entry) : List (List Entry) :=
  match grouping with
  | none => [entries]
  | some f =>
    (firsts (Entry.groupKey f.name) entries).map (companions (Entry.groupKey f.name) entries)

theorem entryGroups_map_snd (f : Field) (entries : List Entry) :
    (entryGroups f.name entries).map (·.2) = rowMembers (some f) entries := by
  have hgroups : entryGroups f.name entries = groupsOf (Entry.groupKey f.name) id entries :=
    gather_map id entries
  rw [hgroups, groupsOf, List.map_map]
  exact List.map_congr_left fun x _ => List.map_id _

theorem groupRows_figureRow {f : Field} {rows : List (List (String × Datum))}
    (hknown : ∀ a ∈ asked, a.operation.isKnown = true)
    (h : groupRows f.name asked entries = .ok rows) :
    ∃ groups, groups.Perm (rowMembers (some f) entries) ∧
      List.Forall₂ (FigureRow (some f) asked) groups rows := by
  obtain ⟨_, row, hrow, rfl⟩ := groupRows_eq_ok h
  obtain ⟨order, hperm, hrows⟩ := exists_rankRows_map (orderColumn asked) row
    (entryGroups f.name entries)
  refine ⟨order.map (·.2), ?_, ?_⟩
  · rw [← entryGroups_map_snd]
    exact hperm.map _
  · rw [hrows, List.forall₂_map_left_iff, List.forall₂_map_right_iff, List.forall₂_same]
    intro g hg
    have hgroup := hperm.mem_iff.mp hg
    obtain ⟨e, _, hhead, _⟩ := exists_head_of_mem_entryGroups hgroup
    refine figureRow_of_putFigures hknown rfl ?_ (hrow g hgroup)
    intro f' hf'
    obtain rfl := Option.mem_some_iff.mp hf'
    rw [List.lookup_cons_self, shownBy, hhead]
    exact ⟨e, rfl, rfl⟩

/-- No column of a table replaces another one. The columns are apart whatever the entries are,
and the rows go with the entries of one key each, or the only row with all entries. -/
theorem figureRows_keep_columns (hknown : ∀ a ∈ asked, a.operation.isKnown = true) :
    ColumnsApart grouping asked ∧
      ∀ entries rows, figureRows (grouping.map Field.name) asked entries = .ok rows →
        ∃ groups, groups.Perm (rowMembers grouping entries) ∧
          List.Forall₂ (FigureRow grouping asked) groups rows := by
  refine ⟨columnsApart hknown, fun entries rows h => ?_⟩
  cases grouping with
  | none =>
      obtain ⟨row, hrow, h⟩ := bind_eq_ok.mp h
      obtain rfl := pure_eq_ok.mp h
      have hfigures : FigureRow none asked entries row :=
        figureRow_of_putFigures hknown rfl nofun hrow
      exact ⟨[entries], .refl _, .cons hfigures .nil⟩
  | some f => exact groupRows_figureRow hknown h

/-- Two counts and two sums, one of them asked for twice. -/
def countsAndBalances : List Aggregation :=
  [{ operation := .sum, field := some "current_balance" },
    { operation := .count, field := none },
    { operation := .count, field := some "current_balance" },
    { operation := .sum, field := some "current_balance" },
    { operation := .sum, field := none }]

theorem figureRows_keep_columns_fourBalances :
    (∀ a ∈ countsAndBalances, a.operation.isKnown = true) ∧
      ColumnsApart (some .issuer) countsAndBalances ∧
      ∃ rows, figureRows (some Field.issuer.name) countsAndBalances
            (fourBalances.map Entry.ofRow) = .ok rows ∧
        rows.length = 2 ∧
        ∃ groups, groups.Perm (rowMembers (some .issuer) (fourBalances.map Entry.ofRow)) ∧
          List.Forall₂ (FigureRow (some .issuer) countsAndBalances) groups rows := by
  have hknown : ∀ a ∈ countsAndBalances, a.operation.isKnown = true := by decide +kernel
  have hok : (figureRows (some Field.issuer.name) countsAndBalances
      (fourBalances.map Entry.ofRow)).toOption.any (fun rows => rows.length == 2) = true := by
    decide +kernel
  obtain ⟨rows, hrows, hlength⟩ := exists_ok_of_any hok
  obtain ⟨hapart, htable⟩ := figureRows_keep_columns hknown
  exact ⟨hknown, hapart, rows, hrows, beq_iff_eq.mp hlength,
    htable (fourBalances.map Entry.ofRow) rows hrows⟩

end Cardfolio.Query
