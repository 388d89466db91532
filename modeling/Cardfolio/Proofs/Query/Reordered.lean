import Cardfolio.Proofs.Query.DistinctValues
import Cardfolio.Proofs.Query.SortedRows
import Cardfolio.Proofs.Query.Totals

/-!
# Rows in another order

A store may deliver its rows in any order. The answer to a query depends on that in places: the
first row of a group gives the spelling that the group shows, among equal figures the first
group comes first, sample records are the first ones, and adding up doubles rounds on the way.
What does not depend on it is said here, for two runs over the same rows.

Filtering and sorting keep permutations, so the records of both answers are the same up to
their order. Gathering keeps them up to what `gather_perm` says: the groups can be paired off
so that paired groups have keys that are alike and the same members. The rest is about one pair
of groups. A figure is compared by what it is over the numbers in a field, which are the same
numbers: how many there are, which is the least, and the sum of integers (`Figures.alike`). A
row is compared column by column, and a column shows the last figure that was put into it, so
both rows show the same one (`putFigures_alike`).
-/

namespace Cardfolio

namespace Number

variable {n n' : Number} {numbers numbers' : List Number}

theorem IsLeast.same (hleast : IsLeast n numbers) (hleast' : IsLeast n' numbers')
    (hperm : numbers.Perm numbers') (h : ∀ m ∈ numbers, m.isNaN = false) :
    n.same n' = true := by
  have h' : ∀ m ∈ numbers', m.isNaN = false := fun m hm => h m (hperm.mem_iff.mpr hm)
  have hmem := hperm.mem_iff.mp hleast.mem
  have hmem' := hperm.mem_iff.mpr hleast'.mem
  exact same_of_not_lt (h n hleast.mem) (h n' hmem') (hleast'.le h' n hmem)
    (hleast.le h n' hmem')

theorem IsGreatest.same (hgreatest : IsGreatest n numbers)
    (hgreatest' : IsGreatest n' numbers') (hperm : numbers.Perm numbers')
    (h : ∀ m ∈ numbers, m.isNaN = false) : n.same n' = true := by
  have h' : ∀ m ∈ numbers', m.isNaN = false := fun m hm => h m (hperm.mem_iff.mpr hm)
  have hmem := hperm.mem_iff.mp hgreatest.mem
  have hmem' := hperm.mem_iff.mpr hgreatest'.mem
  exact same_of_not_lt (h n hgreatest.mem) (h n' hmem') (hgreatest.ge h n' hmem')
    (hgreatest'.ge h' n hmem)

end Number

namespace Query

variable {entries members members' : List Entry} {field : Option String} {a : Aggregation}
  {n n' : Number}

/-! ## One figure -/

theorem numbersIn_perm (field : Option String) (h : members.Perm members') :
    (numbersIn field members).Perm (numbersIn field members') := by
  cases field with
  | none => exact .refl _
  | some name => exact (h.map _).filterMap _

theorem Figures.eq_zero (h : Figures members a n) (hop : a.operation ≠ .count)
    (hnil : numbersIn a.field members = []) : n = .whole 0 := by
  cases h with
  | size => exact (hop rfl).elim
  | present => exact (hop rfl).elim
  | nothing => rfl
  | sum hcons => cases hnil.symm.trans hcons
  | avg hcons => cases hnil.symm.trans hcons
  | min hcons => cases hnil.symm.trans hcons
  | max hcons => cases hnil.symm.trans hcons

theorem Figures.isLeast (h : Figures members { operation := .min, field } n)
    (hne : numbersIn field members ≠ []) : Number.IsLeast n (numbersIn field members) := by
  cases h with
  | nothing _ hnil => exact (hne hnil).elim
  | min hcons hleast =>
      rw [hcons]
      exact hleast

theorem Figures.isGreatest (h : Figures members { operation := .max, field } n)
    (hne : numbersIn field members ≠ []) : Number.IsGreatest n (numbersIn field members) := by
  cases h with
  | nothing _ hnil => exact (hne hnil).elim
  | max hcons hgreatest =>
      rw [hcons]
      exact hgreatest

theorem Figures.mean (h : Figures members { operation := .avg, field } n)
    (hne : numbersIn field members ≠ []) :
    Aggregation.mean (numbersIn field members) = .ok n := by
  cases h with
  | nothing _ hnil => exact (hne hnil).elim
  | avg hcons htotal hquotient =>
      rw [hcons, Aggregation.mean, htotal]
      show Number.div _ _ >>= _ = _
      rw [hquotient]
      rfl

/-- Figures that agree as far as the order of the entries does not matter. -/
structure FigureAlike (entries : List Entry) (a : Aggregation) (n n' : Number) : Prop where
  count : a.operation = .count → n = n'
  min : a.operation = .min → (∀ m ∈ numbersIn a.field entries, m.isNaN = false) →
    n.same n' = true
  max : a.operation = .max → (∀ m ∈ numbersIn a.field entries, m.isNaN = false) →
    n.same n' = true
  sum : a.operation = .sum → (∀ m ∈ numbersIn a.field entries, m.isWhole = true) → n = n'
  avg : a.operation = .avg → (∀ m ∈ numbersIn a.field entries, m.isWhole = true) → n = n'

theorem FigureAlike.zero (entries : List Entry) (a : Aggregation) :
    FigureAlike entries a (.whole 0) (.whole 0) :=
  ⟨fun _ => rfl, fun _ _ => Number.same_self rfl, fun _ _ => Number.same_self rfl,
    fun _ _ => rfl, fun _ _ => rfl⟩

theorem FigureAlike.of_unknown (h : a.operation.isKnown = false) :
    FigureAlike entries a n n' := by
  constructor <;> (intro hop; rw [hop] at h; cases h)

/-- Figures that add up are equal over the same entries. -/
theorem Figures.eq_of_addsUp (hadd : AddsUp entries a) (hperm : members.Perm members')
    (hmembers : ∀ e ∈ members, e ∈ entries) (h : Figures members a n)
    (h' : Figures members' a n') : n = n' := by
  have hmembers' : ∀ e ∈ members', e ∈ entries := fun e he => hmembers e (hperm.mem_iff.mpr he)
  rw [h.eq_sum_share hadd hmembers, h'.eq_sum_share hadd hmembers', (hperm.map _).sum_eq]

theorem mean_perm {numbers numbers' : List Number} (hperm : numbers.Perm numbers')
    (h : ∀ m ∈ numbers, m.isWhole = true) :
    Aggregation.mean numbers = Aggregation.mean numbers' := by
  have h' : ∀ m ∈ numbers', m.isWhole = true := fun m hm => h m (hperm.mem_iff.mpr hm)
  rw [Aggregation.mean, Aggregation.mean, Number.sum_of_isWhole h, Number.sum_of_isWhole h',
    (hperm.map _).sum_eq, hperm.length_eq]

/-- The figures over the same entries in two orders. -/
theorem Figures.alike (hperm : members.Perm members') (hmembers : ∀ e ∈ members, e ∈ entries)
    (h : Figures members a n) (h' : Figures members' a n') : FigureAlike entries a n n' := by
  obtain ⟨operation, field⟩ := a
  have hnumbers := numbersIn_perm field hperm
  have hsubset : numbersIn field members ⊆ numbersIn field entries := numbersIn_subset hmembers
  by_cases hnone : operation ≠ .count ∧ numbersIn field members = []
  · -- Without numbers both figures are zero.
    obtain ⟨hop, hnil⟩ := hnone
    have hnil' : numbersIn field members' = [] := by
      rw [← List.length_eq_zero_iff, ← hnumbers.length_eq, hnil, List.length_nil]
    rw [h.eq_zero hop hnil, h'.eq_zero hop hnil']
    exact FigureAlike.zero entries _
  · have hsome : operation ≠ .count →
        numbersIn field members ≠ [] ∧ numbersIn field members' ≠ [] := by
      intro hop
      have hne : numbersIn field members ≠ [] := fun hnil => hnone ⟨hop, hnil⟩
      refine ⟨hne, ?_⟩
      rw [← List.length_pos_iff, ← hnumbers.length_eq, List.length_pos_iff]
      exact hne
    cases operation with
    | count =>
        refine ⟨fun _ => ?_, nofun, nofun, nofun, nofun⟩
        cases field with
        | none => exact h.eq_of_addsUp .size hperm hmembers h'
        | some name => exact h.eq_of_addsUp (.present name) hperm hmembers h'
    | min =>
        obtain ⟨hne, hne'⟩ := hsome nofun
        refine ⟨nofun, fun _ hplace => ?_, nofun, nofun, nofun⟩
        exact (h.isLeast hne).same (h'.isLeast hne') hnumbers fun m hm => hplace m (hsubset hm)
    | max =>
        obtain ⟨hne, hne'⟩ := hsome nofun
        refine ⟨nofun, nofun, fun _ hplace => ?_, nofun, nofun⟩
        exact (h.isGreatest hne).same (h'.isGreatest hne') hnumbers
          fun m hm => hplace m (hsubset hm)
    | sum =>
        refine ⟨nofun, nofun, nofun, fun _ hwhole => ?_, nofun⟩
        exact h.eq_of_addsUp (.sum hwhole) hperm hmembers h'
    | avg =>
        obtain ⟨hne, hne'⟩ := hsome nofun
        refine ⟨nofun, nofun, nofun, nofun, fun _ hwhole => ?_⟩
        have hmean := mean_perm hnumbers fun m hm => hwhole m (hsubset hm)
        rw [h.mean hne, h'.mean hne'] at hmean
        exact Except.ok.inj hmean
    | other name => exact .of_unknown rfl

/-! ## One row -/

variable {asked : List Aggregation} {row row' r r' : List (String × Datum)} {cards : List Card}

/-- The last figure is put into a row that has all others. -/
theorem putFigures_concat {b : Aggregation} (h : putFigures (asked ++ [b]) cards row = .ok r) :
    ∃ between m, putFigures asked cards row = .ok between ∧ b.figure cards = .ok m ∧
      r = Datum.putEntry b.column (.number m) between := by
  rw [putFigures, List.foldlM_append] at h
  obtain ⟨between, hbetween, h⟩ := bind_eq_ok.mp h
  rw [List.foldlM_cons] at h
  obtain ⟨last, hlast, h⟩ := bind_eq_ok.mp h
  obtain ⟨m, hm, hlast⟩ := bind_eq_ok.mp hlast
  obtain rfl := pure_eq_ok.mp hlast
  exact ⟨between, m, hbetween, hm, (pure_eq_ok.mp h).symm⟩

theorem figure_of_unknown (hop : a.operation.isKnown = false) (h : a.figure cards = .ok n) :
    n = .whole 0 := by
  obtain ⟨operation, field⟩ := a
  cases operation with
  | other name =>
      obtain ⟨numbers, _, h⟩ := bind_eq_ok.mp h
      cases numbers with
      | nil => exact (pure_eq_ok.mp h).symm
      | cons first rest => exact (Except.ok.inj h).symm
  | _ => cases hop

/-- The figures that one column of two rows shows. -/
def ColumnAlike (entries : List Entry) (a : Aggregation) (r r' : Datum) : Prop :=
  ∃ n n', r.entry? a.column = some (.number n) ∧ r'.entry? a.column = some (.number n') ∧
    FigureAlike entries a n n'

/-- What is shown for an aggregation comes from the last one with its column. It is the same
aggregation, or it does not exist and the column shows zero. -/
theorem putFigures_alike (hperm : members.Perm members')
    (hmembers : ∀ e ∈ members, e ∈ entries)
    (h : putFigures asked (members.map Entry.card) row = .ok r)
    (h' : putFigures asked (members'.map Entry.card) row' = .ok r') :
    ∀ a ∈ asked, ColumnAlike entries a (.object r) (.object r') := by
  induction asked using List.reverseRecOn generalizing r r' with
  | nil => exact fun a ha => (List.not_mem_nil ha).elim
  | append_singleton asked b ih =>
      obtain ⟨between, m, hbetween, hm, rfl⟩ := putFigures_concat h
      obtain ⟨between', m', hbetween', hm', rfl⟩ := putFigures_concat h'
      intro a ha
      by_cases hcolumn : a.column = b.column
      · refine ⟨m, m', ?_, ?_, ?_⟩
        · rw [hcolumn]
          exact Datum.lookup_putEntry_self _ _ _
        · rw [hcolumn]
          exact Datum.lookup_putEntry_self _ _ _
        · cases hb : b.operation.isKnown with
          | false =>
              rw [figure_of_unknown hb hm, figure_of_unknown hb hm']
              exact .zero entries a
          | true =>
              cases hknown : a.operation.isKnown with
              | false => exact .of_unknown hknown
              | true =>
                  obtain rfl := Aggregation.column_injective hknown hb hcolumn
                  exact (figures_of_figure hb hm).alike hperm hmembers (figures_of_figure hb hm')
      · have hasked : a ∈ asked := by
          rcases List.mem_append.mp ha with ha | ha
          · exact ha
          · exact (hcolumn (congrArg _ (List.mem_singleton.mp ha))).elim
        obtain ⟨n, n', hn, hn', halike⟩ := ih hbetween hbetween' a hasked
        refine ⟨n, n', ?_, ?_, halike⟩
        · exact (Datum.lookup_putEntry_of_ne hcolumn _ _).trans hn
        · exact (Datum.lookup_putEntry_of_ne hcolumn _ _).trans hn'

/-- The column of the field shows what it did, or zero if a figure that does not exist has its
name. -/
theorem putFigures_lookup_name (f : Field) (h : putFigures asked cards row = .ok r) :
    r.lookup f.name =
      if asked.any (·.column == f.name) then some (.whole 0) else row.lookup f.name := by
  induction asked using List.reverseRecOn generalizing r with
  | nil =>
      obtain rfl := pure_eq_ok.mp h
      rfl
  | append_singleton asked b ih =>
      obtain ⟨between, m, hbetween, hm, rfl⟩ := putFigures_concat h
      rw [List.any_append, List.any_cons, List.any_nil, Bool.or_false]
      by_cases hcolumn : b.column = f.name
      · have hunknown : b.operation.isKnown = false := by
          rw [Bool.eq_false_iff]
          exact fun hknown => Aggregation.column_ne_name hknown f hcolumn
        rw [figure_of_unknown hunknown hm, hcolumn, beq_self_eq_true, Bool.or_true, if_pos rfl]
        exact Datum.lookup_putEntry_self _ _ _
      · rw [beq_eq_false_iff_ne.mpr hcolumn, Bool.or_false, ← ih hbetween]
        exact Datum.lookup_putEntry_of_ne (Ne.symm hcolumn) _ _

/-! ## Tables -/

variable {entries' : List Entry} {f : Field}

/-- Two lists of images can be paired off when what they are images of can. -/
theorem rel_of_perm_map {α β : Type} {s : β → β → Prop} {g g' : α → β} {xs xs' : List α}
    {ys ys' : List β} (hys : ys.Perm (xs.map g)) (hys' : ys'.Perm (xs'.map g'))
    (h : Multiset.Rel (fun x x' => s (g x) (g' x')) (xs : Multiset α) xs') :
    Multiset.Rel s (ys : Multiset β) ys' := by
  rw [Multiset.coe_eq_coe.mpr hys, Multiset.coe_eq_coe.mpr hys', ← Multiset.map_coe,
    ← Multiset.map_coe, Multiset.rel_map]
  exact h

/-- Rows of two groups with keys that are alike and figures that are. -/
structure RowAlike (f : Field) (asked : List Aggregation) (entries : List Entry) (r r' : Datum) :
    Prop where
  key : ∃ v v', r.entry? f.name = some v ∧ r'.entry? f.name = some v' ∧
    (GroupKey.of v).Alike (GroupKey.of v')
  figures : ∀ a ∈ asked, ColumnAlike entries a r r'

theorem rowAlike_of_groupAlike {g g' : GroupKey × List Entry} (halike : GroupAlike g g')
    (hg : g ∈ entryGroups f.name entries) (hg' : g' ∈ entryGroups f.name entries')
    (h : putFigures asked (g.2.map Entry.card) [(f.name, shownBy f.name g)] = .ok r)
    (h' : putFigures asked (g'.2.map Entry.card) [(f.name, shownBy f.name g')] = .ok r') :
    RowAlike f asked entries (.object r) (.object r') := by
  refine ⟨?_, putFigures_alike halike.members (mem_of_mem_entryGroups hg) h h'⟩
  have hname := putFigures_lookup_name f h
  have hname' := putFigures_lookup_name f h'
  rw [List.lookup_cons_self] at hname hname'
  cases hcolumn : asked.any (·.column == f.name) with
  | true =>
      rw [hcolumn, if_pos rfl] at hname hname'
      exact ⟨_, _, hname, hname', Or.inl rfl⟩
  | false =>
      rw [hcolumn, if_neg Bool.false_ne_true] at hname hname'
      refine ⟨_, _, hname, hname', ?_⟩
      rw [of_shownBy hg, of_shownBy hg']
      exact halike.key

/-- The tables of groups of the same entries in two orders. -/
theorem groupRows_alike {rows rows' : List (List (String × Datum))}
    (hperm : entries.Perm entries') (h : groupRows f.name asked entries = .ok rows)
    (h' : groupRows f.name asked entries' = .ok rows') :
    Multiset.Rel (RowAlike f asked entries) (rows.map Datum.object : List Datum)
      (rows'.map Datum.object : List Datum) := by
  obtain ⟨_, row, hrow, rfl⟩ := groupRows_eq_ok h
  obtain ⟨_, row', hrow', rfl⟩ := groupRows_eq_ok h'
  have hmatched : Matched (entryGroups f.name entries) (entryGroups f.name entries') :=
    gather_perm (hperm.map _)
  have hrows : ((rankRows (orderColumn asked) ((entryGroups f.name entries).map row)).map
      Datum.object).Perm ((entryGroups f.name entries).map fun g => .object (row g)) :=
    ((rankRows_perm _ _).map _).trans (.of_eq List.map_map)
  have hrows' : ((rankRows (orderColumn asked) ((entryGroups f.name entries').map row')).map
      Datum.object).Perm ((entryGroups f.name entries').map fun g => .object (row' g)) :=
    ((rankRows_perm _ _).map _).trans (.of_eq List.map_map)
  refine rel_of_perm_map hrows hrows' (hmatched.mono fun g hg g' hg' halike => ?_)
  exact rowAlike_of_groupAlike halike hg hg' (hrow g hg) (hrow' g' hg')

/-- Values with keys that are alike, counted to the same number. -/
structure ValueAlike (c c' : ValueCount) : Prop where
  key : (GroupKey.of c.value).Alike (GroupKey.of c'.value)
  count : c.count = c'.count

theorem of_countOf {details : Bool} {name : String} {counted : List Entry}
    {g : GroupKey × List (Datum × Datum)}
    (h : g ∈ gather (counted.map fun e => (e.keyOf name, (e.cell name, e.record)))) :
    GroupKey.of (countOf details g.2).value = g.1 := by
  obtain ⟨k, hk, hkey, hhead⟩ := head?_of_mem_gather h
  obtain ⟨e, _, rfl⟩ := List.mem_map.mp hk
  rw [countOf, hhead, hkey]
  rfl

/-- The tables of different values of the same entries in two orders. -/
theorem valueCounts_alike {d : Distinct} {counts counts' : List ValueCount}
    (hperm : entries.Perm entries') (h : valueCounts d entries = .ok counts)
    (h' : valueCounts d entries' = .ok counts') :
    Multiset.Rel ValueAlike (counts : Multiset ValueCount) counts' := by
  obtain ⟨_, rfl⟩ := valueCounts_eq_rising h
  obtain ⟨_, rfl⟩ := valueCounts_eq_rising h'
  refine rel_of_perm_map (Ranking.rising_perm _ _ _) (Ranking.rising_perm _ _ _) ?_
  refine (gather_perm ((hperm.filter _).map _)).mono fun g hg g' hg' halike => ⟨?_, ?_⟩
  · rw [of_countOf hg, of_countOf hg']
    exact halike.key
  · exact halike.members.length_eq

/-- What two answers to a query have in common if they are over the same rows in two orders. The
entries are those that pass. -/
structure Reordered (q : Query) (entries : List Entry) (a a' : Answer) : Prop where
  records : q.AsksRecords → a.results.Perm a'.results
  groups (f : Field) : q.grouping = some f.name →
    Multiset.Rel (RowAlike f (shownFigures q.aggregations) entries)
      (a.results : Multiset Datum) a'.results
  figures : q.groupField? = none → q.aggregations ≠ [] →
    ∃ r r', a.results = [r] ∧ a'.results = [r'] ∧
      ∀ b ∈ q.aggregations, ColumnAlike entries b r r'
  values (d : Distinct) : q.distinct = some d →
    ∃ counts counts', a.values = some counts ∧ a'.values = some counts' ∧
      Multiset.Rel ValueAlike (counts : Multiset ValueCount) counts' ∧ a.total = a'.total

/-- The answers to a query over the same rows in two orders. -/
theorem answer_reordered {q : Query} {rows rows' : List (List (String × Datum))}
    {a a' : Answer} (hperm : rows.Perm rows')
    (h : q.answer (.list (rows.map .object)) = .ok a)
    (h' : q.answer (.list (rows'.map .object)) = .ok a') :
    q.Reordered (q.passing rows) a a' := by
  have hpassing : (q.passing rows).Perm (q.passing rows') := (hperm.map _).filter _
  obtain ⟨ordered, hstages⟩ := answer_rows h
  obtain ⟨ordered', hstages'⟩ := answer_rows h'
  have hordered : ordered.Perm ordered' :=
    (resultsOf_arranged hstages.results).perm.trans
      (hpassing.trans (resultsOf_arranged hstages'.results).perm.symm)
  constructor
  · intro hasks
    rw [(resultsOf_records hasks hstages.results).2, (resultsOf_records hasks hstages'.results).2]
    exact hordered.map _
  · intro f hgrouping
    obtain ⟨_, found, hfound, hresults⟩ := answer_groupRows hgrouping h
    obtain ⟨_, found', hfound', hresults'⟩ := answer_groupRows hgrouping h'
    rw [hresults, hresults']
    exact groupRows_alike hpassing hfound hfound'
  · intro hgroup hasked
    obtain ⟨_, row, hrow, hresults⟩ := answer_singleRow hgroup hasked h
    obtain ⟨_, row', hrow', hresults'⟩ := answer_singleRow hgroup hasked h'
    exact ⟨_, _, hresults, hresults', putFigures_alike hpassing (fun _ he => he) hrow hrow'⟩
  · intro d hdistinct
    obtain ⟨counts, hcounts, hvalues, htotal⟩ := hstages.values d hdistinct
    obtain ⟨counts', hcounts', hvalues', htotal'⟩ := hstages'.values d hdistinct
    have halike := valueCounts_alike hordered hcounts hcounts'
    refine ⟨counts, counts', hvalues, hvalues', halike, ?_⟩
    rw [htotal, htotal']
    exact Multiset.card_eq_card_of_rel halike

def balancesAndIssuers : Query :=
  { balancesByIssuer with distinct := some { field := Field.issuer.name, details := false } }

theorem answer_reordered_balancesAndIssuers :
    fourBalances.Perm fourBalances.reverse ∧
      ∃ a a', balancesAndIssuers.answer (.list (fourBalances.map .object)) = .ok a ∧
        balancesAndIssuers.answer (.list (fourBalances.reverse.map .object)) = .ok a' ∧
        balancesAndIssuers.Reordered (balancesAndIssuers.passing fourBalances) a a' := by
  obtain ⟨a, ha⟩ :
      ∃ a, balancesAndIssuers.answer (.list (fourBalances.map .object)) = .ok a :=
    exists_ok_of_isOk (by decide +kernel)
  obtain ⟨a', ha'⟩ :
      ∃ a, balancesAndIssuers.answer (.list (fourBalances.reverse.map .object)) = .ok a :=
    exists_ok_of_isOk (by decide +kernel)
  have hperm := (List.reverse_perm fourBalances).symm
  exact ⟨hperm, a, a', ha, ha', answer_reordered hperm ha ha'⟩

end Query

end Cardfolio
