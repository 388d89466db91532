import Cardfolio.Proofs.Query.EntryGroups

/-!
# Totals of groups

Some figures add up: how many entries there are, how many have a value in a field, and the sum
of a field of integers. Each entry has a share in such a figure (`share`), and the figure over
some entries is the sum of their shares, whatever else they have in common
(`Figures.eq_sum_share`).

That is all that conserving totals asks for. The groups of a query have each of its entries in
one of them, so the shares of all groups are the shares of all entries, and that is what the
same figure is over all entries at once. The rows of the groups are a permutation of the rows
in the order of the groups, which a sum does not see.
-/

namespace Cardfolio

namespace Number

/-- An integer, and no double that is equal to one. -/
def isWhole : Number → Bool
  | whole _ => true
  | real _ => false

/-- The integer that a number is, zero for a double. -/
def integer : Number → Int
  | whole n => n
  | real _ => 0

theorem sum_of_isWhole {numbers : List Number} (h : ∀ n ∈ numbers, n.isWhole = true) :
    sum numbers = .ok (whole (numbers.map integer).sum) := by
  suffices ∀ m, numbers.foldlM add (whole m) = .ok (whole (m + (numbers.map integer).sum)) by
    rw [sum, this, Int.zero_add]
  induction numbers with
  | nil =>
      intro m
      rw [List.map_nil, List.sum_nil, Int.add_zero]
      rfl
  | cons n rest ih =>
      obtain ⟨hn, hrest⟩ := List.forall_mem_cons.mp h
      intro m
      rw [List.foldlM_cons, List.map_cons, List.sum_cons, ← Int.add_assoc]
      cases n with
      | whole n => exact ih hrest (m + n)
      | real x => cases hn

end Number

namespace Query

variable {entries members : List Entry} {field : Option String} {name : String}

theorem mem_numbersIn {n : Number} :
    n ∈ numbersIn field members ↔
      ∃ name, field = some name ∧ ∃ e ∈ members, (e.cell name).toNumber? = some n := by
  cases field with
  | none => exact ⟨nofun, nofun⟩
  | some name =>
      simp only [numbersIn, List.mem_filterMap, List.mem_map, Option.some.injEq,
        exists_eq_left', exists_exists_and_eq_and]

/-- What holds of all numbers in a field holds of those that some of the entries have. -/
theorem numbersIn_subset (h : ∀ e ∈ members, e ∈ entries) :
    numbersIn field members ⊆ numbersIn field entries := by
  intro n hn
  obtain ⟨name, hname, e, he, hnumber⟩ := mem_numbersIn.mp hn
  exact mem_numbersIn.mpr ⟨name, hname, e, h e he, hnumber⟩

/-- Figures that add up over entries. -/
inductive AddsUp (entries : List Entry) : Aggregation → Prop
  | size : AddsUp entries { operation := .count, field := none }
  | present (name : String) : AddsUp entries { operation := .count, field := some name }
  | sum {field : Option String} (h : ∀ n ∈ numbersIn field entries, n.isWhole = true) :
      AddsUp entries { operation := .sum, field }

/-- What an entry adds to a figure that adds up. -/
def share : Aggregation → Entry → Int
  | { operation := .count, field := none }, _ => 1
  | { operation := .count, field := some name }, e => if (e.cell name).isNull then 0 else 1
  | { operation := _, field := some name }, e => ((e.cell name).toNumber?.map Number.integer).getD 0
  | { operation := _, field := none }, _ => 0

theorem sum_share_size (members : List Entry) :
    (members.map (share { operation := .count, field := none })).sum = members.length := by
  induction members with
  | nil => rfl
  | cons e members ih =>
      rw [List.map_cons, List.sum_cons, ih, List.length_cons, share]
      omega

theorem sum_share_present (name : String) (members : List Entry) :
    (members.map (share { operation := .count, field := some name })).sum =
      members.countP fun e => !(e.cell name).isNull := by
  induction members with
  | nil => rfl
  | cons e members ih =>
      rw [List.map_cons, List.sum_cons, ih, List.countP_cons, share]
      cases (e.cell name).isNull with
      | false =>
          simp only [Bool.false_eq_true, if_false, Bool.not_false, if_true]
          omega
      | true =>
          simp only [if_true, Bool.not_true, Bool.false_eq_true, if_false]
          omega

/-- The integers in a field add up to the shares. -/
theorem sum_share_sum (field : Option String) (members : List Entry) :
    (members.map (share { operation := .sum, field })).sum =
      ((numbersIn field members).map Number.integer).sum := by
  induction members with
  | nil => cases field <;> rfl
  | cons e members ih =>
      rw [List.map_cons, List.sum_cons, ih]
      cases field with
      | none => exact Int.zero_add _
      | some name =>
          show ((e.cell name).toNumber?.map Number.integer).getD 0 + _ = _
          rw [numbersIn, numbersIn, List.map_cons, List.filterMap_cons]
          cases (e.cell name).toNumber? with
          | none => exact Int.zero_add _
          | some n => rfl

variable {a : Aggregation}

theorem AddsUp.isKnown (h : AddsUp entries a) : a.operation.isKnown = true := by
  cases h <;> rfl

/-- A figure that adds up is the sum of the shares. -/
theorem Figures.eq_sum_share {n : Number} (hadd : AddsUp entries a)
    (hmembers : ∀ e ∈ members, e ∈ entries) (h : Figures members a n) :
    n = .whole (members.map (share a)).sum := by
  cases hadd with
  | size =>
      rw [sum_share_size]
      cases h with
      | size => rfl
      | nothing hop => exact (hop rfl).elim
  | present name =>
      rw [sum_share_present]
      cases h with
      | present => rfl
      | nothing hop => exact (hop rfl).elim
  | @sum field hwhole =>
      rw [sum_share_sum]
      cases h with
      | nothing _ hnil =>
          rw [hnil]
          rfl
      | sum hcons htotal =>
          have hsum := Number.sum_of_isWhole fun m hm => hwhole m (numbersIn_subset hmembers hm)
          rw [← hcons, hsum] at htotal
          exact (Except.ok.inj htotal).symm

/-- The rows have integers in a column, and they add up to a total. -/
def ColumnTotal (results : List Datum) (column : String) (total : Int) : Prop :=
  ∃ ns : List Int, (results.map fun r => r.entry? column) = ns.map (fun n => some (.whole n)) ∧
    ns.sum = total

variable {asked : List Aggregation}

/-- The row of some entries shows the sum of their shares. -/
theorem putFigures_share {row row' : List (String × Datum)}
    (hknown : ∀ b ∈ asked, b.operation.isKnown = true) (ha : a ∈ asked)
    (hadd : AddsUp entries a) (hmembers : ∀ e ∈ members, e ∈ entries)
    (h : putFigures asked (members.map Entry.card) row = .ok row') :
    row'.lookup a.column = some (.whole (members.map (share a)).sum) := by
  obtain ⟨n, hn, hcolumn⟩ := (putFigures_lookup hknown h).1 a ha
  rw [hcolumn, (figures_of_figure hadd.isKnown hn).eq_sum_share hadd hmembers]
  rfl

theorem groupRows_total {field : String} {rows : List (List (String × Datum))}
    (hknown : ∀ b ∈ asked, b.operation.isKnown = true) (ha : a ∈ asked)
    (hadd : AddsUp entries a) (h : groupRows field asked entries = .ok rows) :
    ColumnTotal (rows.map .object) a.column (entries.map (share a)).sum := by
  obtain ⟨_, row, hrow, rfl⟩ := groupRows_eq_ok h
  obtain ⟨order, hperm, hrows⟩ := exists_rankRows_map (orderColumn asked) row
    (entryGroups field entries)
  refine ⟨order.map fun g => (g.2.map (share a)).sum, ?_, ?_⟩
  · rw [hrows, List.map_map, List.map_map, List.map_map]
    refine List.map_congr_left fun g hg => ?_
    have hgroup := hperm.mem_iff.mp hg
    exact putFigures_share hknown ha hadd (mem_of_mem_entryGroups hgroup) (hrow g hgroup)
  · calc (order.map fun g => (g.2.map (share a)).sum).sum
        = ((entryGroups field entries).map fun g => (g.2.map (share a)).sum).sum :=
          (hperm.map _).sum_eq
      _ = (entries.map (share a)).sum := by
          rw [entryGroups, sum_gather, List.map_map]
          rfl

/-- What the rows of groups conserve of the rows that pass. There are no more groups than rows.
The counts add up to the number of the rows, the counts of a field to the number of those that
have a value there, and the sums of a field of integers to the sum that the same filters give
without groups. -/
structure Conserves (q : Query) (rows : List (List (String × Datum))) (results : List Datum) :
    Prop where
  groups : results.length ≤ (q.passing rows).length
  size : { operation := .count, field := none } ∈ shownFigures q.aggregations →
    ColumnTotal results "count" (q.passing rows).length
  present (name : String) : { operation := .count, field := some name } ∈ q.aggregations →
    ColumnTotal results ("count_" ++ name)
      ((q.passing rows).countP fun e => !(e.cell name).isNull)
  sum (name : String) : { operation := .sum, field := some name } ∈ q.aggregations →
    (∀ n ∈ numbersIn (some name) (q.passing rows), n.isWhole = true) →
    ∀ (u : Query) (b : Answer), u.filters = q.filters → u.groupField? = none →
      (∀ c ∈ u.aggregations, c.operation.isKnown = true) →
      { operation := .sum, field := some name } ∈ u.aggregations →
      u.answer (.list (rows.map .object)) = .ok b →
      ∃ total, ColumnTotal results ("sum_" ++ name) total ∧
        b.results.map (fun r => r.entry? ("sum_" ++ name)) = [some (.whole total)]

theorem answer_conserves {q : Query} {f : Field} {rows : List (List (String × Datum))}
    {b : Answer} (hgrouping : q.grouping = some f.name)
    (hknown : ∀ c ∈ q.aggregations, c.operation.isKnown = true)
    (h : q.answer (.list (rows.map .object)) = .ok b) : q.Conserves rows b.results := by
  obtain ⟨_, found, hfound, hresults⟩ := answer_groupRows hgrouping h
  have htotal : ∀ c ∈ shownFigures q.aggregations, AddsUp (q.passing rows) c →
      ColumnTotal b.results c.column ((q.passing rows).map (share c)).sum := by
    intro c hc hadd
    rw [hresults]
    exact groupRows_total (shownFigures_known hknown) hc hadd hfound
  constructor
  · obtain ⟨_, row, _, rfl⟩ := groupRows_eq_ok hfound
    rw [hresults, List.length_map, (rankRows_perm _ _).length_eq, List.length_map]
    exact (length_gather_le _).trans_eq (List.length_map _)
  · intro hcount
    rw [← sum_share_size]
    exact htotal _ hcount .size
  · intro name hcount
    rw [← sum_share_present]
    exact htotal _ (mem_shownFigures hcount) (.present name)
  · intro name hsum hwhole u b' hfilters hungrouped hknown' hsum' h'
    refine ⟨_, htotal _ (mem_shownFigures hsum) (.sum hwhole), ?_⟩
    obtain ⟨_, row, hrow, hresults'⟩ :=
      answer_singleRow hungrouped (List.ne_nil_of_mem hsum') h'
    have hpassing : u.passing rows = q.passing rows := by rw [passing, passing, hfilters]
    rw [hpassing] at hrow
    rw [hresults']
    exact congrArg (· :: [])
      (putFigures_share hknown' hsum' (.sum hwhole) (fun _ he => he) hrow)

def allBalances : Query :=
  { aggregations := [{ operation := .sum, field := some "current_balance" }]
    dataset := .null }

theorem answer_conserves_balancesByIssuer :
    ∃ b b', balancesByIssuer.answer (.list (fourBalances.map .object)) = .ok b ∧
      allBalances.answer (.list (fourBalances.map .object)) = .ok b' ∧
      balancesByIssuer.Conserves fourBalances b.results ∧
      ∃ total, ColumnTotal b.results "sum_current_balance" total ∧
        b'.results.map (fun r => r.entry? "sum_current_balance") = [some (.whole total)] := by
  obtain ⟨b, hb⟩ : ∃ b, balancesByIssuer.answer (.list (fourBalances.map .object)) = .ok b :=
    exists_ok_of_isOk (by decide +kernel)
  obtain ⟨b', hb'⟩ : ∃ b, allBalances.answer (.list (fourBalances.map .object)) = .ok b :=
    exists_ok_of_isOk (by decide +kernel)
  have hknown : ∀ c ∈ balancesByIssuer.aggregations, c.operation.isKnown = true := by
    decide +kernel
  have hconserves := answer_conserves rfl hknown hb
  have hwhole : ∀ n ∈ numbersIn (some "current_balance") (balancesByIssuer.passing fourBalances),
      n.isWhole = true := by decide +kernel
  obtain ⟨total, htotal, hsum⟩ := hconserves.sum "current_balance" List.mem_cons_self hwhole
    allBalances b' rfl rfl (by decide +kernel) List.mem_cons_self hb'
  exact ⟨b, b', hb, hb', hconserves, total, htotal, hsum⟩

end Query

end Cardfolio
