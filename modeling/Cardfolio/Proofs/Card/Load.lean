import Cardfolio.Proofs.Datum.Entries
import Cardfolio.Proofs.Datum.Written
import Cardfolio.Proofs.Number.Range
import Mathlib.Algebra.Order.BigOperators.Group.List
import Mathlib.Algebra.Order.Group.Nat

/-!
# How large the numbers of a card are

A row is read unless one of its cells of text cannot be written (`ofEntries_eq`). The card
of a row has only cells that could be read, and what a cell could not be read as is null
there. Looking up a stored field is reading a cell. The computed fields divide and
subtract, and each has its value unless a whole number is too large for a double.

The size of a card adds up the numbers in all of its cells. No field has a larger value:
the credit that is available is at most the limit and the balance together.
-/

namespace Cardfolio

namespace Datum

/-- The size of the number in a cell. -/
def size (v : Datum) : Nat :=
  (v.toNumber?.map Number.size).getD 0

/-- The numbers in some cells are together as large as the cells. -/
theorem sizes_filterMap (values : List Datum) :
    Number.sizes (values.filterMap toNumber?) = (values.map size).sum := by
  induction values with
  | nil => rfl
  | cons v rest ih =>
      rw [List.map_cons, List.sum_cons, size, ← ih]
      cases hv : v.toNumber? with
      | none =>
          rw [List.filterMap_cons_none hv]
          exact (Nat.zero_add _).symm
      | some n =>
          rw [List.filterMap_cons_some hv, Number.sizes_cons]
          rfl

end Datum

namespace Card

/-- A row in which every value for a cell of text can be written. -/
def IsLegible (row : List (String × Datum)) : Prop :=
  ∀ f ∈ Field.stored, f.form = .text → (givenFor row f).isWritable = true

instance (row : List (String × Datum)) : Decidable (IsLegible row) :=
  inferInstanceAs (Decidable (∀ f ∈ Field.stored, _))

/-- The cell that a row shows for a field, null where it cannot be read. -/
def shownCell (row : List (String × Datum)) (f : Field) : Datum :=
  (readCell row f).toOption.getD .null

theorem shownCell_eq {row : List (String × Datum)} {f : Field} {v : Datum}
    (h : readCell row f = .ok v) : shownCell row f = v := by
  rw [shownCell, h]
  rfl

theorem readCell_settles (row : List (String × Datum)) (f : Field) :
    Settles False (f.form = .text ∧ (givenFor row f).isWritable = false) (Datum.HasForm f.form)
      (readCell row f) :=
  (givenFor row f).readAs_settles f.form

theorem form_of_readCell {row : List (String × Datum)} {f : Field} {e : Fault}
    (h : readCell row f = .error e) : f.form = .text :=
  ((readCell_settles row f).of_eq_error h).2.1

theorem shownCell_hasForm (row : List (String × Datum)) (f : Field) :
    (shownCell row f).HasForm f.form := by
  cases hread : readCell row f with
  | ok v =>
      rw [shownCell_eq hread]
      exact (readCell_settles row f).of_eq_ok hread
  | error _ =>
      rw [shownCell, hread]
      exact .absent (by rw [form_of_readCell hread]; decide)

theorem IsLegible.readCell_eq {row : List (String × Datum)} (h : IsLegible row) {f : Field}
    (hf : f ∈ Field.stored) : readCell row f = .ok (shownCell row f) := by
  cases hread : readCell row f with
  | ok v => rw [shownCell_eq hread]
  | error e =>
      obtain ⟨_, htext, hlong⟩ := (readCell_settles row f).of_eq_error hread
      rw [h f hf htext] at hlong
      cases hlong

theorem isComputed_of_mem_stored : ∀ f ∈ Field.stored, f.isComputed = false := by
  decide

theorem ofCells_congr {cells cells' : Field → Datum} (h : ∀ f ∈ Field.stored, cells f = cells' f) :
    ofCells cells = ofCells cells' := by
  unfold ofCells
  congr 1 <;> exact h _ (by decide)

theorem ofEntries_of_isLegible {row : List (String × Datum)} (h : IsLegible row) :
    ofEntries row = .ok (ofCells (shownCell row)) := by
  have hcells : Field.stored.mapM (fun f => (f, ·) <$> readCell row f) =
      .ok (Field.stored.map fun f => (f, shownCell row f)) :=
    mapM_eq_ok_map fun f hf => by rw [h.readCell_eq hf]; rfl
  unfold ofEntries
  rw [hcells]
  refine congrArg Except.ok (ofCells_congr fun f hf => ?_)
  have hlookup : (Field.stored.map fun f => (f, shownCell row f)).lookup f =
      some (shownCell row f) := Datum.lookup_map_of_injective (fun _ _ h => h) hf
  rw [hlookup, Option.getD_some]

theorem ofEntries_of_not_isLegible {row : List (String × Datum)} (h : ¬IsLegible row) :
    ofEntries row = .error .longNumber := by
  -- The steps before the one that fails may fail too, but only in the same way.
  simp only [IsLegible, not_forall, exists_prop, Bool.not_eq_true] at h
  obtain ⟨f, hf, htext, hlong⟩ := h
  have hfail : (f, ·) <$> readCell row f = Except.error Fault.longNumber := by
    rw [readCell, htext, Datum.readAs, Datum.asText_of_not_isWritable hlong]
    rfl
  have hcells : Field.stored.mapM (fun f => (f, ·) <$> readCell row f) = .error .longNumber :=
    Settles.mapM_eq_error (r := fun _ _ => True)
      (fun g _ => ((readCell_settles row g).mono id (fun _ => trivial) fun _ h => h).map
        fun _ _ => trivial) hf hfail
  unfold ofEntries
  rw [hcells]
  rfl

/-- A row is read unless a value for a cell of text cannot be written. -/
theorem ofEntries_eq (row : List (String × Datum)) :
    ofEntries row =
      if IsLegible row then .ok (ofCells (shownCell row)) else .error .longNumber := by
  split
  · next h => exact ofEntries_of_isLegible h
  · next h => exact ofEntries_of_not_isLegible h

/-- The card shows a row. -/
def ShowsRow (card : Card) : Prop :=
  ∃ row, card = ofCells (shownCell row)

/-- The size of the numbers in all cells of a card. -/
def size (card : Card) : Nat :=
  (Field.stored.map fun f => (card.cell f).size).sum

/-- How large some cards are together, each with one more. -/
def load (cards : List Card) : Nat :=
  (cards.map fun card => card.size + 1).sum

theorem size_le_load {card : Card} {cards : List Card} (h : card ∈ cards) :
    card.size ≤ load cards :=
  Nat.le_of_succ_le (List.single_le_sum (fun _ _ => Nat.zero_le _) _ (List.mem_map_of_mem h))

theorem load_le {cards some : List Card} (h : some.Sublist cards) : load some ≤ load cards :=
  (h.map _).sum_le_sum fun _ _ => Nat.zero_le _

theorem cell_size_le {card : Card} {f : Field} (h : f ∈ Field.stored) :
    (card.cell f).size ≤ card.size :=
  List.single_le_sum (fun _ _ => Nat.zero_le _) _ (List.mem_map_of_mem h)

theorem limit_add_balance_le (card : Card) :
    card.creditLimit.size + card.currentBalance.size ≤ card.size := by
  unfold size Field.stored
  simp only [List.map_cons, List.sum_cons, cell]
  omega

variable {card : Card}

theorem ShowsRow.hasForm (h : card.ShowsRow) {f : Field} (hf : f ∈ Field.stored) :
    (card.cell f).HasForm f.form := by
  obtain ⟨row, rfl⟩ := h
  rw [cell_ofCells _ (isComputed_of_mem_stored f hf)]
  exact shownCell_hasForm row f

theorem ShowsRow.creditLimit (h : card.ShowsRow) :
    card.creditLimit = .null ∨ ∃ n, card.creditLimit = .number n :=
  (h.hasForm (f := .creditLimit) (by decide)).null_or_number

theorem ShowsRow.currentBalance (h : card.ShowsRow) :
    card.currentBalance = .null ∨ ∃ n, card.currentBalance = .number n :=
  (h.hasForm (f := .currentBalance) (by decide)).null_or_number

/-- What is owed is the balance or nothing. -/
theorem ShowsRow.owed (h : card.ShowsRow) :
    ∃ m, (if card.currentBalance.isTruthy then card.currentBalance else .whole 0) = .number m ∧
      m.size ≤ card.currentBalance.size := by
  split
  · next htruthy =>
      rcases h.currentBalance with hnull | ⟨m, hm⟩
      · rw [hnull] at htruthy
        cases htruthy
      · rw [hm]
        exact ⟨m, rfl, Nat.le_refl _⟩
  · exact ⟨.whole 0, rfl, Nat.zero_le _⟩

theorem utilization_settles (h : card.ShowsRow) :
    Settles (Binary64.limit ≤ card.size) False (fun v => v.size ≤ card.size ∧ v.IsCell)
      card.utilization := by
  have hsizes := card.limit_add_balance_le
  unfold utilization
  split
  · exact .value ⟨Nat.zero_le _, trivial⟩
  · next hgiven =>
      rw [Bool.or_eq_true, not_or, Bool.not_eq_true', Bool.not_eq_false] at hgiven
      obtain ⟨htruthy, hpresent⟩ := hgiven
      rcases h.currentBalance with hnull | ⟨m, hm⟩
      · rw [hnull] at hpresent
        exact (hpresent rfl).elim
      · rcases h.creditLimit with hnull | ⟨n, hn⟩
        · rw [hnull] at htruthy
          cases htruthy
        · rw [hm, hn] at hsizes ⊢
          rw [hn] at htruthy
          have hzero : n.isZero = false := by
            rw [← Bool.not_eq_true']
            exact htruthy
          have hsizes' : n.size + m.size ≤ card.size := hsizes
          refine ((Number.div_settles m hzero).mono (by omega) id fun _ h => h).bind fun x _ _ => ?_
          exact .value ⟨Nat.zero_le _, trivial⟩

theorem availableCredit_settles (h : card.ShowsRow) :
    Settles (Binary64.limit ≤ card.size) False (fun v => v.size ≤ card.size ∧ v.IsCell)
      card.availableCredit := by
  have hsizes := card.limit_add_balance_le
  unfold availableCredit
  rcases h.creditLimit with hnull | ⟨n, hn⟩
  · rw [hnull]
    exact .value ⟨Nat.zero_le _, trivial⟩
  · obtain ⟨m, hm, hsize⟩ := h.owed
    rw [hn, hm]
    rw [hn] at hsizes
    have hsizes' : n.size + card.currentBalance.size ≤ card.size := hsizes
    refine ((Number.sub_settles n m).mono (by omega) id fun _ h => h).bind fun rest _ hrest => ?_
    refine .value ⟨?_, trivial⟩
    show (if rest.lt (.whole 0) then Number.whole 0 else rest).size ≤ card.size
    split
    · exact Nat.zero_le _
    · omega

theorem utilization_hasForm {v : Datum} (h : card.utilization = .ok v) : v.HasForm .number := by
  unfold utilization at h
  split at h
  · exact Except.ok.inj h ▸ .absent (by decide)
  · obtain ⟨_, _, h⟩ := bind_eq_ok.mp h
    obtain ⟨share, _, h⟩ := bind_eq_ok.mp h
    exact pure_eq_ok.mp h ▸ .number _

theorem availableCredit_hasForm {v : Datum} (h : card.availableCredit = .ok v) :
    v.HasForm .number := by
  unfold availableCredit at h
  split at h
  · exact Except.ok.inj h ▸ .absent (by decide)
  · obtain ⟨_, _, h⟩ := bind_eq_ok.mp h
    obtain ⟨rest, _, h⟩ := bind_eq_ok.mp h
    exact pure_eq_ok.mp h ▸ .number _

theorem value_of_stored (card : Card) {f : Field} (h : f ∈ Field.stored) :
    card.value f = .ok (card.cell f) := by
  cases f <;> first | rfl | exact absurd h (by decide)

/-- A field of a row has a form, and only a stored one that of text. -/
theorem ShowsRow.value_hasForm (h : card.ShowsRow) {f : Field} {v : Datum}
    (hv : card.value f = .ok v) :
    v.HasForm (if f ∈ Field.stored then f.form else .number) := by
  split
  · next hstored =>
      rw [value_of_stored card hstored] at hv
      exact Except.ok.inj hv ▸ h.hasForm hstored
  · next hcomputed =>
      cases f with
      | utilization => exact utilization_hasForm hv
      | availableCredit => exact availableCredit_hasForm hv
      | _ => exact absurd (by decide) hcomputed

theorem get_settles (h : card.ShowsRow) (name : String) :
    Settles (Binary64.limit ≤ card.size) False (fun v => v.size ≤ card.size ∧ v.IsCell)
      (card.get name) := by
  unfold get
  split
  · next f _ =>
      by_cases hstored : f ∈ Field.stored
      · rw [value_of_stored card hstored]
        exact .value ⟨cell_size_le hstored, (h.hasForm hstored).isCell⟩
      · cases f with
        | utilization => exact utilization_settles h
        | availableCredit => exact availableCredit_settles h
        | _ => exact absurd (by decide) hstored
  · exact .value ⟨Nat.zero_le _, trivial⟩

end Card

end Cardfolio
