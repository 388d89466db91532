import Cardfolio.Proofs.Card.Load
import Cardfolio.Proofs.Datum.Entries
import Cardfolio.Proofs.Number.Numerals
import Cardfolio.Proofs.Text.Ends

/-!
# Cells that have been read

A cell in the form that its field asks for stays as it is when it is read again. For
numbers and flags that is so by their type. A text has lost the blanks at its ends, or was a
date, and dates have none. The categories of a reward table are in small letters without
blanks at their ends, no two of them alike, so putting them into an empty table one by one
makes the same table.

The row of a card lists its cells, each under the name of its field. Reading it therefore
gives the card back: a card that was read from a row is the card of its own row.
-/

namespace Cardfolio

open Text

namespace Text

/-- A text without any blank. -/
def NoBlank (s : String) : Prop :=
  ∀ c ∈ s.toList, isBlank c = false

theorem noBlank_of_all {s : String} (h : (s.toList.all fun c => !isBlank c) = true) : NoBlank s :=
  fun c hc => by simpa using List.all_eq_true.mp h c hc

theorem NoBlank.append {s t : String} (hs : NoBlank s) (ht : NoBlank t) : NoBlank (s ++ t) := by
  intro c hc
  rw [String.toList_append, List.mem_append] at hc
  exact hc.elim (hs c) (ht c)

theorem NoBlank.strip_eq_self {s : String} (h : NoBlank s) : strip s.toList = s.toList :=
  (isTrimmed_of_forall h).trim_eq_self

theorem isDigit_of_mem_padded {width n : Nat} :
    ∀ c ∈ (padded width n).toList, c.isDigit = true := by
  intro c hc
  rw [padded, String.toList_ofList, List.mem_append, List.mem_replicate] at hc
  rcases hc with ⟨_, rfl⟩ | hc
  · decide
  · exact Nat.isDigit_of_mem_toDigits (by decide) (by decide) hc

theorem noBlank_padded (width n : Nat) : NoBlank (padded width n) := fun c hc =>
  isBlank_of_isDecimalDigit (Numeral.isDecimalDigit_of_isDigit (isDigit_of_mem_padded c hc))

end Text

theorem Date.noBlank_iso (d : Date) : NoBlank d.iso := by
  have hdash : NoBlank "-" := noBlank_of_all (by decide)
  exact ((((noBlank_padded 4 d.year).append hdash).append (noBlank_padded 2 d.month)).append
    hdash).append (noBlank_padded 2 d.day)

namespace Moment

theorem noBlank_clockText (withSeconds : Bool) (micros : Nat) :
    NoBlank (clockText withSeconds micros) := by
  have hempty : NoBlank "" := noBlank_of_all (by decide)
  have hcolon : NoBlank ":" := noBlank_of_all (by decide)
  have hpoint : NoBlank "." := noBlank_of_all (by decide)
  unfold clockText
  refine ((((noBlank_padded _ _).append hcolon).append (noBlank_padded _ _)).append ?_).append ?_
  · split
    · exact hcolon.append (noBlank_padded _ _)
    · exact hempty
  · split
    · exact hpoint.append (noBlank_padded _ _)
    · exact hempty

theorem noBlank_iso (t : Moment) : NoBlank t.iso := by
  have hempty : NoBlank "" := noBlank_of_all (by decide)
  have hbetween : NoBlank "T" := noBlank_of_all (by decide)
  have hsign : ∀ offset : Int, NoBlank (if offset < 0 then "-" else "+") := by
    intro offset
    split <;> exact noBlank_of_all (by decide)
  refine ((t.date.noBlank_iso.append hbetween)).append ((noBlank_clockText _ _).append ?_)
  cases t.offset with
  | none => exact hempty
  | some offset => exact (hsign offset).append (noBlank_clockText _ _)

end Moment

namespace Datum

theorem stripped_eq_self {s : String} (h : strip s.toList = s.toList) (hne : s ≠ "") :
    stripped s = .text s := by
  unfold stripped
  split
  · next hempty => exact absurd (h.symm.trans hempty) (by simpa using hne)
  · rw [h, String.ofList_toList]

theorem asText_text (s : String) : asText (.text s) = .ok (stripped s) := by
  rw [asText, write_text]
  · rfl
  all_goals nofun

/-- A text that has been read is null, or has no blanks at its ends and something between them. -/
inductive IsRead : Datum → Prop
  | null : IsRead .null
  | text {s : String} (h : strip s.toList = s.toList) (hne : s ≠ "") : IsRead (.text s)

theorem stripped_isRead (s : String) : IsRead (stripped s) := by
  unfold stripped
  split
  · exact .null
  · next hne =>
      refine .text ?_ (by simpa using hne)
      rw [String.toList_ofList, strip_strip]

theorem asText_isRead {v w : Datum} (h : asText v = .ok w) : IsRead w := by
  unfold asText at h
  split at h
  · exact Except.ok.inj h ▸ .null
  · next d => exact Except.ok.inj h ▸ .text d.noBlank_iso.strip_eq_self (by simp [Date.iso])
  · next t => exact Except.ok.inj h ▸ .text t.noBlank_iso.strip_eq_self (by simp [Moment.iso])
  · obtain ⟨s, _, rfl⟩ := map_eq_ok.mp h
    exact stripped_isRead s

theorem IsRead.asText_eq {v : Datum} (h : IsRead v) : asText v = .ok v := by
  cases h with
  | null => rfl
  | text h hne => rw [asText_text, stripped_eq_self h hne]

theorem asNumber_asNumber (v : Datum) : asNumber (asNumber v) = asNumber v := by
  unfold asNumber
  cases v.toNumber? <;> rfl

theorem asFlag_asFlag (v : Datum) : asFlag (asFlag v) = asFlag v := by
  cases v with
  | text s =>
      show asFlag ((flagWord? _).elim .null .bool) = (flagWord? _).elim .null .bool
      cases flagWord? (String.ofList (lower (strip s.toList))) <;> rfl
  | _ => rfl

/-- A reward table as it is read: its categories are different and in the form in which they are
read, and its multipliers are numbers. -/
structure IsRewards (entries : List (String × Datum)) : Prop where
  different : (entries.map Prod.fst).Nodup
  category : ∀ e ∈ entries, String.ofList (lower (strip e.1.toList)) = e.1
  multiplier : ∀ e ∈ entries, ∃ n, e.2 = .number n

theorem addReward_isRewards {rewards : List (String × Datum)} (h : IsRewards rewards)
    (entry : String × Datum) : IsRewards (addReward rewards entry) := by
  unfold addReward
  split
  · next n _ =>
      refine ⟨nodup_putEntry h.different _, fun e he => ?_, fun e he => ?_⟩
      · rcases mem_putEntry he with rfl | he
        · rw [String.toList_ofList, lower_strip_lower_strip]
        · exact h.category e he
      · rcases mem_putEntry he with rfl | he
        · exact ⟨n, rfl⟩
        · exact h.multiplier e he
  · exact h

theorem foldl_addReward_isRewards {rewards : List (String × Datum)} (h : IsRewards rewards)
    (entries : List (String × Datum)) : IsRewards (entries.foldl addReward rewards) := by
  induction entries generalizing rewards with
  | nil => exact h
  | cons e entries ih => exact ih (addReward_isRewards h e)

/-- Adding the entries of a reward table one by one makes the table. -/
theorem foldl_addReward_eq {before entries : List (String × Datum)}
    (h : IsRewards (before ++ entries)) : entries.foldl addReward before = before ++ entries := by
  induction entries generalizing before with
  | nil => rw [List.append_nil, List.foldl_nil]
  | cons e entries ih =>
      have he : e ∈ before ++ e :: entries := List.mem_append_right _ List.mem_cons_self
      obtain ⟨category, multiplier⟩ := e
      obtain ⟨n, rfl⟩ : ∃ n, multiplier = .number n := h.multiplier _ he
      -- A category that is not there yet gets its place at the end.
      have hnew : category ∉ before.map Prod.fst := by
        have hdifferent := h.different
        rw [List.map_append, List.nodup_append] at hdifferent
        intro hmem
        exact hdifferent.2.2 _ hmem _ List.mem_cons_self rfl
      have hadd : addReward before (category, .number n) = before ++ [(category, .number n)] := by
        have hcategory := h.category _ he
        simp only [addReward, toNumber?] at hcategory ⊢
        rw [hcategory, putEntry_eq_append hnew]
      rw [List.foldl_cons, hadd, ih, List.append_assoc]
      · rfl
      · rw [List.append_assoc]
        exact h

theorem asRewards_asRewards (v : Datum) : asRewards (asRewards v) = asRewards v := by
  have hnone : IsRewards [] := ⟨List.nodup_nil, nofun, nofun⟩
  cases v with
  | object entries =>
      have h := foldl_addReward_isRewards hnone entries
      exact congrArg Datum.object (foldl_addReward_eq ((List.nil_append _).symm ▸ h))
  | _ => rfl

/-- Reading a cell again changes nothing. -/
theorem readAs_of_readAs {form : Field.Form} {v w : Datum} (h : v.readAs form = .ok w) :
    w.readAs form = .ok w := by
  cases form with
  | text => exact (asText_isRead h).asText_eq
  | number => exact Except.ok.inj h ▸ congrArg Except.ok (asNumber_asNumber v)
  | flag => exact Except.ok.inj h ▸ congrArg Except.ok (asFlag_asFlag v)
  | rewards => exact Except.ok.inj h ▸ congrArg Except.ok (asRewards_asRewards v)

end Datum

namespace Card

/-- The entries of the row of a card. -/
def entries (card : Card) : List (String × Datum) :=
  Field.stored.map fun f => (f.name, card.cell f)

variable {card : Card}

theorem lookup_entries (card : Card) {f : Field} (h : f ∈ Field.stored) :
    card.entries.lookup f.name = some (card.cell f) :=
  Datum.lookup_map_of_injective (fun _ _ => Field.name_injective) h

/-- The card of a row has cells that reading leaves as they are. -/
theorem ShowsRow.readAs_cell (h : card.ShowsRow) {f : Field} (hf : f ∈ Field.stored) :
    (card.cell f).readAs f.form = .ok (card.cell f) := by
  obtain ⟨row, rfl⟩ := h
  rw [cell_ofCells _ (isComputed_of_mem_stored f hf)]
  cases hread : readCell row f with
  | ok v =>
      rw [shownCell_eq hread]
      exact Datum.readAs_of_readAs hread
  | error e =>
      rw [shownCell, hread, form_of_readCell hread]
      rfl

theorem ShowsRow.readCell_entries (h : card.ShowsRow) {f : Field} (hf : f ∈ Field.stored) :
    readCell card.entries f = .ok (card.cell f) := by
  rw [readCell, givenFor, lookup_entries card hf, Option.getD_some]
  exact h.readAs_cell hf

theorem ShowsRow.isLegible_entries (h : card.ShowsRow) : IsLegible card.entries := by
  intro f hf htext
  have hread := h.readCell_entries hf
  rw [readCell, htext, Datum.readAs] at hread
  cases hlong : (givenFor card.entries f).isWritable with
  | true => rfl
  | false =>
      rw [Datum.asText_of_not_isWritable hlong] at hread
      cases hread

/-- The card of its own row is the card. -/
theorem ShowsRow.ofEntries_entries (h : card.ShowsRow) : ofEntries card.entries = .ok card := by
  rw [ofEntries_of_isLegible h.isLegible_entries, ← ofCells_cell card]
  refine congrArg Except.ok (ofCells_congr fun f hf => ?_)
  rw [ofCells_cell]
  exact shownCell_eq (h.readCell_entries hf)

theorem ShowsRow.toRow_eq (h : card.ShowsRow) : card.toRow = .ok (.object card.entries) := by
  -- The reward table is the one cell that a row shows in another form, and it has that form.
  obtain ⟨table, htable⟩ : ∃ table, card.cell .rewardStructure = .object table :=
    (h.hasForm (f := .rewardStructure) (by decide)).exists_table
  have hrewards : Datum.rewardTable ((some (card.cell .rewardStructure)).getD (.object []))
      = .ok table := by
    rw [htable]
    rfl
  unfold toRow Datum.shownRow
  rw [hrewards]
  show Except.ok (Datum.object (Field.stored.map fun f =>
    (f.name, if f = .rewardStructure then .object table else card.cell f))) = _
  have hcells : ∀ f : Field,
      (if f = .rewardStructure then .object table else card.cell f) = card.cell f := by
    intro f
    split
    · next hf => rw [hf, htable]
    · rfl
  simp only [hcells]
  rfl

theorem showsRow_ofCells (row : List (String × Datum)) : (ofCells (shownCell row)).ShowsRow :=
  ⟨row, rfl⟩

end Card

end Cardfolio
