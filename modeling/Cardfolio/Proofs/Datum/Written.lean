import Cardfolio.Card.Basic
import Cardfolio.Proofs.Settles

/-!
# Values that can be written

Writing a value fails for one reason: a whole number in it has too many digits. Text
and dates hold no numbers and are always written. So the cell of a row can be read unless it
is a cell of text and what stands there cannot be written; numbers, flags and rewards
are never written on the way.
-/

namespace Cardfolio.Datum

theorem write_of_isWritable {v : Datum} (h : v.isWritable = true) : v.write = .ok v.written := by
  rw [write, if_pos h]

theorem write_of_not_isWritable {v : Datum} (h : v.isWritable = false) :
    v.write = .error .longNumber := by
  rw [write, h]
  rfl

theorem write_settles (v : Datum) :
    Settles False (v.isWritable = false) (fun s => s = v.written) v.write := by
  cases h : v.isWritable with
  | true => exact write_of_isWritable h ▸ .value rfl
  | false => exact write_of_not_isWritable h ▸ .longNumber rfl

theorem write_text (s : String) : (text s).write = .ok s :=
  write_of_isWritable rfl

/-- A value that a cell can be read as, by the form that its field asks for. Only the reward table
is never absent. -/
inductive HasForm : Field.Form → Datum → Prop
  | absent {form : Field.Form} (h : form ≠ .rewards) : HasForm form .null
  | text (s : String) : HasForm .text (.text s)
  | number (n : Number) : HasForm .number (.number n)
  | flag (b : Bool) : HasForm .flag (.bool b)
  | rewards (table : List (String × Datum)) : HasForm .rewards (.object table)

theorem stripped_hasForm (s : String) : (stripped s).HasForm .text := by
  unfold stripped
  split
  · exact .absent (by decide)
  · exact .text _

theorem asText_settles (v : Datum) :
    Settles False (v.isWritable = false) (HasForm .text) v.asText := by
  unfold asText
  split
  · exact .value (.absent (by decide))
  · exact .value (.text _)
  · exact .value (.text _)
  · exact v.write_settles.map fun s _ => stripped_hasForm s

theorem asText_of_not_isWritable {v : Datum} (h : v.isWritable = false) :
    v.asText = .error .longNumber := by
  unfold asText
  split
  · cases h
  · cases h
  · cases h
  · rw [write_of_not_isWritable h]
    rfl

theorem asNumber_hasForm (v : Datum) : v.asNumber.HasForm .number := by
  unfold asNumber
  cases v.toNumber? with
  | none => exact .absent (by decide)
  | some n => exact .number n

theorem asFlag_hasForm (v : Datum) : v.asFlag.HasForm .flag := by
  unfold asFlag
  split
  · exact .flag _
  · next s =>
      cases flagWord? (String.ofList (Text.lower (Text.strip s.toList))) with
      | none => exact .absent (by decide)
      | some b => exact .flag b
  · exact .flag _
  · exact .absent (by decide)

theorem asRewards_hasForm (v : Datum) : v.asRewards.HasForm .rewards := by
  unfold asRewards
  split <;> exact .rewards _

/-- Only a cell of text cannot be read, and only where its value cannot be written. -/
theorem readAs_settles (form : Field.Form) (v : Datum) :
    Settles False (form = .text ∧ v.isWritable = false) (HasForm form) (v.readAs form) := by
  cases form with
  | text => exact v.asText_settles.mono id (fun h => ⟨rfl, h⟩) fun _ h => h
  | number => exact .value v.asNumber_hasForm
  | flag => exact .value v.asFlag_hasForm
  | rewards => exact .value v.asRewards_hasForm

/-- A value that the cell of a row can be read as, which is no list and no card. -/
def IsCell : Datum → Prop
  | .list _ | .card _ => False
  | _ => True

theorem HasForm.null_or_number {v : Datum} (h : v.HasForm .number) :
    v = .null ∨ ∃ n, v = .number n := by
  cases h with
  | absent _ => exact Or.inl rfl
  | number n => exact Or.inr ⟨n, rfl⟩

theorem HasForm.exists_table {v : Datum} (h : v.HasForm .rewards) : ∃ table, v = .object table := by
  cases h with
  | absent h => exact absurd rfl h
  | rewards table => exact ⟨table, rfl⟩

theorem HasForm.isCell {form : Field.Form} {v : Datum} (h : v.HasForm form) : v.IsCell := by
  cases h <;> trivial

theorem IsCell.obstacle?_eq_none {v : Datum} (h : v.IsCell) (hobject : ∀ es, v ≠ .object es) :
    v.obstacle? = none := by
  cases v with
  | list items => exact h.elim
  | card cell => exact h.elim
  | object entries => exact (hobject entries rfl).elim
  | _ => rw [obstacle?] <;> nofun

end Cardfolio.Datum
