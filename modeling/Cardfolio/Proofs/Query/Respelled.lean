import Cardfolio.Proofs.Number.Caseless
import Cardfolio.Proofs.Query.Sides

/-!
# Comparisons and spelling

A comparison looks at a text in two ways only: at the number that it spells, and at its comparable
form. Neither depends on the case of its letters or on the blanks around it, so it makes no
difference how a text is spelled, in the cell or in the query. Of a reward table the names of its
categories are looked at, and only at their comparable forms. When names are respelled two of them
may become one; what counts is that each name still has a spelling in the new table, and that
there is none without a name.
-/

namespace Cardfolio

variable {s s' : String} (h : Text.Respelled s.toList s'.toList)

namespace Datum

include h

theorem undecorated_recased : Text.Recased (undecorated s) (undecorated s') := by
  have hkept : Text.IsCaseless fun c => c != ',' && c != '$' :=
    Text.isCaseless_of_letters true (by decide)
  have hpercent : Text.IsCaseless (· == '%') := Text.isCaseless_of_letters false (by decide)
  have hstrip := Text.recased_iff.mp h.strip_recased
  unfold undecorated
  rw [Text.recased_iff, ← hpercent.trimEnd_map, ← hkept.filter_map, hstrip, hkept.filter_map,
    hpercent.trimEnd_map]

theorem spelledNumber?_eq : spelledNumber? s = spelledNumber? s' := by
  have hmap := Text.recased_iff.mp (undecorated_recased h)
  have hread : Numeral.real? (undecorated s) = Numeral.real? (undecorated s') := by
    rw [← Numeral.real?_map, hmap, Numeral.real?_map]
  have hpoint : (undecorated s).contains '.' = (undecorated s').contains '.' := by
    have hcaseless : Text.IsCaseless ('.' == ·) := Text.isCaseless_of_letters false (by decide)
    rw [List.contains_eq_any_beq, List.contains_eq_any_beq, ← hcaseless.any_map, hmap,
      hcaseless.any_map]
  unfold spelledNumber?
  dsimp only
  rw [hread, hpoint]

theorem toNumber?_eq : (text s).toNumber? = (text s').toNumber? := by
  rw [toNumber?, toNumber?, spelledNumber?_eq h]

end Datum

namespace Sides

section

include h

theorem textOf_eq : textOf (.text s) = textOf (.text s') := by
  rw [textOf_text, textOf_text, h.comparable_eq]

theorem ofData_left (target : Datum) : ofData (.text s) target = ofData (.text s') target := by
  cases target <;> simp only [ofData, Datum.toNumber?_eq h, textOf_eq h, isText]

theorem ofData_right (value : Datum) : ofData value (.text s) = ofData value (.text s') := by
  cases value <;> simp only [ofData, Datum.toNumber?_eq h, textOf_eq h, isText]

end

end Sides

namespace Comparison

/-- Each name of one list has a spelling in the other, and the other way round. -/
structure NamesRespelled (names names' : List String) : Prop where
  forth : ∀ name ∈ names, ∃ name' ∈ names', Text.Respelled name.toList name'.toList
  back : ∀ name' ∈ names', ∃ name ∈ names, Text.Respelled name.toList name'.toList

theorem NamesRespelled.any_eq {names names' : List String} (h : NamesRespelled names names')
    (p : List Char → Bool) :
    (names.any fun name => p (Text.comparable name.toList))
      = names'.any fun name => p (Text.comparable name.toList) := by
  rw [Bool.eq_iff_iff, List.any_eq_true, List.any_eq_true]
  constructor
  · rintro ⟨name, hname, hp⟩
    obtain ⟨name', hname', hrespelled⟩ := h.forth name hname
    exact ⟨name', hname', hrespelled.comparable_eq ▸ hp⟩
  · rintro ⟨name', hname', hp⟩
    obtain ⟨name, hname, hrespelled⟩ := h.back name' hname'
    exact ⟨name, hname, hrespelled.comparable_eq ▸ hp⟩

theorem NamesRespelled.holdsOfCategories_eq {names names' : List String}
    (h : NamesRespelled names names') (c : Comparison) (needle : List Char) :
    c.holdsOfCategories names needle = c.holdsOfCategories names' needle := by
  cases c with
  | contains => exact h.any_eq (Text.occursIn needle)
  | equals => exact h.any_eq (needle == ·)
  | above | below | atLeast | atMost => rfl

end Comparison

namespace Datum

/-- A text in another spelling, or any value as it is. -/
inductive Respelled : Datum → Datum → Prop
  | text {s s' : String} (h : Text.Respelled s.toList s'.toList) : Respelled (.text s) (.text s')
  | unchanged (value : Datum) : Respelled value value

/-- A cell in another spelling: as any value, or with other spellings of the names in it. -/
inductive CellRespelled : Datum → Datum → Prop
  | value {value value' : Datum} (h : Respelled value value') : CellRespelled value value'
  | names {entries entries' : List (String × Datum)}
      (h : Comparison.NamesRespelled (entries.map (·.1)) (entries'.map (·.1))) :
      CellRespelled (.object entries) (.object entries')

variable {value value' target target' : Datum}

theorem Respelled.ofData_eq (h : Respelled target target') (value : Datum) :
    Sides.ofData value target = Sides.ofData value target' := by
  cases h with
  | text h => exact Sides.ofData_right h value
  | unchanged => rfl

theorem CellRespelled.satisfies_eq (h : CellRespelled value value') (operator : String)
    (target : Datum) : value.satisfies operator target = value'.satisfies operator target := by
  unfold satisfies
  cases h with
  | value h =>
      cases h with
      | text h => rw [Sides.ofData_left h]
      | unchanged => rfl
  | @names entries entries' h =>
      have hcategories : ∀ needle, (Comparison.ofSymbol? operator).any
            (·.holds (.categories (entries.map (·.1)) needle))
          = (Comparison.ofSymbol? operator).any
            (·.holds (.categories (entries'.map (·.1)) needle)) := fun needle =>
        congrArg (Comparison.ofSymbol? operator).any
          (funext fun c => h.holdsOfCategories_eq c needle)
      by_cases hnull : target = .null
      · subst hnull
        rfl
      · rw [Sides.ofData_object hnull, Sides.ofData_object hnull]
        cases Sides.textOf target with
        | error _ => rfl
        | ok needle => exact congrArg Except.ok (hcategories needle)

/-- How a cell and a value are spelled makes no difference to any operator. -/
theorem satisfies_respelled (hvalue : CellRespelled value value')
    (htarget : Respelled target target') (operator : String) :
    value'.satisfies operator target' = value.satisfies operator target := by
  rw [hvalue.satisfies_eq operator target]
  unfold satisfies
  rw [htarget.ofData_eq value']

/-- A category and a value in two spellings each. -/
theorem satisfies_respelled_travel :
    CellRespelled (.object [("Travel ", .whole 3)]) (.object [("\tTRAVEL", .whole 3)]) ∧
      Respelled (.text "trav") (.text " TRAV") ∧
      (object [("\tTRAVEL", .whole 3)]).satisfies "=" (.text " TRAV") = .ok true := by
  have hcell : CellRespelled (.object [("Travel ", .whole 3)]) (.object [("\tTRAVEL", .whole 3)]) :=
    .names ⟨by decide +kernel, by decide +kernel⟩
  have htarget : Respelled (.text "trav") (.text " TRAV") := .text (by decide +kernel)
  exact ⟨hcell, htarget, (satisfies_respelled hcell htarget "=").trans (by decide +kernel)⟩

end Datum

end Cardfolio
