import Cardfolio.Proofs.Number.Spelled
import Cardfolio.Proofs.Query.SixComparisons
import Cardfolio.Proofs.Text.Respelled

/-!
# Formatted numbers

A whole number may stand in a cell as a text: with commas between the thousands, with a minus, a
dollar sign on either side of it, percent signs behind and blanks around. Taking the decorations
off leaves the minus and the digits, and these spell the number as a double. Up to 2⁵³ the double
is the number itself, and since no point was written it is given in whole form.

A comparison of numbers looks at nothing but the number that is read, so the formatted text can
stand for the number on either side of every operator.
-/

namespace Cardfolio

namespace Numeral

variable {n : Nat} {cs : List Char}

/-- The sign of an amount, with a dollar sign in front of it, behind it or nowhere. -/
def leads (negative : Bool) : List (List Char) :=
  [minus negative, '$' :: minus negative, minus negative ++ ['$']]

/-- The formats of a whole number in a cell. -/
inductive IsFormatted : Int → List Char → Prop
  | mk (negative : Bool) (n : Nat) (percents : Nat) {lead digits front back : List Char}
      (hlead : lead ∈ leads negative) (hdigits : digits ∈ [Nat.toDigits 10 n, grouped n])
      (hfront : ∀ c ∈ front, Text.isBlank c = true) (hback : ∀ c ∈ back, Text.isBlank c = true) :
      IsFormatted (Binary64.signed negative n)
        (front ++ (lead ++ (digits ++ List.replicate percents '%') ++ back))

theorem isWritten_of_mem (h : cs ∈ [Nat.toDigits 10 n, grouped n]) : IsWritten n cs := by
  simp only [List.mem_cons, List.not_mem_nil, or_false] at h
  rcases h with rfl | rfl
  · exact isWritten_toDigits n
  · exact isWritten_grouped n

end Numeral

namespace Datum

open Numeral

variable {negative : Bool} {n : Nat} {lead cs : List Char}

/-- What is left of the separators and dollar signs of an amount. -/
def isKept (c : Char) : Bool :=
  c != ',' && c != '$'

theorem isKept_of_isDigit {c : Char} (h : c.isDigit = true) : isKept c = true := by
  rw [isKept, Bool.and_eq_true, bne_iff_ne, bne_iff_ne]
  constructor
  · rintro rfl
    cases h
  · rintro rfl
    cases h

theorem filter_of_mem_leads (h : lead ∈ leads negative) : lead.filter isKept = minus negative := by
  cases negative <;> revert lead <;> decide

theorem not_isBlank_of_mem_leads (h : lead ∈ leads negative) :
    ∀ c ∈ lead, Text.isBlank c = false := by
  cases negative <;> revert lead <;> decide

theorem not_isBlank_of_isWritten (h : IsWritten n cs) : ∀ c ∈ cs, Text.isBlank c = false := by
  intro c hc
  rcases h.mem c hc with rfl | hdigit
  · decide
  · exact Text.isBlank_of_isDecimalDigit (isDecimalDigit_of_isDigit hdigit)

theorem strip_formatted {front back : List Char} (percents : Nat) (hlead : lead ∈ leads negative)
    (hcs : IsWritten n cs) (hfront : ∀ c ∈ front, Text.isBlank c = true)
    (hback : ∀ c ∈ back, Text.isBlank c = true) :
    Text.strip (front ++ (lead ++ (cs ++ List.replicate percents '%') ++ back))
      = lead ++ (cs ++ List.replicate percents '%') := by
  rw [Text.strip, Text.trim_padded hfront hback]
  refine (Text.isTrimmed_of_forall fun c hc => ?_).trim_eq_self
  rcases List.mem_append.mp hc with hc | hc
  · exact not_isBlank_of_mem_leads hlead c hc
  · rcases List.mem_append.mp hc with hc | hc
    · exact not_isBlank_of_isWritten hcs c hc
    · rw [List.eq_of_mem_replicate hc]
      decide

theorem filter_formatted (percents : Nat) (hlead : lead ∈ leads negative)
    (hcs : IsWritten n cs) : (lead ++ (cs ++ List.replicate percents '%')).filter isKept
      = minus negative ++ Nat.toDigits 10 n ++ List.replicate percents '%' := by
  have hpercents : ∀ c ∈ List.replicate percents '%', isKept c = true := by
    intro c hc
    rw [List.eq_of_mem_replicate hc]
    rfl
  rw [List.filter_append, List.filter_append, filter_of_mem_leads hlead,
    hcs.filter_eq (fun _ => isKept_of_isDigit) rfl, List.filter_eq_self.mpr hpercents,
    List.append_assoc]

/-- A written number has nothing but digits and perhaps a minus. -/
theorem not_mem_minus_toDigits {c : Char} (hminus : c ≠ '-') (hdigit : c.isDigit = false) :
    c ∉ minus negative ++ Nat.toDigits 10 n := by
  intro h
  rcases List.mem_append.mp h with h | h
  · exact hminus (mem_minus h)
  · rw [isDigit_of_mem_toDigits c h] at hdigit
    cases hdigit

/-- Behind all decorations of a number are its sign and its digits. -/
theorem undecorated_eq {s : String} {k : Int} (h : IsFormatted k s.toList) :
    ∃ negative n, k = Binary64.signed negative n ∧
      undecorated s = minus negative ++ Nat.toDigits 10 n := by
  generalize hs : s.toList = text at h
  cases h with
  | mk negative n percents hlead hdigits hfront hback =>
      have hwritten := isWritten_of_mem hdigits
      refine ⟨negative, n, rfl, ?_⟩
      show Text.trimEnd (· == '%') ((Text.strip s.toList).filter isKept) = _
      rw [hs, strip_formatted percents hlead hwritten hfront hback,
        filter_formatted percents hlead hwritten,
        Text.trimEnd_append fun c hc => beq_iff_eq.mpr (List.eq_of_mem_replicate hc)]
      refine Text.trimEnd_eq_self fun c hc => beq_eq_false_iff_ne.mpr ?_
      rintro rfl
      exact not_mem_minus_toDigits (by decide) (by decide) (List.mem_of_mem_getLast? hc)

theorem real?_minus_toDigits (negative : Bool) (n : Nat) :
    real? (minus negative ++ Nat.toDigits 10 n) = some (.ofDecimal negative n 0) := by
  have hdigits : ∀ c ∈ Nat.toDigits 10 n, c.isDigit = true := isDigit_of_mem_toDigits
  have hplain : (Nat.toDigits 10 n).map plainDigit = Nat.toDigits 10 n :=
    (List.map_congr_left fun c hc => plainDigit_of_isDigit (hdigits c hc)).trans (List.map_id _)
  have hread : real? (minus negative ++ (Nat.toDigits 10 n ++ pointed []))
      = some (.ofDecimal negative (value ((Nat.toDigits 10 n ++ []).map plainDigit)) 0) :=
    real?_minus_pointed negative (fun c hc => isDecimalDigit_of_isDigit (hdigits c hc)) nofun
      (List.append_ne_nil_of_left_ne_nil Nat.toDigits_ne_nil [])
  rw [pointed, List.append_nil, hplain, value_toDigits] at hread
  exact hread

theorem spelledNumber?_of_isFormatted {s : String} {k : Int} (h : IsFormatted k s.toList)
    (hk : k.natAbs ≤ 2 ^ 53) : spelledNumber? s = some (.whole k) := by
  obtain ⟨negative, n, rfl, hdigits⟩ := undecorated_eq h
  rw [Binary64.natAbs_signed] at hk
  have hpoint : (minus negative ++ Nat.toDigits 10 n).contains '.' = false := by
    rw [Bool.eq_false_iff, Ne, List.contains_iff_mem]
    exact not_mem_minus_toDigits (by decide) (by decide)
  rw [spelledNumber?, hdigits, real?_minus_toDigits, Option.map_some, hpoint]
  exact congrArg some (Binary64.settle_ofDecimal_signed negative hk)

end Datum

theorem Datum.satisfies_of_numbers {value value' target target' : Datum} {m n : Number}
    (hvalue : value.toNumber? = some m) (hvalue' : value'.toNumber? = some m)
    (htarget : target.toNumber? = some n) (htarget' : target'.toNumber? = some n)
    (operator : String) : value.satisfies operator target = value'.satisfies operator target' := by
  unfold satisfies
  rw [Sides.ofData_of_numbers hvalue htarget, Sides.ofData_of_numbers hvalue' htarget']

/-- A whole number of up to 2⁵³ is read from each of its formats, so a format of it compares like
the number itself, on both sides of every operator. -/
theorem Datum.toNumber?_formatted {n : Int} {s : String} (hn : n.natAbs ≤ 2 ^ 53)
    (h : Numeral.IsFormatted n s.toList) :
    (text s).toNumber? = some (.whole n) ∧ ∀ operator t,
      (text s).satisfies operator (number t) = (whole n).satisfies operator (number t) ∧
      (number t).satisfies operator (text s) = (number t).satisfies operator (whole n) := by
  have hread : (text s).toNumber? = some (.whole n) := by
    rw [toNumber?, spelledNumber?_of_isFormatted h hn]
  exact ⟨hread, fun operator t => ⟨satisfies_of_numbers hread rfl rfl rfl operator,
    satisfies_of_numbers rfl rfl hread rfl operator⟩⟩

theorem Datum.toNumber?_formatted_minusAmount :
    Numeral.IsFormatted (-1234567) "  -$1,234,567%% ".toList ∧
      (text "  -$1,234,567%% ").toNumber? = some (.whole (-1234567)) ∧ ∀ operator t,
        (text "  -$1,234,567%% ").satisfies operator (number t)
          = (whole (-1234567)).satisfies operator (number t) ∧
        (number t).satisfies operator (text "  -$1,234,567%% ")
          = (number t).satisfies operator (whole (-1234567)) := by
  have htext : "  -$1,234,567%% ".toList = "  ".toList
      ++ (['-', '$'] ++ ("1,234,567".toList ++ List.replicate 2 '%') ++ " ".toList) := by
    decide
  have hformat : Numeral.IsFormatted (-1234567) "  -$1,234,567%% ".toList := by
    rw [htext]
    exact .mk true 1234567 2 (by decide) (by decide) (by decide) (by decide)
  exact ⟨hformat, toNumber?_formatted (by decide) hformat⟩

end Cardfolio
