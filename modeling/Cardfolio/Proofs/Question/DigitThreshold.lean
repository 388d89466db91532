import Cardfolio.Proofs.Question.MarkedPlaces
import Cardfolio.Proofs.Text.Signs

/-!
# How many digits a bare number needs

The scan for a single amount looks for the marks first and goes on to the bare numbers when they
have nothing. The least number of digits is asked for in this second part only, so the first part
can be told apart and does not know of it (`firstMarked`, `first_eq_firstMarked`). What
follows about the number of digits is about bare numbers: none has more digits than the text
has characters, and a number that has enough digits has enough when fewer are asked for.

Whether the first part finds an amount or fails is the same for all numbers of digits. What it
finds is marked, and is listed among all amounts.
-/

namespace Cardfolio.Amount

open Pattern Text

variable {minDigits : Int} {allowThousands : Bool} {text : List Char} {n : Number}

/-- The amount at the first match of a mark, in the order of the marks. -/
def firstMarked (allowThousands : Bool) (text : List Char) : Except Fault (Option Number) :=
  match marked? dollarSign text with
  | some amount => .ok (some amount)
  | none => (·.or (marked? currencyWord text)) <$> inThousands? allowThousands text

theorem first_eq_firstMarked (minDigits : Int) (allowThousands : Bool) (text : List Char) :
    first minDigits allowThousands text =
      (·.or (bare? minDigits (lower text))) <$> firstMarked allowThousands (lower text) := by
  rw [first_eq, firstMarked]
  cases marked? dollarSign (lower text) with
  | some amount => rfl
  | none =>
      cases inThousands? allowThousands (lower text) with
      | error f => rfl
      | ok found => exact congrArg Except.ok Option.or_assoc.symm

theorem first_eq_some_iff : first minDigits allowThousands text = .ok (some n) ↔
    firstMarked allowThousands (lower text) = .ok (some n) ∨
      firstMarked allowThousands (lower text) = .ok none ∧
        bare? minDigits (lower text) = some n := by
  rw [first_eq_firstMarked, map_eq_ok]
  constructor
  · rintro ⟨found, hfound, hor⟩
    rcases Option.or_eq_some_iff.mp hor with rfl | ⟨rfl, hbare⟩
    · exact Or.inl hfound
    · exact Or.inr ⟨hfound, hbare⟩
  · rintro (hfound | ⟨hfound, hbare⟩)
    · exact ⟨some n, hfound, rfl⟩
    · exact ⟨none, hfound, hbare⟩

theorem exists_mem_of_marked? (mark : Mark) (h : marked? mark.pattern text = some n) :
    ∃ m ∈ mark.pattern.findAll text, ofMatch? m = some n := by
  have hsome : mark.pattern.mayBeEmpty = false := by
    cases mark <;> rfl
  obtain ⟨m, hm, hn⟩ := Option.bind_eq_some_iff.mp h
  exact ⟨m, mem_findAll_of_find? hsome hm, hn⟩

theorem exists_marked_of_inThousands? (h : inThousands? allowThousands text = .ok (some n)) :
    ∃ m, Marked allowThousands text .thousands m n := by
  unfold inThousands? at h
  split at h
  · next amount hamount =>
      split at hamount
      · next hallowed =>
          obtain ⟨n', hn', hsome⟩ := map_eq_ok.mp h
          obtain rfl := Option.some.inj hsome
          obtain ⟨m, hm, hvalue⟩ := exists_mem_of_marked? .thousands hamount
          exact ⟨m, fun _ => hallowed, hm, amount, hvalue, hn'⟩
      · cases hamount
  · cases h

theorem exists_marked_of_firstMarked (h : firstMarked allowThousands text = .ok (some n)) :
    ∃ mark m, Marked allowThousands text mark m n := by
  unfold firstMarked at h
  split at h
  · next amount hamount =>
      obtain rfl := Option.some.inj (Except.ok.inj h)
      obtain ⟨m, hm, hvalue⟩ := exists_mem_of_marked? .sign hamount
      exact ⟨.sign, m, nofun, hm, _, hvalue, rfl⟩
  · obtain ⟨found, hfound, hor⟩ := map_eq_ok.mp h
    rcases Option.or_eq_some_iff.mp hor with rfl | ⟨_, hword⟩
    · obtain ⟨m, hm⟩ := exists_marked_of_inThousands? hfound
      exact ⟨.thousands, m, hm⟩
    · obtain ⟨m, hm, hvalue⟩ := exists_mem_of_marked? .word hword
      exact ⟨.word, m, nofun, hm, _, hvalue, rfl⟩

/-- When the marks have nothing, each of them has nothing. -/
theorem marked?_eq_none_of_firstMarked (h : firstMarked allowThousands text = .ok none)
    {mark : Mark} (hallowed : mark = .thousands → allowThousands = true) :
    marked? mark.pattern text = none := by
  unfold firstMarked at h
  split at h
  · cases h
  · next hsign =>
      obtain ⟨found, hfound, hor⟩ := map_eq_ok.mp h
      obtain ⟨hnone, hword⟩ := Option.or_eq_none_iff.mp hor
      cases mark with
      | sign => exact hsign
      | word => exact hword
      | thousands => exact (inThousands?_eq_none_iff hfound).mp hnone (hallowed rfl)

/-- The digits before a point are characters of the text, and a letter that becomes two when it is
made small becomes no digit. -/
theorem wholeDigits_le {m : Match} (h : bare.Occurs (lower text) m) :
    wholeDigits (m.pieceText "number") ≤ text.length := by
  calc wholeDigits (m.pieceText "number")
      ≤ (m.pieceText "number").countP isDigitLike := (List.takeWhile_sublist _).countP_le
    _ ≤ (lower text).countP isDigitLike := (isMark_bare.spells h).2.sublist.countP_le
    _ ≤ text.length := countP_lower_le (by decide) (by decide) text

theorem bare?_eq_none_of_lt (h : (text.length : Int) < minDigits) :
    bare? minDigits (lower text) = none := by
  rw [bare?_eq_none_iff]
  intro m hm hmany
  have := wholeDigits_le (occurs_of_mem_findAll hm)
  omega

/-- Where enough digits are found, there are enough when fewer are asked for. -/
theorem exists_bare?_of_le {minDigits' : Int} (hle : minDigits ≤ minDigits')
    (h : bare? minDigits' text = some n) : ∃ n', bare? minDigits text = some n' := by
  rw [← Option.ne_none_iff_exists']
  intro hnone
  rw [bare?_eq_none_iff] at hnone
  have hnone' : bare? minDigits' text = none :=
    bare?_eq_none_iff.mpr fun m hm hmany => hnone m hm (by omega)
  rw [hnone'] at h
  cases h

/-- An amount that is found although more digits are asked for than the text has characters is
found in any case, and is one of all amounts. When an amount is found, one is found when fewer
digits are asked for. -/
theorem threshold_is_for_bare_numbers (allowThousands : Bool) (text : List Char) :
    (∀ minDigits n, (text.length : Int) < minDigits →
      first minDigits allowThousands text = .ok (some n) →
        (∀ minDigits', first minDigits' allowThousands text = .ok (some n)) ∧
          ∀ amounts, all allowThousands text = .ok amounts → n ∈ amounts) ∧
      ∀ minDigits minDigits' n, minDigits ≤ minDigits' →
        first minDigits' allowThousands text = .ok (some n) →
          ∃ n', first minDigits allowThousands text = .ok (some n') := by
  constructor
  · intro minDigits n hlarge h
    have hmarked : firstMarked allowThousands (lower text) = .ok (some n) := by
      rcases first_eq_some_iff.mp h with hmarked | ⟨_, hbare⟩
      · exact hmarked
      · rw [bare?_eq_none_of_lt hlarge] at hbare
        cases hbare
    refine ⟨fun minDigits' => first_eq_some_iff.mpr (Or.inl hmarked), fun amounts hall => ?_⟩
    exact ((isListing_of_all hall).mem_iff n).mpr (exists_marked_of_firstMarked hmarked)
  · intro minDigits minDigits' n hle h
    rcases first_eq_some_iff.mp h with hmarked | ⟨hmarked, hbare⟩
    · exact ⟨n, first_eq_some_iff.mpr (Or.inl hmarked)⟩
    · obtain ⟨n', hn'⟩ := exists_bare?_of_le hle hbare
      exact ⟨n', first_eq_some_iff.mpr (Or.inr ⟨hmarked, hn'⟩)⟩

theorem threshold_is_for_bare_numbers_dollars :
    first 100 true "$40 of 1500".toList = .ok (some (.whole 40)) ∧
      first 3 true "$40 of 1500".toList = .ok (some (.whole 40)) ∧
      all true "$40 of 1500".toList = .ok [.whole 40] ∧
      Number.whole 40 ∈ [Number.whole 40] ∧
      first 3 true "25 of 1500".toList = .ok (some (.whole 1500)) ∧
      ∃ n', first 1 true "25 of 1500".toList = .ok (some n') := by
  have hlarge : first 100 true "$40 of 1500".toList = .ok (some (.whole 40)) := by decide +kernel
  have hall : all true "$40 of 1500".toList = .ok [.whole 40] := by decide +kernel
  have hbare : first 3 true "25 of 1500".toList = .ok (some (.whole 1500)) := by decide +kernel
  obtain ⟨hsame, hmem⟩ :=
    (threshold_is_for_bare_numbers true "$40 of 1500".toList).1 100 _ (by decide) hlarge
  exact ⟨hlarge, hsame 3, hall, hmem _ hall, hbare,
    (threshold_is_for_bare_numbers true "25 of 1500".toList).2 1 3 _ (by decide) hbare⟩

end Cardfolio.Amount
