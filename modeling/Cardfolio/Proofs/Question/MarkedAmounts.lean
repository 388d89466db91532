import Cardfolio.Proofs.Question.Amounts

/-!
# One amount and all amounts

Two scans look for marked amounts. The one that wants all of them goes through every match
of every mark. The one that wants a single amount looks at the first match of each mark, and
when that holds no amount, it goes on to the next mark and at last to the bare numbers. So
it can miss what the other finds: an amount that stands behind a zero with the same mark.

`Overlooked` says of a text that this happens, and the two scans agree that there is an
amount exactly in the texts of which it does not hold.
-/

namespace Cardfolio.Amount

open Pattern Text

/-- The marks that both scans know. -/
def marks (allowThousands : Bool) : List Pattern :=
  [dollarSign, currencyWord] ++ if allowThousands then [thousands] else []

theorem forall_mem_marks {P : Pattern → Prop} {allowThousands : Bool} :
    (∀ mark ∈ marks allowThousands, P mark) ↔
      P dollarSign ∧ P currencyWord ∧ (allowThousands = true → P thousands) := by
  cases allowThousands with
  | false => simp [marks]
  | true => simp [marks]

theorem exists_isMark {allowThousands : Bool} :
    ∀ mark ∈ marks allowThousands, ∃ number, IsMark mark number :=
  forall_mem_marks.mpr
    ⟨⟨_, isMark_dollarSign⟩, ⟨_, isMark_currencyWord⟩, fun _ => ⟨_, isMark_thousands⟩⟩

theorem inThousands?_eq_none_iff {allowThousands : Bool} {text : List Char}
    {found : Option Number} (h : inThousands? allowThousands text = .ok found) :
    found = none ↔ (allowThousands = true → marked? thousands text = none) := by
  unfold inThousands? at h
  cases allowThousands with
  | false =>
      obtain rfl := Except.ok.inj h
      exact ⟨fun _ => nofun, fun _ => rfl⟩
  | true =>
      rw [if_pos rfl] at h
      split at h
      · next amount hamount =>
          obtain ⟨_, _, rfl⟩ := map_eq_ok.mp h
          rw [hamount]
          exact ⟨nofun, fun hnone => nomatch hnone rfl⟩
      · next hnone =>
          obtain rfl := Except.ok.inj h
          exact ⟨fun _ _ => hnone, fun _ => rfl⟩

theorem first_eq_none_iff {minDigits : Int} {allowThousands : Bool} {text : List Char}
    {found : Option Number} (h : first minDigits allowThousands text = .ok found) :
    found = none ↔ (∀ mark ∈ marks allowThousands, marked? mark (lower text) = none) ∧
      bare? minDigits (lower text) = none := by
  rw [forall_mem_marks]
  rw [first_eq] at h
  split at h
  · next amount hamount =>
      obtain rfl := Except.ok.inj h
      rw [hamount]
      exact ⟨nofun, fun hnone => nomatch hnone.1.1⟩
  · next hdollar =>
      obtain ⟨inThousands, hthousands, hrest⟩ := bind_eq_ok.mp h
      obtain rfl := Except.ok.inj hrest
      rw [Option.or_eq_none_iff, Option.or_eq_none_iff, inThousands?_eq_none_iff hthousands]
      constructor
      · rintro ⟨hthousands, hword, hbare⟩
        exact ⟨⟨hdollar, hword, hthousands⟩, hbare⟩
      · rintro ⟨⟨_, hword, hthousands⟩, hbare⟩
        exact ⟨hthousands, hword, hbare⟩

theorem allMarked_eq_nil_iff {mark number : Pattern} (hmark : IsMark mark number)
    {text : List Char} :
    allMarked mark text = [] ↔ ∀ m ∈ mark.findAll text, IsNaught (m.pieceText "number") := by
  rw [allMarked, List.filterMap_eq_nil_iff]
  refine forall₂_congr fun m hm => ?_
  rw [Option.map_eq_none_iff]
  exact hmark.ofMatch?_eq_none_iff (occurs_of_mem_findAll hm)

theorem foldl_different_ne_nil (numbers : List Number) {kept : List Number} (h : kept ≠ []) :
    numbers.foldl (fun kept n => if kept.any (·.same n) then kept else kept ++ [n]) kept
      ≠ [] := by
  induction numbers generalizing kept with
  | nil => exact h
  | cons n numbers ih =>
      rw [List.foldl_cons]
      apply ih
      split
      · exact h
      · exact List.append_ne_nil_of_left_ne_nil h _

/-- Leaving repetitions out leaves something. -/
theorem different_eq_nil_iff {numbers : List Number} :
    different numbers = [] ↔ numbers = [] := by
  cases numbers with
  | nil => exact ⟨fun _ => rfl, fun _ => rfl⟩
  | cons n numbers =>
      exact iff_of_false (foldl_different_ne_nil numbers (List.cons_ne_nil n []))
        (List.cons_ne_nil n numbers)

theorem all_eq_nil_iff {allowThousands : Bool} {text : List Char} {amounts : List Number}
    (h : all allowThousands text = .ok amounts) :
    amounts = [] ↔ ∀ mark ∈ marks allowThousands, allMarked mark (lower text) = [] := by
  obtain ⟨thousandfolds, hthousandfolds, hamounts⟩ := bind_eq_ok.mp h
  obtain rfl := Except.ok.inj hamounts
  -- A thousandfold amount is added for each amount in thousands.
  have hlength := (mapM_eq_ok.mp hthousandfolds).length_eq
  have hnil : thousandfolds = [] ↔
      (allowThousands = true → allMarked thousands (lower text) = []) := by
    rw [← List.length_eq_zero_iff, ← hlength, List.length_eq_zero_iff]
    cases allowThousands with
    | false => simp
    | true => simp
  rw [different_eq_nil_iff, List.map_eq_nil_iff, Stable.sort_eq_mergeSort,
    ← List.length_eq_zero_iff, List.length_mergeSort, List.length_eq_zero_iff,
    List.append_eq_nil_iff, List.append_eq_nil_iff, hnil, and_assoc, forall_mem_marks]

/-- The first number with each mark is no amount, nor is a bare number of enough digits, but
some number with a mark is one. -/
structure Overlooked (minDigits : Int) (allowThousands : Bool) (text : List Char) : Prop where
  first : ∀ mark ∈ marks allowThousands, ∀ m, mark.find? text = some m →
    IsNaught (m.pieceText "number")
  bare : ∀ m ∈ bare.findAll text, max minDigits 1 ≤ wholeDigits (m.pieceText "number") →
    IsNaught (m.pieceText "number")
  later : ∃ mark ∈ marks allowThousands, ∃ m ∈ mark.findAll text,
    ¬ IsNaught (m.pieceText "number")

/-- Whenever both scans return, a single amount is found if there are any, unless it is
overlooked. -/
theorem first_found_of_all_iff {minDigits : Int} {allowThousands : Bool} {text : List Char}
    {found : Option Number} {amounts : List Number}
    (hfirst : first minDigits allowThousands text = .ok found)
    (hall : all allowThousands text = .ok amounts) :
    (amounts ≠ [] → found ≠ none) ↔ ¬ Overlooked minDigits allowThousands (lower text) := by
  have hmarked : (∀ mark ∈ marks allowThousands, marked? mark (lower text) = none) ↔
      ∀ mark ∈ marks allowThousands, ∀ m, mark.find? (lower text) = some m →
        IsNaught (m.pieceText "number") :=
    forall₂_congr fun mark hmark =>
      have ⟨_, hismark⟩ := exists_isMark mark hmark
      hismark.marked?_eq_none_iff
  have hamounts : (∀ mark ∈ marks allowThousands, allMarked mark (lower text) = []) ↔
      ∀ mark ∈ marks allowThousands, ∀ m ∈ mark.findAll (lower text),
        IsNaught (m.pieceText "number") :=
    forall₂_congr fun mark hmark =>
      have ⟨_, hismark⟩ := exists_isMark mark hmark
      allMarked_eq_nil_iff hismark
  rw [Ne, Ne, all_eq_nil_iff hall, first_eq_none_iff hfirst, hamounts, hmarked, bare?_eq_none_iff]
  constructor
  · rintro hagree ⟨hnone, hbare, mark, hmark, m, hm, hnaught⟩
    exact hagree (fun hall => hnaught (hall mark hmark m hm)) ⟨hnone, hbare⟩
  · rintro hoverlooked hany ⟨hnone, hbare⟩
    have hlater : ∃ mark ∈ marks allowThousands, ∃ m ∈ mark.findAll (lower text),
        ¬ IsNaught (m.pieceText "number") := by
      simpa only [not_forall, exists_prop] using hany
    exact hoverlooked ⟨hnone, hbare, hlater⟩

theorem first_found_of_all_iff_bucks :
    first 2 true "$0 or 40 bucks".toList = .ok (some (.whole 40)) ∧
      all true "$0 or 40 bucks".toList = .ok [.whole 40] ∧
      ¬ Overlooked 2 true (lower "$0 or 40 bucks".toList) := by
  have hfirst : first 2 true "$0 or 40 bucks".toList = .ok (some (.whole 40)) := by
    decide +kernel
  have hall : all true "$0 or 40 bucks".toList = .ok [.whole 40] := by decide +kernel
  exact ⟨hfirst, hall, (first_found_of_all_iff hfirst hall).mp fun _ => nofun⟩

/-- The thousands behind a zero are overlooked. -/
theorem first_eq_none_zeroThousands :
    first 1 true "0k 5k".toList = .ok none ∧ all true "0k 5k".toList = .ok [.whole 5000] :=
  ⟨by decide +kernel, by decide +kernel⟩

end Cardfolio.Amount
