import Cardfolio.Proofs.Card.Normal
import Cardfolio.Proofs.Number.Caseless
import Cardfolio.Proofs.Number.Spelled
import Mathlib.Algebra.Order.BigOperators.Group.List

/-!
# Written dates are ordered like dates

Days have an order of their own: the one in which they are counted. For the days of the years
1 to 9999 it is the order of the year, then of the month, then of the day of the month, since
a later year or month begins behind all days of an earlier one. The written form has a fixed
width for each of the three, and digits in the same number are ordered like the numbers they
spell. So the written forms are in the order of the days.

Nothing that is done to a text before it is compared does anything to a written date. It has
no blanks, no letters and no signs of an amount, and for its dashes it is no numeral.
-/

namespace Cardfolio

open Text Numeral

section

variable {width n : Nat}

theorem toList_padded (width n : Nat) : (padded width n).toList =
    List.replicate (width - (Nat.toDigits 10 n).length) '0' ++ Nat.toDigits 10 n :=
  String.toList_ofList

theorem length_padded (hwidth : 0 < width) (h : n < 10 ^ width) :
    (padded width n).toList.length = width := by
  have hle : (Nat.toDigits 10 n).length ≤ width :=
    (Nat.length_toDigits_le_iff (by decide) hwidth).mpr h
  rw [toList_padded, List.length_append, List.length_replicate]
  omega

theorem value_padded (width n : Nat) : value (padded width n).toList = n := by
  rw [toList_padded, value_append, value_eq_zero fun c hc => List.eq_of_mem_replicate hc,
    Nat.zero_mul, Nat.zero_add, value_toDigits]

theorem padded_lt_iff {m : Nat} (hwidth : 0 < width) (hm : m < 10 ^ width)
    (hn : n < 10 ^ width) : (padded width m).toList < (padded width n).toList ↔ m < n := by
  have hlength : (padded width m).toList.length = (padded width n).toList.length := by
    rw [length_padded hwidth hm, length_padded hwidth hn]
  rw [lt_iff_value_lt isDigit_of_mem_padded isDigit_of_mem_padded hlength, value_padded,
    value_padded]

theorem padded_eq_iff {m : Nat} : (padded width m).toList = (padded width n).toList ↔ m = n := by
  refine ⟨fun h => ?_, fun h => h ▸ rfl⟩
  rw [← value_padded width m, h, value_padded]

end

/-- Behind beginnings of one length, the order is decided where the beginnings are the same. -/
theorem append_lt_append_iff {cs ds cs' ds' : List Char} (h : cs.length = ds.length) :
    cs ++ cs' < ds ++ ds' ↔ cs < ds ∨ cs = ds ∧ cs' < ds' := by
  induction cs generalizing ds with
  | nil =>
      obtain rfl := List.length_eq_zero_iff.mp h.symm
      exact ⟨fun h => Or.inr ⟨rfl, h⟩, fun h => (h.resolve_left (List.not_lt_nil [])).2⟩
  | cons c cs ih =>
      cases ds with
      | nil => cases h
      | cons d ds =>
          rw [List.cons_append, List.cons_append, List.cons_lt_cons_iff, List.cons_lt_cons_iff,
            ih (Nat.succ.inj h), List.cons.injEq]
          tauto

/-! ## Digits and dashes -/

/-- A character of a written date. -/
def IsDashed (c : Char) : Prop :=
  c = '-' ∨ c.isDigit = true

section

variable {c : Char}

theorem IsDashed.toNat (h : IsDashed c) : 45 ≤ c.toNat ∧ c.toNat ≤ 57 := by
  rcases h with rfl | h
  · exact ⟨by decide, by decide⟩
  · have := isDigit_iff.mp h
    omega

theorem IsDashed.plainDigit_eq (h : IsDashed c) : plainDigit c = c := by
  rcases h with rfl | h
  · decide
  · exact plainDigit_of_isDigit h

theorem IsDashed.toLower_eq (h : IsDashed c) : c.toLower = c := by
  rcases h with rfl | h
  · decide
  · exact IsPlain.toLower_eq (Or.inr h)

theorem IsDashed.foldChar_eq (h : IsDashed c) : foldChar c = [c] := by
  have hrange := h.toNat
  rw [foldChar, if_pos (by omega), h.toLower_eq]

theorem IsDashed.isMargin_eq (h : IsDashed c) : isMargin c = false := by
  rcases h with rfl | h
  · decide
  · exact IsPlain.isMargin_eq (Or.inr h)

/-- Behind the digits an exponent would have to begin. -/
theorem unsigned?_dashed {ds : List Char} (hds : ∀ c ∈ ds, c.isDigit = true) (cs : List Char) :
    unsigned? false (ds ++ '-' :: cs) = none := by
  obtain ⟨htake, hdrop⟩ := takeWhile_isDigit hds (c := '-') (by decide) cs
  unfold unsigned?
  rw [htake, hdrop]
  simp [exponent?]

/-- Digits with a dash behind them are no numeral. -/
theorem real?_dashed {d : Char} {ds cs : List Char} (hds : ∀ c ∈ d :: ds, c.isDigit = true)
    (hcs : ∀ c ∈ cs, IsDashed c) : real? (d :: ds ++ '-' :: cs) = none := by
  have hdashed : ∀ c ∈ d :: ds ++ '-' :: cs, IsDashed c := by
    intro c hc
    rcases List.mem_append.mp hc with hc | hc
    · exact Or.inr (hds c hc)
    · rcases List.mem_cons.mp hc with rfl | hc
      · exact Or.inl rfl
      · exact hcs c hc
  have hself : ∀ {f : Char → Char}, (∀ c, IsDashed c → f c = c) →
      (d :: ds ++ '-' :: cs).map f = d :: ds ++ '-' :: cs :=
    fun hf => (List.map_congr_left fun c hc => hf c (hdashed c hc)).trans (List.map_id _)
  have hplain := hself fun _ => IsDashed.plainDigit_eq
  have hlower := hself fun _ => IsDashed.toLower_eq
  have hmargin := isTrimmed_of_forall fun c hc => (hdashed c hc).isMargin_eq
  have hsign : splitSign (d :: ds ++ '-' :: cs) = (false, d :: ds ++ '-' :: cs) := by
    have hd := isDigit_iff.mp (hds d List.mem_cons_self)
    refine splitSign_of_ne ?_ ?_ _ <;> rintro rfl <;> revert hd <;> decide
  -- Neither word has a dash in it.
  have hword : ∀ w : List Char, '-' ∉ w → d :: ds ++ '-' :: cs ≠ w := by
    rintro _ hw rfl
    exact hw (List.mem_append_right _ List.mem_cons_self)
  have hunderscore : '_' ∉ d :: ds ++ '-' :: cs :=
    fun h => absurd (hdashed '_' h).toNat (by decide)
  unfold real?
  rw [hplain, hmargin.trim_eq_self, hsign]
  dsimp only
  rw [hlower, if_neg, if_neg (hword _ (by decide)), joinDigits_eq_self hunderscore,
    Option.bind_some, unsigned?_dashed hds]
  simp only [Bool.or_eq_true, decide_eq_true_eq, not_or]
  exact ⟨hword _ (by decide), hword _ (by decide)⟩

end

namespace Date

/-! ## The calendar -/

/-- A day of the calendar in the years 1 to 9999. Its month ends no sooner. -/
structure IsDay (d : Date) : Prop where
  year_pos : 1 ≤ d.year
  year_le : d.year ≤ 9999
  month_pos : 1 ≤ d.month
  month_le : d.month ≤ 12
  day_pos : 1 ≤ d.day
  day_le : daysBeforeMonth d.year d.month + d.day ≤ daysBeforeMonth d.year (d.month + 1)

instance (d : Date) : Decidable d.IsDay :=
  decidable_of_iff (1 ≤ d.year ∧ d.year ≤ 9999 ∧ 1 ≤ d.month ∧ d.month ≤ 12 ∧ 1 ≤ d.day ∧
      daysBeforeMonth d.year d.month + d.day ≤ daysBeforeMonth d.year (d.month + 1))
    ⟨fun ⟨h₁, h₂, h₃, h₄, h₅, h₆⟩ => ⟨h₁, h₂, h₃, h₄, h₅, h₆⟩,
      fun ⟨h₁, h₂, h₃, h₄, h₅, h₆⟩ => ⟨h₁, h₂, h₃, h₄, h₅, h₆⟩⟩

example : IsDay ⟨2024, 2, 29⟩ ∧ ¬IsDay ⟨2023, 2, 29⟩ ∧ ¬IsDay ⟨2023, 4, 31⟩ := by
  decide

/-- The number of days in front of a year. -/
def daysBeforeYear (year : Nat) : Nat :=
  365 * (year - 1) + (year - 1) / 4 - (year - 1) / 100 + (year - 1) / 400

theorem dayNumber_eq (d : Date) :
    d.dayNumber = daysBeforeYear d.year + daysBeforeMonth d.year d.month + d.day := rfl

theorem daysBeforeMonth_mono (year : Nat) {month month' : Nat} (h : month ≤ month') :
    daysBeforeMonth year month ≤ daysBeforeMonth year month' := by
  unfold daysBeforeMonth
  rw [← List.sum_eq_foldl, ← List.sum_eq_foldl]
  exact (List.take_sublist_take_left (by omega)).sum_le_sum fun _ _ => Nat.zero_le _

theorem daysBeforeMonth_next (year : Nat) {month : Nat} (hpos : 1 ≤ month) (hle : month ≤ 12) :
    daysBeforeMonth year (month + 1) ≤ daysBeforeMonth year month + 31 := by
  obtain ⟨k, rfl⟩ : ∃ k, month = k + 1 := ⟨month - 1, (Nat.sub_add_cancel hpos).symm⟩
  have hk : k < 12 := hle
  unfold daysBeforeMonth
  generalize isLeapYear year = leap
  clear hpos hle
  revert leap
  revert k
  decide

theorem daysBeforeMonth_thirteen (year : Nat) :
    daysBeforeMonth year 13 = if isLeapYear year then 366 else 365 := by
  unfold daysBeforeMonth
  cases isLeapYear year <;> rfl

/-- A year has the length of its months. -/
theorem daysBeforeYear_next {year : Nat} (h : 1 ≤ year) :
    daysBeforeYear (year + 1) = daysBeforeYear year + daysBeforeMonth year 13 := by
  obtain ⟨n, rfl⟩ : ∃ n, year = n + 1 := ⟨year - 1, (Nat.sub_add_cancel h).symm⟩
  have hroom : n / 100 ≤ n := Nat.div_le_self n 100
  rw [daysBeforeMonth_thirteen]
  unfold daysBeforeYear isLeapYear
  simp only [Nat.add_sub_cancel, Nat.succ_div, Bool.and_eq_true, Bool.or_eq_true, beq_iff_eq,
    bne_iff_ne, Ne, ← Nat.dvd_iff_mod_eq_zero]
  generalize n / 4 = p, n / 100 = q, n / 400 = r at hroom ⊢
  by_cases h4 : 4 ∣ n + 1
  · by_cases h100 : 100 ∣ n + 1
    · by_cases h400 : 400 ∣ n + 1
      · simp only [h4, h100, h400, if_true, not_true, or_true, and_true]
        omega
      · simp only [h4, h100, h400, if_true, if_false, not_true, or_false, and_false]
        omega
    · have h400 : ¬400 ∣ n + 1 := fun h400 => h100 (Nat.dvd_trans (by decide) h400)
      simp only [h4, h100, h400, if_true, if_false, not_false_eq_true, true_or, and_true]
      omega
  · have h100 : ¬100 ∣ n + 1 := fun h100 => h4 (Nat.dvd_trans (by decide) h100)
    have h400 : ¬400 ∣ n + 1 := fun h400 => h4 (Nat.dvd_trans (by decide) h400)
    simp only [h4, h100, h400, if_false, false_and]
    omega

theorem daysBeforeYear_mono : Monotone daysBeforeYear := by
  refine monotone_nat_of_le_succ fun year => ?_
  rcases Nat.eq_zero_or_pos year with rfl | hpos
  · decide
  · rw [daysBeforeYear_next hpos]
    exact Nat.le_add_right _ _

variable {d e : Date}

theorem IsDay.day_lt (h : d.IsDay) : d.day < 10 ^ 2 := by
  have := h.day_le
  have := daysBeforeMonth_next d.year h.month_pos h.month_le
  omega

/-- A day is one of its year. -/
theorem IsDay.dayNumber_le (h : d.IsDay) : d.dayNumber ≤ daysBeforeYear (d.year + 1) := by
  have hday := h.day_le
  have hmonth := h.month_le
  have hlast := daysBeforeMonth_mono d.year (show d.month + 1 ≤ 13 by omega)
  rw [dayNumber_eq, daysBeforeYear_next h.year_pos]
  omega

/-- The year decides first, then the month, then the day. -/
def Precedes (d e : Date) : Prop :=
  d.year < e.year ∨ d.year = e.year ∧ (d.month < e.month ∨ d.month = e.month ∧ d.day < e.day)

theorem dayNumber_lt_of_precedes (hd : d.IsDay) (he : e.IsDay) (h : d.Precedes e) :
    d.dayNumber < e.dayNumber := by
  rcases h with hyear | ⟨hyear, hmonth | ⟨hmonth, hday⟩⟩
  · have hle := daysBeforeYear_mono (show d.year + 1 ≤ e.year from hyear)
    have hlast := hd.dayNumber_le
    have hpos := he.day_pos
    rw [dayNumber_eq e]
    omega
  · have hle := daysBeforeMonth_mono d.year (show d.month + 1 ≤ e.month from hmonth)
    have hlast := hd.day_le
    have hpos := he.day_pos
    rw [dayNumber_eq, dayNumber_eq, ← hyear]
    omega
  · rw [dayNumber_eq, dayNumber_eq, hyear, hmonth]
    omega

theorem precedes_cases (d e : Date) : d.Precedes e ∨ d = e ∨ e.Precedes d := by
  unfold Precedes
  cases d
  cases e
  simp only [Date.mk.injEq]
  omega

/-- Days are counted in the order of the calendar. -/
theorem dayNumber_lt_iff (hd : d.IsDay) (he : e.IsDay) :
    d.dayNumber < e.dayNumber ↔ d.Precedes e := by
  refine ⟨fun h => ?_, dayNumber_lt_of_precedes hd he⟩
  rcases precedes_cases d e with hbefore | rfl | hafter
  · exact hbefore
  · exact (Nat.lt_irrefl _ h).elim
  · exact (Nat.lt_asymm h (dayNumber_lt_of_precedes he hd hafter)).elim

theorem dayNumber_inj (hd : d.IsDay) (he : e.IsDay) : d.dayNumber = e.dayNumber ↔ d = e := by
  refine ⟨fun h => ?_, fun h => h ▸ rfl⟩
  rcases precedes_cases d e with hbefore | heq | hafter
  · exact (Nat.ne_of_lt (dayNumber_lt_of_precedes hd he hbefore) h).elim
  · exact heq
  · exact (Nat.ne_of_gt (dayNumber_lt_of_precedes he hd hafter) h).elim

theorem toList_iso (d : Date) : d.iso.toList = (padded 4 d.year).toList ++
    '-' :: ((padded 2 d.month).toList ++ '-' :: (padded 2 d.day).toList) := by
  simp [iso, String.toList_append]

theorem mem_iso {c : Char} (h : c ∈ d.iso.toList) : IsDashed c := by
  rw [toList_iso, List.mem_append, List.mem_cons, List.mem_append, List.mem_cons] at h
  rcases h with h | rfl | h | rfl | h
  · exact Or.inr (isDigit_of_mem_padded c h)
  · exact Or.inl rfl
  · exact Or.inr (isDigit_of_mem_padded c h)
  · exact Or.inl rfl
  · exact Or.inr (isDigit_of_mem_padded c h)

theorem iso_ne_empty (d : Date) : d.iso ≠ "" := by
  simp [iso]

theorem IsDay.length_iso (h : d.IsDay) : d.iso.toList.length = 10 := by
  have hyear : d.year < 10 ^ 4 := Nat.lt_of_le_of_lt h.year_le (by decide)
  have hmonth : d.month < 10 ^ 2 := Nat.lt_of_le_of_lt h.month_le (by decide)
  simp only [toList_iso, List.length_append, List.length_cons, length_padded (by decide) hyear,
    length_padded (by decide) hmonth, length_padded (by decide) h.day_lt]

/-- Written dates are in the order of the days. -/
theorem iso_lt_iff (hd : d.IsDay) (he : e.IsDay) :
    d.iso.toList < e.iso.toList ↔ d.dayNumber < e.dayNumber := by
  have hyear : ∀ {d : Date}, d.IsDay → d.year < 10 ^ 4 :=
    fun h => Nat.lt_of_le_of_lt h.year_le (by decide)
  have hmonth : ∀ {d : Date}, d.IsDay → d.month < 10 ^ 2 :=
    fun h => Nat.lt_of_le_of_lt h.month_le (by decide)
  rw [dayNumber_lt_iff hd he, Precedes, toList_iso, toList_iso, append_lt_append_iff,
    List.cons_lt_cons_self, append_lt_append_iff, List.cons_lt_cons_self,
    padded_lt_iff (by decide) (hyear hd) (hyear he), padded_eq_iff,
    padded_lt_iff (by decide) (hmonth hd) (hmonth he), padded_eq_iff,
    padded_lt_iff (by decide) hd.day_lt he.day_lt]
  · rw [length_padded (by decide) (hmonth hd), length_padded (by decide) (hmonth he)]
  · rw [length_padded (by decide) (hyear hd), length_padded (by decide) (hyear he)]

theorem iso_eq_iff (hd : d.IsDay) (he : e.IsDay) : d.iso.toList = e.iso.toList ↔ d = e := by
  refine ⟨fun h => ?_, fun h => h ▸ rfl⟩
  rw [← dayNumber_inj hd he]
  refine Nat.le_antisymm ?_ ?_
  · rw [← Nat.not_lt, ← iso_lt_iff he hd, h]
    exact List.lt_irrefl _
  · rw [← Nat.not_lt, ← iso_lt_iff hd he, h]
    exact List.lt_irrefl _

theorem fold_iso (d : Date) : fold d.iso.toList = d.iso.toList := by
  rw [fold, List.flatMap_congr fun c hc => (mem_iso hc).foldChar_eq, List.flatMap_singleton']

theorem comparable_iso (d : Date) : comparable d.iso.toList = d.iso.toList := by
  rw [comparable, d.noBlank_iso.strip_eq_self, fold_iso]

theorem undecorated_iso (d : Date) : Datum.undecorated d.iso = d.iso.toList := by
  have hnot : ∀ c ∈ d.iso.toList, c ≠ ',' ∧ c ≠ '$' ∧ c ≠ '%' := by
    intro c hc
    have hrange := (mem_iso hc).toNat
    refine ⟨?_, ?_, ?_⟩ <;> rintro rfl <;> revert hrange <;> decide
  have hfilter : d.iso.toList.filter (fun c => c != ',' && c != '$') = d.iso.toList := by
    rw [List.filter_eq_self]
    intro c hc
    simp [hnot c hc]
  rw [Datum.undecorated, d.noBlank_iso.strip_eq_self, hfilter, trimEnd_eq_self]
  intro c hc
  exact beq_eq_false_iff_ne.mpr (hnot c (List.mem_of_mem_getLast? hc)).2.2

theorem spelledNumber?_iso (d : Date) : Datum.spelledNumber? d.iso = none := by
  have hyear : (padded 4 d.year).toList ≠ [] := by
    rw [toList_padded]
    exact List.append_ne_nil_of_right_ne_nil _ Nat.toDigits_ne_nil
  have hdigits : ∀ c ∈ (padded 4 d.year).toList, c.isDigit = true := isDigit_of_mem_padded
  have hrest : ∀ c ∈ (padded 2 d.month).toList ++ '-' :: (padded 2 d.day).toList,
      IsDashed c := by
    intro c hc
    apply mem_iso (d := d)
    rw [toList_iso]
    exact List.mem_append_right _ (List.mem_cons_of_mem _ hc)
  obtain ⟨first, year, hcons⟩ := List.exists_cons_of_ne_nil hyear
  rw [hcons] at hdigits
  rw [Datum.spelledNumber?, undecorated_iso, toList_iso, hcons, real?_dashed hdigits hrest]
  rfl

end Date

end Cardfolio
