import Cardfolio.Proofs.Number.Numerals
import Cardfolio.Proofs.Number.Order
import Cardfolio.Proofs.Number.Rounding
import Cardfolio.Proofs.Pattern.Occurrence
import Cardfolio.Proofs.Pattern.Phrases
import Cardfolio.Proofs.Success

/-!
# What is read as an amount

Every mark of an amount has its number as a named piece, and what the piece spells has one
form: digits and separators, then perhaps a fraction of digits (`IsWritten`). Without the
separators this is a numeral, so an amount is always the double of a decimal, in its
settled form, and never the double that is no number. It is none when the decimal is at most
half of the smallest double, for then it is read as zero (`IsNaught`).

There is one way in which reading an amount fails. The k multiplies by a thousand, and the
product of a whole amount must be in range. It is, unless the number has more than 305
digits before its point, and these digits stand side by side in the text.
-/

namespace Cardfolio.Amount

open Pattern Text Numeral

/-- Digits and separators, and the digits of a fraction behind a point. -/
structure IsWritten (raw ds fs : List Char) : Prop where
  eq : raw = ds ++ pointed fs
  whole : ∀ c ∈ ds, c = ',' ∨ isDecimalDigit c = true
  fraction : ∀ c ∈ fs, isDecimalDigit c = true

theorem exists_pointed_of_spells {p : Pattern} {s : List Char} (hp : p.mayBeEmpty = false)
    (h : (maybe (seq (spelled ".") p)).Spells s) :
    ∃ fs, s = pointed fs ∧ (maybe p).Spells fs := by
  rcases spells_maybe.mp h with ⟨a, r, ha, hr, rfl⟩ | rfl
  · obtain ⟨f, fs, rfl⟩ := List.exists_cons_of_ne_nil (ne_nil_of_spells hp hr)
    rw [spells_spelled ha]
    exact ⟨f :: fs, rfl, Or.inl hr⟩
  · exact ⟨[], rfl, Or.inr rfl⟩

theorem isWritten_of_spells_plain {s : List Char} (h : plain.Spells s) :
    ∃ ds fs, IsWritten s ds fs ∧ ∀ c ∈ ds, isDecimalDigit c = true := by
  obtain ⟨ds, r, ⟨_, hds⟩, hr, rfl⟩ := h
  obtain ⟨fs, rfl, hfs⟩ := exists_pointed_of_spells rfl hr
  exact ⟨ds, fs, ⟨rfl, fun c hc => Or.inr (hds c hc), spells_many.mp hfs⟩, hds⟩

/-- Behind separators there are no more than two decimal places. -/
theorem isWritten_of_spells_grouped {s : List Char} (h : grouped.Spells s) :
    ∃ ds fs, IsWritten s ds fs ∧ fs.length ≤ 2 := by
  obtain ⟨ds, r, ⟨_, hds⟩, hr, rfl⟩ := h
  obtain ⟨fs, rfl, hfs⟩ := exists_pointed_of_spells rfl hr
  have hplaces : (∀ c ∈ fs, isDecimalDigit c = true) ∧ fs.length ≤ 2 := by
    rcases spells_maybe.mp hfs with ⟨a, b, ⟨c, hc, rfl⟩, hb, rfl⟩ | rfl
    · rcases spells_maybe.mp hb with ⟨d, hd, rfl⟩ | rfl
      · exact ⟨List.forall_mem_cons.mpr ⟨hc, List.forall_mem_singleton.mpr hd⟩, Nat.le_refl 2⟩
      · exact ⟨List.forall_mem_singleton.mpr hc, Nat.le_succ 1⟩
    · exact ⟨fun _ hc => (List.not_mem_nil hc).elim, Nat.zero_le 2⟩
  refine ⟨ds, fs, ⟨rfl, fun c hc => ?_, hplaces.1⟩, hplaces.2⟩
  have := hds c hc
  simp only [CharClass.accepts, Bool.or_eq_true, beq_iff_eq] at this
  exact this.symm

/-! ## Its amount -/

theorem ne_comma_of_isDecimalDigit {c : Char} (h : isDecimalDigit c = true) : c ≠ ',' := by
  rintro rfl
  exact absurd h (by decide)

/-- Without its separators, a number is a numeral. -/
theorem IsWritten.filter_eq {raw ds fs : List Char} (h : IsWritten raw ds fs) :
    raw.filter (· != ',') = ds.filter (· != ',') ++ pointed fs := by
  have hpointed : (pointed fs).filter (· != ',') = pointed fs := by
    rw [List.filter_eq_self]
    intro c hc
    rw [bne_iff_ne]
    rcases mem_pointed hc with rfl | hc
    · decide
    · exact ne_comma_of_isDecimalDigit (h.fraction c hc)
  rw [h.eq, List.filter_append, hpointed]

theorem IsWritten.digits {raw ds fs : List Char} (h : IsWritten raw ds fs) :
    ∀ c ∈ ds.filter (· != ','), isDecimalDigit c = true := by
  intro c hc
  obtain ⟨hc, hcomma⟩ := List.mem_filter.mp hc
  exact (h.whole c hc).resolve_left (by simpa using hcomma)

theorem IsWritten.real?_eq {raw ds fs : List Char} (h : IsWritten raw ds fs) :
    real? (raw.filter (· != ',')) =
      if ds.filter (· != ',') ++ fs = [] then none
      else some (.ofDecimal false (value ((ds.filter (· != ',') ++ fs).map plainDigit))
        (-(fs.length : Int))) := by
  rw [h.filter_eq]
  split
  · next hnil =>
      obtain ⟨hds, rfl⟩ := List.append_eq_nil_iff.mp hnil
      rw [hds]
      decide
  · next hne => exact real?_pointed h.digits h.fraction hne

/-- Among the doubles of decimals without a sign, only zero is at most zero. -/
theorem le_zero_ofDecimal (digits : Nat) (exponent : Int) :
    (Number.real (.ofDecimal false digits exponent)).le (.whole 0)
      = (Binary64.ofDecimal false digits exponent).isZero := by
  have hzero : (Number.whole 0).place? = some (.units 0) :=
    congrArg (fun n => some (Place.units n)) (Int.zero_mul _)
  rcases Binary64.ofDecimal_false_cases digits exponent with ⟨units, hr, h⟩ | h
  · have hplace : (Number.real (.finite false units hr)).place? = some (.units units) := rfl
    rw [h, Number.le, Number.lt_eq hplace hzero, Number.same_eq hplace hzero]
    show (decide ((units : Int) < 0) || decide (Place.units units = .units 0)) = (units == 0)
    rw [Bool.eq_iff_iff, Bool.or_eq_true, decide_eq_true_eq, decide_eq_true_eq, beq_iff_eq,
      Place.units.injEq]
    omega
  · rw [h, Number.le, Number.lt_eq rfl hzero, Number.same_eq rfl hzero]
    rfl

/-- The amount of a number is its decimal in settled form, unless that is zero. -/
theorem IsWritten.ofDigits?_eq {raw ds fs : List Char} (h : IsWritten raw ds fs) {x : Binary64}
    (hx : .ofDecimal false (value ((ds.filter (· != ',') ++ fs).map plainDigit))
      (-(fs.length : Int)) = x) :
    ofDigits? raw = if x.isZero then none else some (.settle x) := by
  subst hx
  unfold ofDigits?
  rw [h.real?_eq]
  split
  · next hnil =>
      have hvalue : value ([].map plainDigit) = 0 := rfl
      rw [hnil, hvalue, if_pos (Binary64.isZero_ofDecimal_zero _)]
      rfl
  · simp only [Option.bind_eq_bind, Option.bind_some, le_zero_ofDecimal]

theorem IsWritten.ofDigits?_eq_some {raw ds fs : List Char} (h : IsWritten raw ds fs)
    {n : Number} (hn : ofDigits? raw = some n) :
    n = .settle (.ofDecimal false (value ((ds.filter (· != ',') ++ fs).map plainDigit))
      (-(fs.length : Int))) := by
  rw [h.ofDigits?_eq rfl] at hn
  split at hn
  · cases hn
  · exact (Option.some.inj hn).symm

/-- A number without digits, or one of at most half a unit. -/
def IsNaught (raw : List Char) : Prop :=
  ∃ ds fs, IsWritten raw ds fs ∧
    2 * (value ((ds.filter (· != ',') ++ fs).map plainDigit) * Binary64.one) ≤ 10 ^ fs.length

/-- Such a number is read as zero, and no other. -/
theorem ofDigits?_eq_none_iff {raw : List Char} (h : ∃ ds fs, IsWritten raw ds fs) :
    ofDigits? raw = none ↔ IsNaught raw := by
  constructor
  · intro hnone
    obtain ⟨ds, fs, hwritten⟩ := h
    refine ⟨ds, fs, hwritten, ?_⟩
    rw [hwritten.ofDigits?_eq rfl] at hnone
    split at hnone
    · next hzero => exact (Binary64.isZero_ofDecimal_iff _ _).mp hzero
    · cases hnone
  · rintro ⟨ds, fs, hwritten, hle⟩
    rw [hwritten.ofDigits?_eq rfl, if_pos ((Binary64.isZero_ofDecimal_iff _ _).mpr hle)]

theorem IsWritten.isNaught {raw ds fs : List Char} (h : IsWritten raw ds fs)
    (hzero : ∀ c ∈ raw, isDecimalDigit c = true → c = '0') : IsNaught raw := by
  have hdigits : ∀ c ∈ (ds.filter (· != ',') ++ fs).map plainDigit, c = '0' := by
    rw [List.forall_mem_map]
    intro c hc
    obtain rfl : c = '0' := by
      rw [h.eq] at hzero
      rcases List.mem_append.mp hc with hc | hc
      · exact hzero c (List.mem_append_left _ (List.mem_filter.mp hc).1) (h.digits c hc)
      · exact hzero c (List.mem_append_right _ (subset_pointed fs hc)) (h.fraction c hc)
    rfl
  refine ⟨ds, fs, h, ?_⟩
  rw [value_eq_zero hdigits, Nat.zero_mul]
  exact Nat.zero_le _

theorem toInt?_of_settle {x : Binary64} {n : Int} (h : Number.settle x = .whole n) :
    x.toInt? = some n := by
  unfold Number.settle at h
  split at h
  · next hm => rw [hm, Number.whole.inj h]
  · cases h

theorem IsWritten.isNaN_eq {raw ds fs : List Char} (h : IsWritten raw ds fs) {n : Number}
    (hn : ofDigits? raw = some n) : n.isNaN = false := by
  rw [h.ofDigits?_eq_some hn]
  exact (Number.isNaN_settle _).trans (Binary64.isNaN_ofDecimal _ _ _)

/-! ## Marks -/

theorem parts_spelled (w : String) : (spelled w).parts = [] :=
  parts_letters w.toList CharClass.exactly

/-- A pattern with a number in it, and the pattern of the number. -/
structure IsMark (mark number : Pattern) : Prop where
  parts : mark.parts = [("number", number)]
  sure : "number" ∈ mark.sureNames
  written : ∀ {s}, number.Spells s → ∃ ds fs, IsWritten s ds fs

theorem isMark_thousands : IsMark thousands plain where
  parts := by simp [thousands, Pattern.sequence, parts, parts_spelled, room, many, maybe, plain]
  sure := by simp [thousands, Pattern.sequence, sureNames]
  written h :=
    have ⟨ds, fs, hwritten, _⟩ := isWritten_of_spells_plain h
    ⟨ds, fs, hwritten⟩

theorem isMark_of_grouped {mark : Pattern} (hparts : mark.parts = [("number", grouped)])
    (hsure : "number" ∈ mark.sureNames) : IsMark mark grouped where
  parts := hparts
  sure := hsure
  written h :=
    have ⟨ds, fs, hwritten, _⟩ := isWritten_of_spells_grouped h
    ⟨ds, fs, hwritten⟩

theorem isMark_dollarSign : IsMark dollarSign grouped :=
  isMark_of_grouped
    (by simp [dollarSign, Pattern.sequence, parts, parts_spelled, room, many, maybe, grouped])
    (by simp [dollarSign, Pattern.sequence, sureNames])

theorem isMark_currencyWord : IsMark currencyWord grouped :=
  isMark_of_grouped
    (by simp [currencyWord, Pattern.sequence, parts, parts_spelled, room, many, maybe, anyOf,
      grouped])
    (by simp [currencyWord, Pattern.sequence, sureNames])

theorem isMark_bare : IsMark bare grouped :=
  isMark_of_grouped (by simp [bare, Pattern.sequence, parts, parts_spelled, maybe, grouped])
    (by simp [bare, Pattern.sequence, sureNames])

variable {mark number : Pattern}

theorem IsMark.spells (hmark : IsMark mark number) {text : List Char} {m : Match}
    (h : mark.Occurs text m) :
    number.Spells (m.pieceText "number") ∧ m.pieceText "number" <:+: text := by
  obtain ⟨q, hq, hspells, hwithin⟩ := h.exists_part hmark.sure
  rw [hmark.parts, List.mem_singleton, Prod.mk.injEq] at hq
  exact ⟨hq.2 ▸ hspells, hwithin.trans h.isInfix_text⟩

theorem IsMark.isWritten (hmark : IsMark mark number) {text : List Char} {m : Match}
    (h : mark.Occurs text m) : ∃ ds fs, IsWritten (m.pieceText "number") ds fs :=
  hmark.written (hmark.spells h).1

theorem IsMark.ofMatch?_eq_none_iff (hmark : IsMark mark number) {text : List Char} {m : Match}
    (h : mark.Occurs text m) : ofMatch? m = none ↔ IsNaught (m.pieceText "number") :=
  ofDigits?_eq_none_iff (hmark.isWritten h)

/-- Where there are only zeros, there is no amount. -/
theorem IsMark.isNaught (hmark : IsMark mark number) {text : List Char} {m : Match}
    (h : mark.Occurs text m) (hzero : ∀ c ∈ text, isDecimalDigit c = true → c = '0') :
    IsNaught (m.pieceText "number") := by
  obtain ⟨ds, fs, hwritten⟩ := hmark.isWritten h
  have hsubset : m.pieceText "number" ⊆ text := (hmark.spells h).2.subset
  exact hwritten.isNaught fun c hc => hzero c (hsubset hc)

theorem IsMark.isNaN_eq (hmark : IsMark mark number) {text : List Char} {m : Match}
    (h : mark.Occurs text m) {n : Number} (hn : ofMatch? m = some n) : n.isNaN = false := by
  obtain ⟨ds, fs, hwritten⟩ := hmark.isWritten h
  exact hwritten.isNaN_eq hn

theorem exists_occurs_of_marked? {mark : Pattern} {text : List Char} {n : Number}
    (h : marked? mark text = some n) : ∃ m, mark.Occurs text m ∧ ofMatch? m = some n := by
  obtain ⟨m, hm, hn⟩ := Option.bind_eq_some_iff.mp h
  exact ⟨m, occurs_of_find? hm, hn⟩

theorem IsMark.marked?_eq_none_iff (hmark : IsMark mark number) {text : List Char} :
    marked? mark text = none ↔
      ∀ m, mark.find? text = some m → IsNaught (m.pieceText "number") := by
  rw [marked?, Option.bind_eq_none_iff]
  exact forall₂_congr fun m hm => hmark.ofMatch?_eq_none_iff (occurs_of_find? hm)

theorem IsMark.marked?_eq_none (hmark : IsMark mark number) {text : List Char}
    (hzero : ∀ c ∈ text, isDecimalDigit c = true → c = '0') : marked? mark text = none :=
  hmark.marked?_eq_none_iff.mpr fun _ hm => hmark.isNaught (occurs_of_find? hm) hzero

theorem bare?_eq_none_iff {minDigits : Int} {text : List Char} :
    bare? minDigits text = none ↔
      ∀ m ∈ bare.findAll text, max minDigits 1 ≤ wholeDigits (m.pieceText "number") →
        IsNaught (m.pieceText "number") := by
  rw [bare?, List.findSome?_eq_none_iff]
  refine forall₂_congr fun m hm => ?_
  rw [← isMark_bare.ofMatch?_eq_none_iff (occurs_of_mem_findAll hm)]
  split
  · next hfew => exact ⟨fun _ hmany => (Int.not_le.mpr hfew hmany).elim, fun _ => rfl⟩
  · next hmany => exact ⟨fun h _ => h, fun h => h (Int.not_lt.mp hmany)⟩

theorem bare?_eq_none {minDigits : Int} {text : List Char}
    (hzero : ∀ c ∈ text, isDecimalDigit c = true → c = '0') : bare? minDigits text = none :=
  bare?_eq_none_iff.mpr fun _ hm _ => isMark_bare.isNaught (occurs_of_mem_findAll hm) hzero

/-- A mark is not found where a character is missing that all its spellings have. -/
theorem marked?_eq_none_of_spells {mark : Pattern} {P : Char → Prop}
    (hmark : ∀ s, mark.Spells s → ∃ c ∈ s, P c) {text : List Char} (htext : ∀ c ∈ text, ¬ P c) :
    marked? mark text = none := by
  rw [Option.eq_none_iff_forall_ne_some]
  intro n h
  obtain ⟨m, hm, _⟩ := exists_occurs_of_marked? h
  obtain ⟨c, hc, hP⟩ := hmark m.text hm.spells
  exact htext c (hm.isInfix_text.subset hc) hP

theorem ofInt?_thousand : Binary64.ofInt? 1000 = some (.nearest false 1000 1) := by
  decide +kernel

theorem toReal_thousand : (Number.whole 1000).toReal = .ok (.nearest false 1000 1) := by
  rw [Number.toReal, ofInt?_thousand]
  rfl

theorem exists_thousand : ∃ units hr, Binary64.nearest false 1000 1 = .finite false units hr ∧
    4 * Binary64.one ≤ units := by
  have hbound : Binary64.roundUnits (1000 * Binary64.one) 1 < Binary64.bound := by
    decide +kernel
  have hle : 4 * Binary64.one ≤ Binary64.roundUnits (1000 * Binary64.one) 1 := by
    decide +kernel
  unfold Binary64.nearest Binary64.nearestUnits
  rw [dif_pos hbound]
  exact ⟨_, _, rfl, hle⟩

theorem thousandfold_real (x : Binary64) :
    thousandfold (.real x) = .ok (.settle (x.mul (.nearest false 1000 1))) := by
  have hproduct : (Number.real x).mul (.whole 1000)
      = .ok (.real (x.mul (.nearest false 1000 1))) :=
    bind_eq_ok.mpr ⟨x, rfl, bind_eq_ok.mpr ⟨_, toReal_thousand, rfl⟩⟩
  exact bind_eq_ok.mpr ⟨_, hproduct, rfl⟩

theorem thousandfold_whole {n : Int} (h : (Binary64.ofInt? (n * 1000)).isSome = true) :
    thousandfold (.whole n) = .ok (.whole (n * 1000)) := by
  obtain ⟨x, hx⟩ := Option.isSome_iff_exists.mp h
  have hreal : (Number.whole (n * 1000)).toReal = .ok x := by
    rw [Number.toReal, hx]
    rfl
  exact bind_eq_ok.mpr ⟨.whole (n * 1000), rfl, bind_eq_ok.mpr ⟨x, hreal, rfl⟩⟩

theorem thousandfold_whole_eq_error {n : Int} (h : Binary64.ofInt? (n * 1000) = none) :
    thousandfold (.whole n) = .error .overflow := by
  have hreal : (Number.whole (n * 1000)).toReal = .error .overflow := by
    rw [Number.toReal, h]
    rfl
  exact bind_eq_error.mpr (Or.inr ⟨.whole (n * 1000), rfl, bind_eq_error.mpr (Or.inl hreal)⟩)

/-- Only the product of a whole amount can be out of range. -/
theorem thousandfold_eq_error {amount : Number} {f : Fault} (h : thousandfold amount = .error f) :
    f = .overflow ∧ ∃ n, amount = .whole n ∧ Binary64.ofInt? (n * 1000) = none := by
  cases amount with
  | real x =>
      rw [thousandfold_real] at h
      cases h
  | whole n =>
      cases hn : Binary64.ofInt? (n * 1000) with
      | some x =>
          rw [thousandfold_whole (by rw [hn]; rfl)] at h
          cases h
      | none =>
          rw [thousandfold_whole_eq_error hn] at h
          exact ⟨(Except.error.inj h).symm, n, rfl, hn⟩

theorem isNaN_mul_thousand {x : Binary64} (hx : x.isNaN = false) :
    (x.mul (.nearest false 1000 1)).isNaN = false := by
  have hthousand : (Binary64.nearest false 1000 1).inRange?.isSome = true ∧
      (Binary64.nearest false 1000 1).isNaN = false ∧
      (Binary64.nearest false 1000 1).isZero = false := by
    decide +kernel
  generalize Binary64.nearest false 1000 1 = y at hthousand
  obtain ⟨hrange, hnumber, hzero⟩ := hthousand
  cases y with
  | nan => cases hnumber
  | infinite sign => cases hrange
  | finite sign units hr =>
      cases x with
      | nan => cases hx
      | infinite sign' =>
          have hunits : units ≠ 0 := by simpa [Binary64.isZero] using hzero
          show (if units = 0 then Binary64.nan none else _).isNaN = false
          rw [if_neg hunits]
          rfl
      | finite sign' units' hr' => exact Binary64.isNaN_nearestUnits _ _ _

theorem isNaN_thousandfold {amount n : Number} (hamount : amount.isNaN = false)
    (h : thousandfold amount = .ok n) : n.isNaN = false := by
  cases amount with
  | real x =>
      rw [thousandfold_real] at h
      rw [← Except.ok.inj h]
      exact (Number.isNaN_settle _).trans (isNaN_mul_thousand hamount)
  | whole k =>
      cases hk : Binary64.ofInt? (k * 1000) with
      | some x =>
          rw [thousandfold_whole (by rw [hk]; rfl)] at h
          rw [← Except.ok.inj h]
          rfl
      | none =>
          rw [thousandfold_whole_eq_error hk] at h
          cases h

/-- A number whose thousandfold is out of range has many digits before its point. -/
theorem lt_length_of_overflow {ds fs : List Char} (hds : ∀ c ∈ ds, isDecimalDigit c = true)
    (hfs : ∀ c ∈ fs, isDecimalDigit c = true) {n : Int}
    (hn : Number.settle (.ofDecimal false (value ((ds ++ fs).map plainDigit))
      (-(fs.length : Int))) = .whole n)
    (h : Binary64.ofInt? (n * 1000) = none) : 305 < ds.length := by
  by_contra hlength
  have hdigits : ∀ c ∈ (ds ++ fs).map plainDigit, c.isDigit = true := by
    rw [List.forall_mem_map, List.forall_mem_append]
    exact ⟨fun c hc => isDigit_plainDigit (hds c hc), fun c hc => isDigit_plainDigit (hfs c hc)⟩
  have hvalue : value ((ds ++ fs).map plainDigit) < Binary64.wide * 10 ^ fs.length := by
    calc value ((ds ++ fs).map plainDigit)
        < 10 ^ ((ds ++ fs).map plainDigit).length := value_lt hdigits
      _ = 10 ^ ds.length * 10 ^ fs.length := by
          rw [List.length_map, List.length_append, Nat.pow_add]
      _ ≤ Binary64.wide * 10 ^ fs.length :=
          Nat.mul_le_mul_right _ (Binary64.pow_le_wide (by omega))
  have hsome := Binary64.ofInt?_thousandfold_ofDecimal hvalue (toInt?_of_settle hn)
  rw [h] at hsome
  cases hsome

/-! ## The first amount -/

/-- The marks in their order, and a bare number when there is none. -/
theorem first_eq (minDigits : Int) (allowThousands : Bool) (text : List Char) :
    first minDigits allowThousands text =
      match marked? dollarSign (lower text) with
      | some amount => .ok (some amount)
      | none => inThousands? allowThousands (lower text) >>= fun found => .ok (found.or
          ((marked? currencyWord (lower text)).or (bare? minDigits (lower text)))) := by
  unfold first
  dsimp only
  cases marked? dollarSign (lower text) with
  | some amount => rfl
  | none =>
      cases inThousands? allowThousands (lower text) with
      | error f => rfl
      | ok found =>
          cases found with
          | some amount => rfl
          | none =>
              cases marked? currencyWord (lower text) with
              | some amount => rfl
              | none => rfl

theorem inThousands?_cases (allowed : Bool) (text : List Char) :
    inThousands? allowed text = .ok none ∨
      ∃ amount, marked? thousands text = some amount ∧
        inThousands? allowed text = some <$> thousandfold amount := by
  unfold inThousands?
  split
  · next amount hamount =>
      split at hamount
      · exact Or.inr ⟨amount, hamount, rfl⟩
      · cases hamount
  · exact Or.inl rfl

/-- The first amount is that of a mark, or a thousand times the one before a k. -/
theorem first_cases {minDigits : Int} {allowThousands : Bool} {text : List Char} {n : Number}
    (h : first minDigits allowThousands text = .ok (some n)) :
    (∃ mark m, IsMark mark grouped ∧ mark.Occurs (lower text) m ∧ ofMatch? m = some n) ∨
      ∃ m amount, thousands.Occurs (lower text) m ∧ ofMatch? m = some amount ∧
        thousandfold amount = .ok n := by
  rw [first_eq] at h
  split at h
  · next amount hamount =>
      obtain rfl := Option.some.inj (Except.ok.inj h)
      obtain ⟨m, hm, hn⟩ := exists_occurs_of_marked? hamount
      exact Or.inl ⟨_, m, isMark_dollarSign, hm, hn⟩
  · obtain ⟨found, hfound, h⟩ := bind_eq_ok.mp h
    rcases Option.or_eq_some_iff.mp (Except.ok.inj h) with rfl | ⟨rfl, hrest⟩
    · rcases inThousands?_cases allowThousands (lower text) with hnone | ⟨amount, hamount, heq⟩
      · rw [hnone] at hfound
        cases hfound
      · rw [heq] at hfound
        obtain ⟨n', hn', hsome⟩ := map_eq_ok.mp hfound
        obtain rfl := Option.some.inj hsome
        obtain ⟨m, hm, hn⟩ := exists_occurs_of_marked? hamount
        exact Or.inr ⟨m, amount, hm, hn, hn'⟩
    · rcases Option.or_eq_some_iff.mp hrest with hword | ⟨_, hbare⟩
      · obtain ⟨m, hm, hn⟩ := exists_occurs_of_marked? hword
        exact Or.inl ⟨_, m, isMark_currencyWord, hm, hn⟩
      · obtain ⟨m, hm, hn⟩ := List.exists_of_findSome?_eq_some hbare
        split at hn
        · cases hn
        · exact Or.inl ⟨_, m, isMark_bare, occurs_of_mem_findAll hm, hn⟩

theorem isNaN_first {minDigits : Int} {allowThousands : Bool} {text : List Char} {n : Number}
    (h : first minDigits allowThousands text = .ok (some n)) : n.isNaN = false := by
  rcases first_cases h with ⟨mark, m, hmark, hm, hn⟩ | ⟨m, amount, hm, hamount, hn⟩
  · exact hmark.isNaN_eq hm hn
  · exact isNaN_thousandfold (isMark_thousands.isNaN_eq hm hamount) hn

/-- A thousand times a number in a text is out of range only if the number has more than 305
digits. -/
theorem exists_run_of_thousandfold_eq_error {text : List Char} {m : Match}
    (hm : thousands.Occurs text m) {amount : Number} (hamount : ofMatch? m = some amount)
    {f : Fault} (h : thousandfold amount = .error f) :
    f = .overflow ∧ ∃ run, run <:+: text ∧ 305 < run.length ∧
      ∀ c ∈ run, isDecimalDigit c = true := by
  obtain ⟨hf, n, rfl, hoverflow⟩ := thousandfold_eq_error h
  obtain ⟨hspells, hwithin⟩ := isMark_thousands.spells hm
  obtain ⟨ds, fs, hwritten, hds⟩ := isWritten_of_spells_plain hspells
  have hfilter : ds.filter (· != ',') = ds :=
    List.filter_eq_self.mpr fun c hc =>
      bne_iff_ne.mpr (ne_comma_of_isDecimalDigit (hds c hc))
  have hsettle := hwritten.ofDigits?_eq_some hamount
  rw [hfilter] at hsettle
  refine ⟨hf, ds, ?_, lt_length_of_overflow hds hwritten.fraction hsettle.symm hoverflow, hds⟩
  have hbegin : ds <:+: m.pieceText "number" :=
    hwritten.eq ▸ (List.prefix_append ds (pointed fs)).isInfix
  exact hbegin.trans hwithin

/-- Reading an amount fails only when a thousand times a number of more than 305 digits
is asked for. -/
theorem exists_run_of_first_eq_error {minDigits : Int} {allowThousands : Bool}
    {text : List Char} {f : Fault} (h : first minDigits allowThousands text = .error f) :
    f = .overflow ∧ ∃ run, run <:+: lower text ∧ 305 < run.length ∧
      ∀ c ∈ run, isDecimalDigit c = true := by
  rw [first_eq] at h
  split at h
  · cases h
  · rcases bind_eq_error.mp h with h | ⟨_, _, h⟩
    · rcases inThousands?_cases allowThousands (lower text) with hnone | ⟨amount, hamount, heq⟩
      · rw [hnone] at h
        cases h
      · rw [heq, map_eq_error] at h
        obtain ⟨m, hm, hn⟩ := exists_occurs_of_marked? hamount
        exact exists_run_of_thousandfold_eq_error hm hn h
    · cases h

end Cardfolio.Amount
