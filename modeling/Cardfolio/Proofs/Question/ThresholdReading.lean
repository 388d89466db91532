import Cardfolio.Proofs.Question.Marks
import Cardfolio.Proofs.Question.Threshold

/-!
# When a threshold is read as it is spelled

A threshold is matched by one pattern and then searched for an amount, mark by mark, and the
search is made for amounts in a text. It sees all of a threshold in three cases
(`IsReadInFull`): of thousands, if there is neither a dollar sign, which is looked for first
and takes the number without its k, nor a separator, behind which the number would begin; of
zero, which is no amount and is recognised by a form of its own, if there is no separator;
and of any other number, if it has at most two decimal places. There a threshold is read as
the number that it spells. Elsewhere a part of it may be lost, as the k of `$5k` is.
-/

namespace Cardfolio.Threshold

open Pattern Text Numeral Amount

/-- The thresholds of which the search for an amount sees everything. -/
inductive IsReadInFull (raw : List Char) : Prop
  | thousands (unit : isThousands raw = true) (dollar : '$' ∉ raw) (comma : ',' ∉ raw)
      (positive : (decimal raw).isZero = false) (range : (number raw).toReal.isOk = true)
  | zero (unit : isThousands raw = false) (zeros : ∀ c ∈ digits raw, c = '0') (comma : ',' ∉ raw)
  | few (unit : isThousands raw = false) (positive : ∃ c ∈ digits raw, c ≠ '0')
      (few : places raw ≤ 2)

section

variable {raw : List Char} {n : Number}

theorem threshold?_of_first
    (h : Amount.first 1 true (raw.map fun c => if c = '-' then ' ' else c) = .ok (some n)) :
    Condition.threshold? raw = .ok (some n) := by
  unfold Condition.threshold?
  rw [h]
  rfl

theorem lower_eq_searched :
    lower (raw.map fun c => if c = '-' then ' ' else c) = searched raw := rfl

theorem threshold?_of_dollarSign (h : marked? dollarSign (searched raw) = some n) :
    Condition.threshold? raw = .ok (some n) := by
  refine threshold?_of_first ?_
  rw [first_eq, lower_eq_searched, h]

theorem first_of_no_dollarSign (h : marked? dollarSign (searched raw) = none) :
    Amount.first 1 true (raw.map fun c => if c = '-' then ' ' else c) =
      inThousands? true (searched raw) >>= fun found => .ok (found.or
        ((marked? currencyWord (searched raw)).or (bare? 1 (searched raw)))) := by
  rw [first_eq, lower_eq_searched, h]

theorem threshold?_of_thousands {amount : Number}
    (hdollar : marked? dollarSign (searched raw) = none)
    (h : marked? thousands (searched raw) = some amount) (hn : thousandfold amount = .ok n) :
    Condition.threshold? raw = .ok (some n) := by
  refine threshold?_of_first ?_
  have hthousands : inThousands? true (searched raw) = .ok (some n) := by
    unfold inThousands?
    rw [if_pos rfl, h]
    exact map_eq_ok.mpr ⟨n, hn, rfl⟩
  rw [first_of_no_dollarSign hdollar, hthousands]
  rfl

theorem first_of_no_mark (hdollar : marked? dollarSign (searched raw) = none)
    (hthousands : marked? thousands (searched raw) = none)
    (hword : marked? currencyWord (searched raw) = none) :
    Amount.first 1 true (raw.map fun c => if c = '-' then ' ' else c)
      = .ok (bare? 1 (searched raw)) := by
  have hnone : inThousands? true (searched raw) = .ok none := by
    unfold inThousands?
    rw [if_pos rfl, hthousands]
  rw [first_of_no_dollarSign hdollar, hnone, hword]
  rfl

theorem threshold?_of_zero
    (h : Amount.first 1 true (raw.map fun c => if c = '-' then ' ' else c) = .ok none)
    (hzero : (Condition.zeroThreshold.matchAt (.start raw)).isSome = true) :
    Condition.threshold? raw = .ok (some (.whole 0)) := by
  unfold Condition.threshold?
  rw [h]
  show Except.ok (if (Condition.zeroThreshold.matchAt (.start raw)).isSome = true then _ else _) = _
  rw [if_pos hzero]

end

theorem thousandfold_eq {amount : Number} (h : (thousandTimes amount).toReal.isOk = true) :
    thousandfold amount = .ok (thousandTimes amount) := by
  cases amount with
  | real x => exact thousandfold_real x
  | whole n =>
      refine thousandfold_whole ?_
      cases hn : Binary64.ofInt? (n * 1000) with
      | some x => rfl
      | none =>
          rw [thousandTimes, Number.toReal, hn] at h
          cases h

/-! ## What stands in a searched text -/

section

variable {l : Threshold} {c : Char}

theorem mem_searched (h : c ∈ searched l.text) :
    isBlank c = true ∨ c ∈ l.sign ∨ c ∈ l.first :: l.whole ∨ c ∈ pointed l.fraction ∨
      c ∈ l.smallSuffix ∨ c = '%' := by
  obtain ⟨left, hleft, heq⟩ := l.exists_searched_eq
  rw [heq] at h
  simp only [List.mem_append] at h
  rcases h with h | h | h | h | h | h | h
  · exact Or.inl (hleft c h)
  · exact Or.inr (Or.inl h)
  · exact Or.inl (l.gap_mem c h)
  · exact Or.inr (Or.inr (Or.inl h))
  · exact Or.inr (Or.inr (Or.inr (Or.inl h)))
  · exact Or.inr (Or.inr (Or.inr (Or.inr (Or.inl h))))
  · exact (mem_close h).imp id fun h => Or.inr (Or.inr (Or.inr (Or.inr h)))

theorem dollar_eq_false (h : '$' ∉ l.text) : l.dollar = false := by
  rw [Bool.eq_false_iff]
  intro hdollar
  refine h ?_
  have hmem : '$' ∈ l.sign := by
    rw [sign, if_pos hdollar]
    exact List.mem_cons_self
  simp only [text, List.mem_append, hmem, true_or, or_true]

theorem isDigit_of_no_comma (h : ',' ∉ l.text) : ∀ c ∈ l.first :: l.whole, c.isDigit = true := by
  intro c hc
  refine (mem_whole hc).resolve_left ?_
  rintro rfl
  refine h ?_
  simp only [text, List.mem_append, hc, true_or, or_true]

theorem unit_eq_none (h : isThousands l.text = false) : l.unit = none := by
  rw [isThousands_text, Option.isSome_eq_false_iff] at h
  exact Option.isNone_iff_eq_none.mp h

theorem exists_unit (h : isThousands l.text = true) : ∃ u, l.unit = some u :=
  Option.isSome_iff_exists.mp (l.isThousands_text ▸ h)

theorem mem_smallSuffix (h : c ∈ l.smallSuffix) : isBlank c = true ∨ c = 'k' := by
  unfold smallSuffix at h
  cases hunit : l.unit with
  | none =>
      rw [hunit] at h
      cases h
  | some u =>
      rw [hunit] at h
      exact (List.mem_append.mp h).imp ((l.unit_mem u hunit).1 c) List.mem_singleton.mp

theorem dollar_not_mem_searched (hdollar : l.dollar = false) : '$' ∉ searched l.text := by
  intro h
  rcases mem_searched h with h | h | h | h | h | h
  · cases h
  · rw [sign, hdollar] at h
    cases h
  · exact (mem_whole h).elim (by decide) (by decide)
  · exact (mem_pointed h).elim (by decide) fun h => absurd (l.fraction_mem _ h) (by decide)
  · exact (mem_smallSuffix h).elim (by decide) (by decide)
  · exact absurd h (by decide)

/-- Without a k there are no letters in the searched text. -/
theorem isAlpha_of_mem_searched (hunit : l.unit = none) :
    ∀ c ∈ searched l.text, ¬ c.isAlpha = true := by
  intro c hc halpha
  have hcode : ¬ c.toNat < 65 := by
    have := isAlpha_iff.mp halpha
    omega
  rcases mem_searched hc with h | h | h | h | h | rfl
  · have hletter := (isPlainBlank_of_isBlank h).latinLetter?_eq
    rw [latinLetter?, if_pos halpha] at hletter
    cases hletter
  · rw [mem_sign h] at hcode
    exact hcode (by decide)
  · exact hcode (lt_and_ne_of_mem_whole h).1
  · exact hcode (lt_and_ne_of_mem_fraction h).1
  · rw [smallSuffix, hunit] at h
    cases h
  · exact hcode (by decide)

theorem mem_digits_of_mem_searched (h : c ∈ searched l.text) (hdigit : isDecimalDigit c = true) :
    c ∈ digits l.text := by
  rw [digits_text, List.mem_append]
  rcases mem_searched h with h | h | h | h | h | rfl
  · rw [(isPlainBlank_of_isBlank h).isDecimalDigit_eq] at hdigit
    cases hdigit
  · rw [mem_sign h] at hdigit
    cases hdigit
  · rcases mem_whole h with rfl | hplain
    · cases hdigit
    · exact Or.inl (List.mem_filter.mpr ⟨h, hplain⟩)
  · rcases mem_pointed h with rfl | h
    · cases hdigit
    · exact Or.inr h
  · rcases mem_smallSuffix h with h | rfl
    · rw [(isPlainBlank_of_isBlank h).isDecimalDigit_eq] at hdigit
      cases hdigit
    · cases hdigit
  · cases hdigit

variable (l)

theorem ends_close : Ends l.close := by
  intro c hc
  rcases mem_close (List.mem_of_mem_head? hc) with h | rfl
  · exact ⟨ne_of_isBlank h (by decide), ne_of_isBlank h (by decide),
      (isPlainBlank_of_isBlank h).isDecimalDigit_eq⟩
  · exact ⟨by decide, by decide, by decide⟩

theorem stops_close {k : CharClass} (hblank : ∀ c, isBlank c = true → k.accepts c = false)
    (hpercent : k.accepts '%' = false) : Stops k l.close := by
  intro c hc
  rcases mem_close (List.mem_of_mem_head? hc) with h | rfl
  · exact hblank c h
  · exact hpercent

theorem stops_word_close : Stops .word l.close :=
  l.stops_close (fun _ h => (isPlainBlank_of_isBlank h).isWordChar_eq) (by decide +kernel)

theorem stops_exactly_close {c : Char} (hblank : isBlank c = false) (hpercent : c ≠ '%') :
    Stops (.exactly c) l.close :=
  l.stops_close (fun _ h => beq_eq_false_iff_ne.mpr (ne_of_isBlank h hblank))
    (beq_eq_false_iff_ne.mpr hpercent.symm)

end

/-! ## Marks that are not there -/

section

variable {text : List Char}

theorem marked?_dollarSign_eq_none (h : '$' ∉ text) : marked? dollarSign text = none := by
  refine marked?_eq_none_of_spells (P := (· = '$')) ?_ fun c hc hdollar => h (hdollar ▸ hc)
  rintro _ ⟨a, b, ha, _, rfl⟩
  refine ⟨'$', ?_, rfl⟩
  rw [spells_spelled ha]
  exact List.mem_append_left b List.mem_cons_self

theorem marked?_thousands_eq_none (h : ∀ c ∈ text, ¬ c.isAlpha = true) :
    marked? thousands text = none := by
  refine marked?_eq_none_of_spells (P := (·.isAlpha = true)) ?_ h
  rintro _ ⟨a, _, _, ⟨b, _, _, ⟨_, d, hk, _, rfl⟩, rfl⟩, rfl⟩
  refine ⟨'k', ?_, rfl⟩
  rw [spells_spelled hk]
  exact List.mem_append_right a (List.mem_append_right b (List.mem_append_left d
    List.mem_cons_self))

theorem marked?_currencyWord_eq_none (h : ∀ c ∈ text, ¬ c.isAlpha = true) :
    marked? currencyWord text = none := by
  refine marked?_eq_none_of_spells (P := (·.isAlpha = true)) ?_ h
  rintro _ ⟨a, _, _, ⟨b, _, _, ⟨w, d, hw, _, rfl⟩, rfl⟩, rfl⟩
  suffices ∃ c ∈ w, c.isAlpha = true by
    obtain ⟨c, hc, halpha⟩ := this
    exact ⟨c, List.mem_append_right a (List.mem_append_right b (List.mem_append_left d hc)), halpha⟩
  rcases hw with ⟨w, e, hw, _, rfl⟩ | hw | ⟨w, e, hw, _, rfl⟩
  · exact ⟨'d', spells_spelled hw ▸ List.mem_append_left e List.mem_cons_self, rfl⟩
  · exact ⟨'u', spells_spelled hw ▸ List.mem_cons_self, rfl⟩
  · exact ⟨'b', spells_spelled hw ▸ List.mem_append_left e List.mem_cons_self, rfl⟩

end

/-! ## The three cases -/

section

variable {l : Threshold}

theorem ofDigits?_of_isZero_eq_false (h : (decimal l.text).isZero = false) :
    ofDigits? (l.first :: l.whole ++ pointed l.fraction) = some (.settle (decimal l.text)) := by
  rw [l.ofDigits?_eq, h]
  rfl

theorem threshold?_text_of_thousands (hunit : isThousands l.text = true) (hdollar : '$' ∉ l.text)
    (hcomma : ',' ∉ l.text) (hpositive : (decimal l.text).isZero = false)
    (hrange : (number l.text).toReal.isOk = true) :
    Condition.threshold? l.text = .ok (some (number l.text)) := by
  obtain ⟨u, hu⟩ := exists_unit hunit
  have hnumber : number l.text = thousandTimes (.settle (decimal l.text)) := if_pos hunit
  obtain ⟨left, hleft, hsearched⟩ := l.exists_searched_eq
  have hsign : l.sign = [] := by rw [sign, dollar_eq_false hdollar]; rfl
  have hsuffix : l.smallSuffix = u.1 ++ ['k'] := by rw [smallSuffix, hu]; rfl
  have hmarked : marked? thousands (searched l.text) = some (.settle (decimal l.text)) := by
    rw [← ofDigits?_of_isZero_eq_false hpositive, hsearched, hsign, hsuffix, List.nil_append,
      ← List.append_assoc left, List.append_assoc u.1]
    refine marked?_thousands (fun c hc => ?_) (List.cons_ne_nil _ _)
      (fun c hc => isDecimalDigit_of_isDigit (isDigit_of_no_comma hcomma c hc))
      (fun c hc => isDecimalDigit_of_isDigit (l.fraction_mem c hc)) (l.unit_mem u hu).1
      l.stops_word_close
    rcases List.mem_append.mp hc with hc | hc
    · exact (isPlainBlank_of_isBlank (hleft c hc)).isDecimalDigit_eq
    · exact (isPlainBlank_of_isBlank (l.gap_mem c hc)).isDecimalDigit_eq
  rw [hnumber] at hrange ⊢
  exact threshold?_of_thousands
    (marked?_dollarSign_eq_none (dollar_not_mem_searched (dollar_eq_false hdollar))) hmarked
    (thousandfold_eq hrange)

theorem threshold?_text_of_few (hunit : isThousands l.text = false)
    (hpositive : ∃ c ∈ digits l.text, c ≠ '0') (hfew : places l.text ≤ 2) :
    Condition.threshold? l.text = .ok (some (number l.text)) := by
  have hnone := unit_eq_none hunit
  have hnumber : number l.text = .settle (decimal l.text) :=
    if_neg (by rw [hunit]; exact Bool.false_ne_true)
  have hzero : (decimal l.text).isZero = false :=
    Binary64.isZero_ofDecimal_eq_false (value_ne_zero isDigit_of_mem_digits hpositive) hfew
  rw [places_text] at hfew
  obtain ⟨left, hleft, hsearched⟩ := l.exists_searched_eq
  have hsuffix : l.smallSuffix = [] := by rw [smallSuffix, hnone]; rfl
  rw [hsuffix, List.nil_append] at hsearched
  rw [hnumber]
  cases hdollar : l.dollar with
  | true =>
      have hsign : l.sign = ['$'] := by rw [sign, hdollar]; rfl
      have hmarked := marked?_dollarSign
        (fun hmem => absurd (hleft '$' hmem) (by decide)) l.gap_mem
        (List.cons_ne_nil l.first l.whole) l.isWritten.whole l.isWritten.fraction l.ends_close
      rw [List.take_of_length_le hfew, ofDigits?_of_isZero_eq_false hzero] at hmarked
      refine threshold?_of_dollarSign ?_
      rw [hsearched, hsign]
      exact hmarked
  | false =>
      have hsign : l.sign = [] := by rw [sign, hdollar]; rfl
      have hletters := isAlpha_of_mem_searched hnone
      refine threshold?_of_first ?_
      rw [first_of_no_mark (marked?_dollarSign_eq_none (dollar_not_mem_searched hdollar))
        (marked?_thousands_eq_none hletters) (marked?_currencyWord_eq_none hletters), hsearched,
        hsign, List.nil_append, ← List.append_assoc left]
      refine congrArg _ (bare?_eq_some (fun c hc => ?_) l.first_mem l.whole_mem l.fraction_mem hfew
        l.ends_close l.stops_word_close (ofDigits?_of_isZero_eq_false hzero))
      exact (List.mem_append.mp hc).elim (hleft c) (l.gap_mem c)

/-- What stands in front of the digits in the form of zero. -/
theorem accepts_ahead : ∀ c ∈ l.lead ++ (l.sign ++ l.gap),
    (CharClass.either .blank (charOf "-$")).accepts c = true := by
  have hsigns : charOf "-$" = .either (.exactly '-') (.exactly '$') := rfl
  intro c hc
  rw [hsigns]
  show (isBlank c || (c == '-' || c == '$')) = true
  simp only [List.mem_append] at hc
  rcases hc with h | h | h
  · rcases l.lead_mem c h with rfl | h
    · rfl
    · rw [h, Bool.true_or]
  · rw [mem_sign h]
    rfl
  · rw [l.gap_mem c h, Bool.true_or]

/-- What stands behind the digits in the form of zero. -/
theorem firstThat_close {α : Type _} {f : Thread → Option α} {x : α} {before : List Char}
    {pieces : List (String × Cursor × Cursor)}
    (hx : f ⟨⟨l.close.reverse ++ before, []⟩, pieces⟩ = some x) :
    (seq room (seq (maybe (one (.exactly '%'))) atEnd)).firstThat f
      ⟨⟨before, l.close⟩, pieces⟩ = some x := by
  rw [firstThat_seq]
  unfold close at hx ⊢
  cases hpercent : l.percent with
  | true =>
      rw [hpercent] at hx
      rw [if_pos rfl] at hx ⊢
      rw [List.reverse_append, List.append_assoc] at hx
      refine firstThat_many l.space_mem (stops_of_cons (by decide)) ?_
      rw [firstThat_seq]
      refine firstThat_maybe_of_some ?_
      rw [firstThat_one (by decide), firstThat_atEnd]
      exact hx
  | false =>
      rw [hpercent] at hx
      rw [if_neg Bool.false_ne_true] at hx ⊢
      rw [List.append_nil] at hx
      refine firstThat_many l.space_mem stops_nil ?_
      rw [firstThat_seq, firstThat_maybe_of_none, firstThat_atEnd]
      · exact hx
      · exact firstThat_one_eq_none stops_nil

/-- The form of zero, in which a threshold is recognised that is no amount. -/
theorem matchAt_zeroThreshold (hunit : l.unit = none) (hwhole : ∀ c ∈ l.first :: l.whole, c = '0')
    (hfraction : ∀ c ∈ l.fraction, c = '0') :
    (Condition.zeroThreshold.matchAt (.start l.text)).isSome = true := by
  have hform : Condition.zeroThreshold = seq atStart (seq (many (.either .blank (charOf "-$")))
      (seq (run (.exactly '0')) (seq (maybe (seq (spelled ".") (run (.exactly '0'))))
        (seq room (seq (maybe (one (.exactly '%'))) atEnd))))) := rfl
  have hsuffix : l.suffix = [] := by rw [suffix, hunit]; rfl
  have hzero : Stops (.exactly '0') l.close := l.stops_exactly_close (by decide) (by decide)
  have hpoint : Stops (.exactly '.') l.close := l.stops_exactly_close (by decide) (by decide)
  have hread : Condition.zeroThreshold.firstThat (fun _ => some ()) ⟨.start l.text, []⟩
      = some () := by
    rw [hform, Cursor.start, text_eq, hsuffix, List.nil_append, firstThat_seq, firstThat_atStart,
      firstThat_seq]
    refine firstThat_many accepts_ahead (stops_of_cons ?_) ?_
    · rw [hwhole l.first List.mem_cons_self]
      decide
    rw [firstThat_seq]
    refine firstThat_run (List.cons_ne_nil _ _) (fun c hc => beq_iff_eq.mpr (hwhole c hc))
      (stops_pointed (by decide) hzero _) ?_
    rw [firstThat_seq]
    exact firstThat_fraction (fun c hc => beq_iff_eq.mpr (hfraction c hc)) hpoint hzero
      (firstThat_close rfl)
  obtain ⟨m, hm, _⟩ := exists_matchAt_of_firstThat (g := fun _ => ()) hread
  rw [hm]
  rfl

theorem settle_zero : Number.settle .zero = .whole 0 := by
  have hzero : Binary64.zero.toInt? = some 0 := by
    rw [Binary64.zero, Binary64.toInt?, Nat.zero_mod, if_pos rfl, Nat.zero_div]
    rfl
  rw [Number.settle, hzero]

theorem threshold?_text_of_zero (hunit : isThousands l.text = false)
    (hzeros : ∀ c ∈ digits l.text, c = '0') (hcomma : ',' ∉ l.text) :
    Condition.threshold? l.text = .ok (some (number l.text)) := by
  have hnone := unit_eq_none hunit
  have hnumber : number l.text = .whole 0 := by
    rw [number, if_neg (by rw [hunit]; exact Bool.false_ne_true), decimal, value_eq_zero hzeros,
      Binary64.ofDecimal_zero, settle_zero]
  have hsearched : ∀ c ∈ searched l.text, isDecimalDigit c = true → c = '0' :=
    fun c hc hdigit => hzeros c (mem_digits_of_mem_searched hc hdigit)
  rw [digits_text, List.filter_eq_self.mpr (isDigit_of_no_comma hcomma),
    List.forall_mem_append] at hzeros
  rw [hnumber]
  refine threshold?_of_zero ?_ (matchAt_zeroThreshold hnone hzeros.1 hzeros.2)
  rw [first_of_no_mark (isMark_dollarSign.marked?_eq_none hsearched)
    (isMark_thousands.marked?_eq_none hsearched) (isMark_currencyWord.marked?_eq_none hsearched),
    bare?_eq_none hsearched]

end

/-- A threshold is read as the number that it spells, when the search for an amount sees
everything of it. -/
theorem threshold_eq_number {raw : List Char} (h : Vocabulary.threshold.fills raw = true)
    (hascii : ∀ c ∈ raw, isDecimalDigit c = true → c.isDigit = true) (hread : IsReadInFull raw) :
    Condition.threshold? raw = .ok (some (number raw)) := by
  obtain ⟨l, rfl⟩ := exists_text_eq h hascii
  cases hread with
  | thousands unit dollar comma positive range =>
      exact threshold?_text_of_thousands unit dollar comma positive range
  | zero unit zeros comma => exact threshold?_text_of_zero unit zeros comma
  | few unit positive few => exact threshold?_text_of_few unit positive few

/-- Digits of ASCII only, as a check. -/
theorem isDigit_of_all {raw : List Char}
    (h : (raw.all fun c => !isDecimalDigit c || c.isDigit) = true) :
    ∀ c ∈ raw, isDecimalDigit c = true → c.isDigit = true := by
  intro c hc hdigit
  have := List.all_eq_true.mp h c hc
  rwa [hdigit] at this

theorem threshold_eq_number_dollars :
    Condition.threshold? "-$1,500.25".toList = .ok (some (number "-$1,500.25".toList)) ∧
      Condition.threshold? "1.5 K".toList = .ok (some (number "1.5 K".toList)) ∧
      Condition.threshold? "$0.00%".toList = .ok (some (number "$0.00%".toList)) := by
  have hzeros : digits "$0.00%".toList = ['0', '0', '0'] := by decide +kernel
  refine ⟨threshold_eq_number (by decide +kernel) (isDigit_of_all (by decide +kernel)) ?_,
    threshold_eq_number (by decide +kernel) (isDigit_of_all (by decide +kernel)) ?_,
    threshold_eq_number (by decide +kernel) (isDigit_of_all (by decide +kernel)) ?_⟩
  · exact .few (by decide +kernel) ⟨'1', by decide +kernel, by decide⟩ (by decide +kernel)
  · exact .thousands (by decide +kernel) (by decide +kernel) (by decide +kernel)
      (by decide +kernel) (by decide +kernel)
  · refine .zero (by decide +kernel) ?_ (by decide +kernel)
    rw [hzeros]
    simp

/-- With a dollar sign in front of the number, the k is lost. -/
theorem threshold_dollarThousands :
    Vocabulary.threshold.fills "$5k".toList = true ∧
      Condition.threshold? "$5k".toList = .ok (some (.whole 5)) ∧
      number "$5k".toList = .whole 5000 := by
  refine ⟨by decide +kernel, ?_, by decide +kernel⟩
  decide +kernel

end Cardfolio.Threshold
