import Cardfolio.Proofs.Question.Amounts
import Cardfolio.Proofs.Text.Blanks

/-!
# What a threshold spells

The number behind a comparing phrase has a form of its own: a minus sign and a dollar sign
with blanks around them, digits with separators, a fraction, and a k and a sign for per cent
behind it. What it spells can be read off its characters. The digits, without what stands
between them, are a whole number; as many of them as stand behind the point are decimal
places; and a k makes thousands of it.

`Threshold` holds the parts of such a text, and every text that the pattern fills is put
together from them. When its minus sign is replaced and it is lower-cased, only its lead
changes, which becomes blank, and its k.
-/

namespace Cardfolio

open Pattern Text Numeral
open Amount (exists_pointed_of_spells)

theorem latinLetter?_of_lt {c : Char} (h : c.toNat < 65) : latinLetter? c = none := by
  have hne : ∀ d : Char, 65 ≤ d.toNat → c ≠ d := by
    rintro d hd rfl
    omega
  unfold latinLetter?
  rw [if_neg (by rw [isAlpha_iff]; omega), if_neg (hne _ (by decide)), if_neg, if_neg]
  · exact hne _ (by decide)
  · rw [Bool.or_eq_true, decide_eq_true_eq, decide_eq_true_eq, not_or]
    exact ⟨hne _ (by decide), hne _ (by decide)⟩

theorem toSmall_of_latinLetter?_ascii :
    ∀ n < 128, latinLetter? (Char.ofNat n) = some 'k' → toSmall (Char.ofNat n) = 'k' := by
  decide

theorem toSmall_of_latinLetter? {c : Char} (h : latinLetter? c = some 'k') : toSmall c = 'k' := by
  by_cases hc : c.toNat < 128
  · have := toSmall_of_latinLetter?_ascii c.toNat hc
    rw [Char.ofNat_toNat] at this
    exact this h
  · unfold latinLetter? at h
    rw [if_neg (by rw [isAlpha_iff]; omega)] at h
    split at h
    · cases h
    · split at h
      · cases h
      · split at h
        · next hkelvin =>
            rw [hkelvin]
            decide
        · cases h

/-! ## The parts of a threshold -/

/-- A threshold in its parts. A k comes with the blanks in front of it. -/
structure Threshold where
  lead : List Char
  dollar : Bool
  gap : List Char
  first : Char
  whole : List Char
  fraction : List Char
  unit : Option (List Char × Char)
  space : List Char
  percent : Bool
  lead_mem : ∀ c ∈ lead, c = '-' ∨ isBlank c = true
  gap_mem : ∀ c ∈ gap, isBlank c = true
  first_mem : first.isDigit = true
  whole_mem : ∀ c ∈ whole, c = ',' ∨ c.isDigit = true
  fraction_mem : ∀ c ∈ fraction, c.isDigit = true
  unit_mem : ∀ u ∈ unit, (∀ c ∈ u.1, isBlank c = true) ∧ latinLetter? u.2 = some 'k'
  space_mem : ∀ c ∈ space, isBlank c = true

namespace Threshold

section

variable (l : Threshold)

def sign : List Char :=
  if l.dollar then ['$'] else []

def suffix : List Char :=
  l.unit.elim [] fun u => u.1 ++ [u.2]

def close : List Char :=
  l.space ++ if l.percent then ['%'] else []

def text : List Char :=
  l.lead ++ (l.sign ++ (l.gap ++ (l.first :: l.whole ++ (pointed l.fraction ++
    (l.suffix ++ l.close)))))

end

theorem exists_unit_of_spells {s : List Char}
    (h : (maybe (Pattern.sequence [room, one (.letter 'k'), edge])).Spells s) :
    ∃ unit : Option (List Char × Char), (unit.elim [] fun u => u.1 ++ [u.2]) = s ∧
      ∀ u ∈ unit, (∀ c ∈ u.1, isBlank c = true) ∧ latinLetter? u.2 = some 'k' := by
  rcases spells_maybe.mp h with ⟨gap, _, hgap, ⟨_, _, ⟨k, hk, rfl⟩, rfl, rfl⟩, rfl⟩ | rfl
  · refine ⟨some (gap, k), rfl, fun u hu => ?_⟩
    rw [← Option.some.inj hu]
    exact ⟨spells_many.mp hgap, beq_iff_eq.mp hk⟩
  · exact ⟨none, rfl, nofun⟩

theorem exists_bool_of_spells {c : Char} {s : List Char}
    (h : (maybe (one (.exactly c))).Spells s) : ∃ b, (if b = true then [c] else []) = s := by
  rcases spells_maybe.mp h with ⟨d, hd, rfl⟩ | rfl
  · exact ⟨true, by rw [beq_iff_eq.mp hd]; rfl⟩
  · exact ⟨false, rfl⟩

theorem exists_close_of_spells {s : List Char}
    (h : (maybe (seq room (spelled "%"))).Spells s) :
    ∃ gap percent, (gap ++ if percent = true then ['%'] else []) = s ∧
      ∀ c ∈ gap, isBlank c = true := by
  rcases spells_maybe.mp h with ⟨gap, _, hgap, hsign, rfl⟩ | rfl
  · exact ⟨gap, true, by rw [spells_spelled hsign]; rfl, spells_many.mp hgap⟩
  · exact ⟨[], false, rfl, fun _ h => (List.not_mem_nil h).elim⟩

/-- A text that the pattern of thresholds fills, with digits of ASCII only. -/
theorem exists_text_eq {raw : List Char} (h : Vocabulary.threshold.fills raw = true)
    (hascii : ∀ c ∈ raw, isDecimalDigit c = true → c.isDigit = true) :
    ∃ l : Threshold, l.text = raw := by
  have hminus : lit "-" = one (.exactly '-') := rfl
  have hdollar : lit "$" = one (.exactly '$') := rfl
  have hpoint : lit "." = spelled "." := rfl
  have hpercent : lit "%" = spelled "%" := rfl
  have hk : lit "k" = one (.letter 'k') := rfl
  have hspells := spells_of_fills h
  unfold Vocabulary.threshold at hspells
  rw [hminus, hdollar, hpoint, hpercent, hk] at hspells
  obtain ⟨minus, _, hminus, ⟨blanks, _, hblanks, ⟨sign, _, hsign, ⟨gap, _, hgap,
    ⟨_, _, ⟨first, hfirst, rfl⟩, ⟨whole, _, hwhole, ⟨fraction, _, hfraction,
    ⟨suffix, close, hsuffix, hclose, rfl⟩, rfl⟩, rfl⟩, rfl⟩, rfl⟩, rfl⟩, rfl⟩, rfl⟩ := hspells
  obtain ⟨negative, rfl⟩ := exists_bool_of_spells hminus
  obtain ⟨dollar, rfl⟩ := exists_bool_of_spells hsign
  obtain ⟨fraction, rfl, hdigits⟩ := exists_pointed_of_spells (p := run .digit) rfl hfraction
  obtain ⟨unit, rfl, hunit⟩ := exists_unit_of_spells hsuffix
  obtain ⟨space, percent, rfl, hspace⟩ := exists_close_of_spells hclose
  simp only [List.forall_mem_append, List.forall_mem_singleton] at hascii
  obtain ⟨_, _, _, _, hfirst', hwhole', hfraction', _⟩ := hascii
  refine ⟨⟨(if negative then ['-'] else []) ++ blanks, dollar, gap, first, whole, fraction, unit,
    space, percent, fun c hc => ?_, spells_many.mp hgap, hfirst' hfirst, fun c hc => ?_,
    fun c hc => hfraction' c (subset_pointed _ hc) (spells_many.mp hdigits c hc), hunit, hspace⟩,
    ?_⟩
  · rcases List.mem_append.mp hc with hc | hc
    · cases negative with
      | true => exact Or.inl (List.mem_singleton.mp hc)
      | false => cases hc
    · exact Or.inr (spells_many.mp hblanks c hc)
  · have hclass := spells_many.mp hwhole c hc
    simp only [CharClass.accepts, Bool.or_eq_true, beq_iff_eq] at hclass
    exact hclass.symm.imp id (hwhole' c hc)
  · simp only [text, sign, suffix, close, List.append_assoc, List.cons_append, List.nil_append]

def isThousands (raw : List Char) : Bool :=
  raw.any fun c => latinLetter? c == some 'k'

def digits (raw : List Char) : List Char :=
  raw.filter Char.isDigit

/-- How many digits stand behind the point. -/
def places (raw : List Char) : Nat :=
  (raw.dropWhile (· != '.')).countP Char.isDigit

/-- The double nearest to the digits with their point. -/
def decimal (raw : List Char) : Binary64 :=
  .ofDecimal false (value (digits raw)) (-(places raw : Int))

/-- A thousand times a number: exact for a whole one and the nearest double for another one. -/
def thousandTimes : Number → Number
  | .whole n => .whole (n * 1000)
  | .real x => .settle (x.mul (.nearest false 1000 1))

/-- The number that a threshold spells, a whole one if it is equal to one. -/
def number (raw : List Char) : Number :=
  if isThousands raw then thousandTimes (.settle (decimal raw)) else .settle (decimal raw)

/-! ## Its characters -/

section

variable {l : Threshold} {c : Char}

theorem mem_sign (h : c ∈ l.sign) : c = '$' := by
  unfold sign at h
  split at h
  · exact List.mem_singleton.mp h
  · cases h

theorem mem_suffix (h : c ∈ l.suffix) : isBlank c = true ∨ ∃ u ∈ l.unit, c = u.2 := by
  unfold suffix at h
  cases hunit : l.unit with
  | none =>
      rw [hunit] at h
      cases h
  | some u =>
      rw [hunit] at h
      rcases List.mem_append.mp h with h | h
      · exact Or.inl ((l.unit_mem u hunit).1 c h)
      · exact Or.inr ⟨u, rfl, List.mem_singleton.mp h⟩

theorem mem_close (h : c ∈ l.close) : isBlank c = true ∨ c = '%' := by
  unfold close at h
  rcases List.mem_append.mp h with h | h
  · exact Or.inl (l.space_mem c h)
  · split at h
    · exact Or.inr (List.mem_singleton.mp h)
    · cases h

theorem mem_whole (h : c ∈ l.first :: l.whole) : c = ',' ∨ c.isDigit = true := by
  rcases List.mem_cons.mp h with rfl | h
  · exact Or.inr l.first_mem
  · exact l.whole_mem c h

theorem lt_and_ne_of_isDigit (h : c.isDigit = true) : c.toNat < 65 ∧ c ≠ '-' := by
  refine ⟨?_, ?_⟩
  · have := isDigit_iff.mp h
    omega
  · rintro rfl
    cases h

theorem lt_and_ne_of_mem_whole (h : c ∈ l.first :: l.whole) : c.toNat < 65 ∧ c ≠ '-' := by
  rcases mem_whole h with rfl | h
  · exact ⟨by decide, by decide⟩
  · exact lt_and_ne_of_isDigit h

theorem lt_and_ne_of_mem_fraction (h : c ∈ pointed l.fraction) : c.toNat < 65 ∧ c ≠ '-' := by
  rcases mem_pointed h with rfl | h
  · exact ⟨by decide, by decide⟩
  · exact lt_and_ne_of_isDigit (l.fraction_mem c h)

/-- Apart from blanks and the k, there are only characters in front of the letters. -/
theorem mem_text (h : c ∈ l.text) :
    isBlank c = true ∨ c.toNat < 65 ∨ ∃ u ∈ l.unit, c = u.2 := by
  simp only [text, List.mem_append] at h
  rcases h with h | h | h | h | h | h | h
  · rcases l.lead_mem c h with rfl | h
    · exact Or.inr (Or.inl (by decide))
    · exact Or.inl h
  · exact Or.inr (Or.inl (mem_sign h ▸ by decide))
  · exact Or.inl (l.gap_mem c h)
  · exact Or.inr (Or.inl (lt_and_ne_of_mem_whole h).1)
  · exact Or.inr (Or.inl (lt_and_ne_of_mem_fraction h).1)
  · rcases mem_suffix h with h | h
    · exact Or.inl h
    · exact Or.inr (Or.inr h)
  · rcases mem_close h with h | rfl
    · exact Or.inl h
    · exact Or.inr (Or.inl (by decide))

/-- No digit and no point. -/
structure IsOutside (c : Char) : Prop where
  ne_point : (c != '.') = true
  isDigit_eq : c.isDigit = false

theorem isOutside_of_isBlank (h : isBlank c = true) : IsOutside c := by
  refine ⟨bne_iff_ne.mpr (ne_of_isBlank h (by decide)), Bool.eq_false_iff.mpr fun hdigit => ?_⟩
  have hnot := (isPlainBlank_of_isBlank h).isDecimalDigit_eq
  rw [isDecimalDigit_of_isDigit hdigit] at hnot
  cases hnot

theorem isOutside_of_latinLetter? (h : latinLetter? c = some 'k') : IsOutside c := by
  have hcode : ¬ c.toNat < 65 := fun hlt => by
    rw [latinLetter?_of_lt hlt] at h
    cases h
  refine ⟨bne_iff_ne.mpr ?_, Bool.eq_false_iff.mpr fun hdigit => ?_⟩
  · rintro rfl
    exact hcode (by decide)
  · have := isDigit_iff.mp hdigit
    omega

theorem isOutside_of_mem_ahead (h : c ∈ l.lead ++ (l.sign ++ l.gap)) : IsOutside c := by
  simp only [List.mem_append] at h
  rcases h with h | h | h
  · rcases l.lead_mem c h with rfl | h
    · exact ⟨rfl, rfl⟩
    · exact isOutside_of_isBlank h
  · rw [mem_sign h]
    exact ⟨rfl, rfl⟩
  · exact isOutside_of_isBlank (l.gap_mem c h)

theorem isOutside_of_mem_behind (h : c ∈ l.suffix ++ l.close) : IsOutside c := by
  rcases List.mem_append.mp h with h | h
  · rcases mem_suffix h with h | ⟨u, hu, rfl⟩
    · exact isOutside_of_isBlank h
    · exact isOutside_of_latinLetter? (l.unit_mem u hu).2
  · rcases mem_close h with h | rfl
    · exact isOutside_of_isBlank h
    · exact ⟨rfl, rfl⟩

end

/-! ## The number of its parts -/

section

variable (l : Threshold)

theorem text_eq : l.text = (l.lead ++ (l.sign ++ l.gap)) ++
    (l.first :: l.whole ++ (pointed l.fraction ++ (l.suffix ++ l.close))) := by
  simp only [text, List.append_assoc]

theorem isThousands_text : isThousands l.text = l.unit.isSome := by
  rw [Bool.eq_iff_iff, isThousands, List.any_eq_true, Option.isSome_iff_exists]
  constructor
  · rintro ⟨c, hc, hk⟩
    rw [beq_iff_eq] at hk
    rcases mem_text hc with h | h | ⟨u, hu, _⟩
    · rw [(isPlainBlank_of_isBlank h).latinLetter?_eq] at hk
      cases hk
    · rw [latinLetter?_of_lt h] at hk
      cases hk
    · exact ⟨u, hu⟩
  · rintro ⟨u, hu⟩
    refine ⟨u.2, ?_, beq_iff_eq.mpr (l.unit_mem u hu).2⟩
    have hmem : u.2 ∈ l.suffix := by
      rw [suffix, hu]
      exact List.mem_append_right u.1 List.mem_cons_self
    simp only [text, List.mem_append, hmem, true_or, or_true]

theorem filter_isDigit_pointed {fs : List Char} (h : ∀ c ∈ fs, c.isDigit = true) :
    (pointed fs).filter Char.isDigit = fs := by
  cases fs with
  | nil => rfl
  | cons f fs =>
      rw [pointed_cons, List.filter_cons_of_neg (by decide), List.filter_eq_self.mpr h]

theorem digits_text :
    digits l.text = (l.first :: l.whole).filter Char.isDigit ++ l.fraction := by
  have hnone : ∀ part : List Char, (∀ c ∈ part, IsOutside c) → part.filter Char.isDigit = [] :=
    fun part h => List.filter_eq_nil_iff.mpr fun c hc => by
      rw [(h c hc).isDigit_eq]
      exact Bool.false_ne_true
  have hahead := hnone _ fun c hc => isOutside_of_mem_ahead (l := l) hc
  have hbehind := hnone _ fun c hc => isOutside_of_mem_behind (l := l) hc
  rw [digits, text_eq, List.filter_append (l.lead ++ _), hahead, List.filter_append,
    List.filter_append (pointed _), hbehind, filter_isDigit_pointed l.fraction_mem,
    List.nil_append, List.append_nil]

theorem places_text : places l.text = l.fraction.length := by
  have hwhole : ∀ c ∈ l.first :: l.whole, (c != '.') = true := by
    intro c hc
    rw [bne_iff_ne]
    rintro rfl
    exact (mem_whole hc).elim (by decide) (by decide)
  have hbehind : (l.suffix ++ l.close).countP Char.isDigit = 0 :=
    List.countP_eq_zero.mpr fun c hc => by
      rw [(isOutside_of_mem_behind hc).isDigit_eq]
      exact Bool.false_ne_true
  have hahead : ∀ c ∈ l.lead ++ (l.sign ++ l.gap), (c != '.') = true :=
    fun c hc => (isOutside_of_mem_ahead hc).ne_point
  rw [places, text_eq, List.dropWhile_append_of_pos hahead, List.dropWhile_append_of_pos hwhole]
  cases hfraction : l.fraction with
  | nil =>
      have hdrop : (l.suffix ++ l.close).dropWhile (· != '.') = [] :=
        List.dropWhile_eq_nil_iff.mpr fun c hc => (isOutside_of_mem_behind hc).ne_point
      rw [pointed, List.nil_append, hdrop]
      rfl
  | cons f fs =>
      have hdigits : ∀ c ∈ f :: fs, c.isDigit = true := hfraction ▸ l.fraction_mem
      rw [pointed_cons, List.cons_append, List.dropWhile_cons_of_neg (by decide),
        List.countP_cons_of_neg (by decide), List.countP_append, hbehind,
        List.countP_eq_length.mpr hdigits, Nat.add_zero]

theorem isWritten : Amount.IsWritten (l.first :: l.whole ++ pointed l.fraction)
    (l.first :: l.whole) l.fraction where
  eq := rfl
  whole := List.forall_mem_cons.mpr ⟨Or.inr (isDecimalDigit_of_isDigit l.first_mem),
    fun c hc => (l.whole_mem c hc).imp id isDecimalDigit_of_isDigit⟩
  fraction := fun c hc => isDecimalDigit_of_isDigit (l.fraction_mem c hc)

theorem isDigit_of_mem_digits {raw : List Char} : ∀ c ∈ digits raw, c.isDigit = true :=
  fun _ hc => (List.mem_filter.mp hc).2

theorem ofDigits?_eq : Amount.ofDigits? (l.first :: l.whole ++ pointed l.fraction) =
    if (decimal l.text).isZero then none else some (.settle (decimal l.text)) := by
  have hfilter : (l.first :: l.whole).filter (· != ',')
      = (l.first :: l.whole).filter Char.isDigit :=
    List.filter_congr fun c hc => by
      rcases mem_whole hc with rfl | hdigit
      · rfl
      · rw [hdigit, bne_iff_ne]
        exact Amount.ne_comma_of_isDecimalDigit (isDecimalDigit_of_isDigit hdigit)
  have hplain : (digits l.text).map plainDigit = digits l.text :=
    (List.map_congr_left fun c hc => plainDigit_of_isDigit (isDigit_of_mem_digits c hc)).trans
      (List.map_id' _)
  refine l.isWritten.ofDigits?_eq ?_
  rw [hfilter, ← digits_text, ← places_text, hplain, decimal]

/-- The k of a threshold in lower case with the blanks in front of it. -/
def smallSuffix : List Char :=
  l.unit.elim [] fun u => u.1 ++ ['k']

/-- A text without its minus signs, in lower case. -/
def searched (raw : List Char) : List Char :=
  lower (raw.map fun c => if c = '-' then ' ' else c)

/-- How a character is found in a text that is searched. -/
def small (c : Char) : Char :=
  toSmall (if c = '-' then ' ' else c)

theorem small_eq_self {c : Char} (hsmall : IsSmall c) (hc : c ≠ '-') : small c = c := by
  rw [small, if_neg hc, hsmall.toSmall_eq]

theorem small_eq_of_isBlank {c : Char} (h : isBlank c = true) : small c = c :=
  small_eq_self (isPlainBlank_of_isBlank h).isSmall (ne_of_isBlank h (by decide))

theorem searched_eq_map : searched l.text = l.text.map small := by
  rw [searched, lower_eq_map, List.map_map]
  · rfl
  · rw [List.forall_mem_map]
    intro c hc
    split
    · exact ⟨by decide, by decide⟩
    · rcases mem_text hc with h | h | ⟨u, hu, rfl⟩
      · exact ⟨(isPlainBlank_of_isBlank h).isSmall.not_sigma,
          (isPlainBlank_of_isBlank h).isSmall.not_dotted⟩
      · exact ⟨(isSmall_of_lt h).not_sigma, (isSmall_of_lt h).not_dotted⟩
      · have hk := (l.unit_mem u hu).2
        refine ⟨fun h => ?_, fun h => ?_⟩
        · rw [h] at hk
          exact absurd hk (by decide)
        · rw [h] at hk
          exact absurd hk (by decide)

theorem map_small_eq_self {part : List Char}
    (h : ∀ c ∈ part, isBlank c = true ∨ c.toNat < 65 ∧ c ≠ '-') : part.map small = part := by
  refine (List.map_congr_left fun c hc => ?_).trans (List.map_id' part)
  rcases h c hc with h | ⟨h, hminus⟩
  · exact small_eq_of_isBlank h
  · exact small_eq_self (isSmall_of_lt h) hminus

theorem map_small_suffix : l.suffix.map small = l.smallSuffix := by
  unfold suffix smallSuffix
  cases hunit : l.unit with
  | none => rfl
  | some u =>
      obtain ⟨hgap, hk⟩ := l.unit_mem u hunit
      have hletter : small u.2 = 'k' := by
        rw [small, if_neg, toSmall_of_latinLetter? hk]
        intro h
        rw [h] at hk
        exact absurd hk (by decide)
      show (u.1 ++ [u.2]).map small = u.1 ++ ['k']
      rw [List.map_append, map_small_eq_self fun c hc => Or.inl (hgap c hc), List.map_singleton,
        hletter]

/-- Only the lead and the k are changed. -/
theorem exists_searched_eq : ∃ left, (∀ c ∈ left, isBlank c = true) ∧
    searched l.text = left ++ (l.sign ++ (l.gap ++ (l.first :: l.whole ++
      (pointed l.fraction ++ (l.smallSuffix ++ l.close))))) := by
  refine ⟨l.lead.map small, List.forall_mem_map.mpr fun c hc => ?_, ?_⟩
  · rcases l.lead_mem c hc with rfl | h
    · decide
    · rw [small_eq_of_isBlank h]
      exact h
  · rw [searched_eq_map, text, List.map_append, List.map_append, List.map_append, List.map_append,
      List.map_append, List.map_append, map_small_suffix,
      map_small_eq_self fun c hc => Or.inl (l.gap_mem c hc),
      map_small_eq_self fun c hc => (mem_close hc).imp id fun h => by
        rw [h]
        exact ⟨by decide, by decide⟩,
      map_small_eq_self fun c hc => Or.inr (mem_sign hc ▸ ⟨by decide, by decide⟩),
      map_small_eq_self fun c hc => Or.inr (lt_and_ne_of_mem_whole hc),
      map_small_eq_self fun c hc => Or.inr (lt_and_ne_of_mem_fraction hc)]

end

end Threshold

end Cardfolio
