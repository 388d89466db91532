import Cardfolio.Proofs.Number.Numerals
import Cardfolio.Proofs.Number.Rounding
import Cardfolio.Proofs.Text.Respelled

/-!
# Numerals and case

Letters have two uses in a numeral, the e in front of an exponent and the words for what is no
finite number, and neither depends on their case. All other steps of reading look at digits and
signs, so they pass a text in small letters through: each step is shown to commute with making
letters small, and reading as a whole is composed of these.

The words for what is no finite number are read only from their letters. Digits of other scripts
become those of ASCII before the words are looked for, and none of them becomes a letter.
-/

namespace Cardfolio.Numeral

open Text

variable {cs digits word : List Char} {c : Char}

theorem isCaseless_isDigit : IsCaseless Char.isDigit :=
  isCaseless_of_letters false (by decide)

theorem isCaseless_isMargin : IsCaseless isMargin :=
  isCaseless_of_letters false (by decide)

theorem plainDigit_eq_self (h : isDecimalDigit c = false) : plainDigit c = c := by
  rw [isDecimalDigit, Option.isSome_eq_false_iff, Option.isNone_iff_eq_none] at h
  rw [plainDigit, h]

theorem isDecimalDigit_of_isAlpha (h : c.isAlpha = true) : isDecimalDigit c = false :=
  forall_letters (P := fun c => isDecimalDigit c = false) (by decide) h

theorem plainDigit_toLower (c : Char) : plainDigit c.toLower = (plainDigit c).toLower := by
  cases hc : c.isAlpha with
  | true =>
      rw [plainDigit_eq_self (isDecimalDigit_of_isAlpha hc),
        plainDigit_eq_self (isDecimalDigit_of_isAlpha (of_isAlpha hc).2.1)]
  | false =>
      rw [toLower_eq_self hc]
      cases hd : isDecimalDigit c with
      | true => exact (IsPlain.toLower_eq (Or.inr (isDigit_plainDigit hd))).symm
      | false => rw [plainDigit_eq_self hd, toLower_eq_self hc]

theorem splitSign_of_ne (hminus : c ≠ '-') (hplus : c ≠ '+') (cs : List Char) :
    splitSign (c :: cs) = (false, c :: cs) := by
  unfold splitSign
  split
  · next h => exact absurd (List.cons.inj h).1 hminus
  · next h => exact absurd (List.cons.inj h).1 hplus
  · rfl

theorem splitSign_map (cs : List Char) :
    splitSign (cs.map Char.toLower) = ((splitSign cs).1, (splitSign cs).2.map Char.toLower) := by
  cases cs with
  | nil => rfl
  | cons c cs =>
      by_cases hminus : c = '-'
      · rw [hminus]
        rfl
      · by_cases hplus : c = '+'
        · rw [hplus]
          rfl
        · have hminus' : c.toLower ≠ '-' := mt (toLower_eq_iff (by decide)).mp hminus
          have hplus' : c.toLower ≠ '+' := mt (toLower_eq_iff (by decide)).mp hplus
          rw [List.map_cons, splitSign_of_ne hminus' hplus', splitSign_of_ne hminus hplus]
          rfl

theorem joinDigits_map (afterDigit : Bool) (cs : List Char) :
    joinDigits afterDigit (cs.map Char.toLower)
      = (joinDigits afterDigit cs).map (List.map Char.toLower) := by
  induction cs generalizing afterDigit with
  | nil => rfl
  | cons c cs ih =>
      have hhead : (cs.map Char.toLower).head?.any Char.isDigit = cs.head?.any Char.isDigit := by
        rw [List.head?_map, Option.any_map]
        exact congrArg (cs.head?.any ·) isCaseless_isDigit.comp_eq
      rw [List.map_cons, joinDigits, joinDigits, hhead]
      by_cases hc : c = '_'
      · rw [if_pos ((toLower_eq_iff (by decide)).mpr hc), if_pos hc]
        split
        · exact ih false
        · rfl
      · rw [if_neg (mt (toLower_eq_iff (by decide)).mp hc), if_neg hc, isCaseless_isDigit, ih,
          Option.map_map, Option.map_map]
        rfl

theorem map_toLower_eq_self (h : ∀ c ∈ digits, c.isDigit = true) :
    digits.map Char.toLower = digits :=
  (List.map_congr_left fun c hc => IsPlain.toLower_eq (Or.inr (h c hc))).trans (List.map_id _)

theorem exponent?_map (cs : List Char) : exponent? (cs.map Char.toLower) = exponent? cs := by
  cases cs with
  | nil => rfl
  | cons e cs =>
      unfold exponent?
      rw [List.map_cons]
      dsimp only
      rw [splitSign_map, isCaseless_isDigit.all_map, toLower_toLower, List.isEmpty_map]
      split
      · next h =>
          have hdigits := List.all_eq_true.mp (Bool.and_eq_true_iff.mp h).2
          rw [map_toLower_eq_self hdigits]
      · rfl

/-- The digits behind a point, if there is one, and what follows them. -/
def splitFraction : List Char → List Char × List Char
  | '.' :: cs => (cs.takeWhile Char.isDigit, cs.dropWhile Char.isDigit)
  | cs => ([], cs)

theorem splitFraction_of_ne (h : c ≠ '.') (cs : List Char) :
    splitFraction (c :: cs) = ([], c :: cs) := by
  unfold splitFraction
  split
  · next h' => exact absurd (List.cons.inj h').1 h
  · rfl

theorem takeWhile_isDigit_map (cs : List Char) :
    (cs.map Char.toLower).takeWhile Char.isDigit = cs.takeWhile Char.isDigit := by
  rw [isCaseless_isDigit.takeWhile_map]
  exact map_toLower_eq_self fun c hc => List.mem_takeWhile_imp hc

theorem splitFraction_map (cs : List Char) : splitFraction (cs.map Char.toLower)
    = ((splitFraction cs).1, (splitFraction cs).2.map Char.toLower) := by
  cases cs with
  | nil => rfl
  | cons c cs =>
      by_cases hc : c = '.'
      · subst hc
        show ((cs.map Char.toLower).takeWhile Char.isDigit,
          (cs.map Char.toLower).dropWhile Char.isDigit) = _
        rw [takeWhile_isDigit_map, isCaseless_isDigit.dropWhile_map]
        rfl
      · have hc' : c.toLower ≠ '.' := mt (toLower_eq_iff (by decide)).mp hc
        rw [List.map_cons, splitFraction_of_ne hc', splitFraction_of_ne hc]
        rfl

theorem unsigned?_eq (negative : Bool) (cs : List Char) :
    unsigned? negative cs =
      let before := cs.takeWhile Char.isDigit
      let (after, tail) := splitFraction (cs.dropWhile Char.isDigit)
      if before.isEmpty && after.isEmpty then none
      else (exponent? tail).map fun exponent =>
        .ofDecimal negative (value (before ++ after)) (exponent - after.length) := rfl

theorem unsigned?_map (negative : Bool) (cs : List Char) :
    unsigned? negative (cs.map Char.toLower) = unsigned? negative cs := by
  rw [unsigned?_eq, takeWhile_isDigit_map, isCaseless_isDigit.dropWhile_map, splitFraction_map]
  dsimp only
  rw [exponent?_map, unsigned?_eq]

theorem map_toLower_plainDigit (cs : List Char) :
    (cs.map plainDigit).map Char.toLower = (cs.map Char.toLower).map plainDigit := by
  rw [List.map_map, List.map_map]
  exact List.map_congr_left fun c _ => (plainDigit_toLower c).symm

/-- Reading a numeral does not look at case. -/
theorem real?_map (cs : List Char) : real? (cs.map Char.toLower) = real? cs := by
  have hsmall : ∀ cs : List Char, (cs.map Char.toLower).map Char.toLower = cs.map Char.toLower := by
    intro cs
    rw [List.map_map]
    exact List.map_congr_left fun c _ => toLower_toLower c
  unfold real?
  rw [← map_toLower_plainDigit, isCaseless_isMargin.trim_map, splitSign_map]
  dsimp only
  rw [hsmall, joinDigits_map, Option.bind_map]
  simp only [Function.comp_def, unsigned?_map]

def signs : List (List Char) :=
  [[], ['-'], ['+']]

def isMinus (sign : List Char) : Bool :=
  sign == ['-']

theorem exists_sign (cs : List Char) :
    ∃ sign ∈ signs, cs = sign ++ (splitSign cs).2 ∧ (splitSign cs).1 = isMinus sign := by
  unfold splitSign
  split
  · exact ⟨['-'], by decide, rfl, rfl⟩
  · exact ⟨['+'], by decide, rfl, rfl⟩
  · exact ⟨[], by decide, rfl, rfl⟩

theorem splitSign_append {sign : List Char} (hsign : sign ∈ signs)
    (h : ∀ c ∈ cs.head?, c ≠ '-' ∧ c ≠ '+') : splitSign (sign ++ cs) = (isMinus sign, cs) := by
  simp only [signs, List.mem_cons, List.not_mem_nil, or_false] at hsign
  rcases hsign with rfl | rfl | rfl
  · cases cs with
    | nil => rfl
    | cons c cs => exact splitSign_of_ne (h c rfl).1 (h c rfl).2 cs
  · rfl
  · rfl

def infinities : List (List Char) :=
  ["inf".toList, "infinity".toList]

def words : List (List Char) :=
  "nan".toList :: infinities

/-- A text that is a word, in any case, with a sign or without, with blanks around it or none. -/
def Says (cs word : List Char) : Prop :=
  ∃ sign ∈ signs, Recased (trim isMargin cs) (sign ++ word)

/-- A word is left behind the sign when the text is the word, with a sign or without. -/
theorem splitSign_eq_iff (hword : word ∈ words) : (splitSign cs).2.map Char.toLower = word ↔
    ∃ sign ∈ signs, Recased cs (sign ++ word) := by
  constructor
  · rintro rfl
    obtain ⟨sign, hsign, heq, _⟩ := exists_sign cs
    refine ⟨sign, hsign, recased_iff.mpr ?_⟩
    conv_lhs => rw [heq]
    rw [List.map_append, List.map_append, List.map_map]
    exact congrArg _ (List.map_congr_left fun c _ => (toLower_toLower c).symm)
  · rintro ⟨sign, hsign, h⟩
    have hsmall : ∀ word ∈ words, ∀ sign ∈ signs,
        (splitSign ((sign ++ word).map Char.toLower)).2 = word := by
      decide
    have hsplit := hsmall word hword sign hsign
    rw [← recased_iff.mp h, splitSign_map] at hsplit
    exact hsplit

theorem unsigned?_ne_nan (negative : Bool) (cs : List Char) (object : Option Nat) :
    unsigned? negative cs ≠ some (.nan object) := by
  intro h
  rw [unsigned?_eq] at h
  dsimp only at h
  split at h
  · cases h
  · obtain ⟨exponent, _, hnan⟩ := Option.map_eq_some_iff.mp h
    have hnot := congrArg Binary64.isNaN hnan
    rw [Binary64.isNaN_ofDecimal] at hnot
    cases hnot

/-- Digits and an exponent spell a number, so only the word spells that there is none. -/
theorem exists_real?_eq_nan_iff_splitSign : (∃ object, real? cs = some (.nan object)) ↔
    (splitSign (trim isMargin (cs.map plainDigit))).2.map Char.toLower = "nan".toList := by
  unfold real?
  dsimp only
  split
  · next hinf =>
      rw [Bool.or_eq_true, decide_eq_true_eq, decide_eq_true_eq] at hinf
      refine ⟨nofun, fun hnan => ?_⟩
      rw [hnan] at hinf
      exact absurd hinf (by decide)
  · split
    · next hnan => exact ⟨fun _ => hnan, fun _ => ⟨none, rfl⟩⟩
    · next hnan =>
        refine ⟨fun ⟨object, h⟩ => ?_, fun h => absurd h hnan⟩
        obtain ⟨digits, _, hread⟩ := Option.bind_eq_some_iff.mp h
        exact absurd hread (unsigned?_ne_nan _ _ object)

theorem keeps_plainDigit_isMargin : Keeps plainDigit isMargin := by
  intro c
  cases hc : isDecimalDigit c with
  | true =>
      have hmargin : isMargin c = false := by
        rw [isMargin, isBlank_of_isDecimalDigit hc, Bool.false_and]
      rw [hmargin, IsPlain.isMargin_eq (Or.inr (isDigit_plainDigit hc))]
  | false => rw [plainDigit_eq_self hc]

/-- Only a digit becomes a digit. -/
theorem map_plainDigit_eq_iff (hword : ∀ c ∈ word, isDecimalDigit c = false) :
    cs.map plainDigit = word ↔ cs = word := by
  have hself : ∀ ds : List Char, (∀ c ∈ ds, isDecimalDigit c = false) →
      ds.map plainDigit = ds := fun ds hds =>
    (List.map_congr_left fun c hc => plainDigit_eq_self (hds c hc)).trans (List.map_id _)
  constructor
  · rintro rfl
    refine (hself cs fun c hc => ?_).symm
    rw [Bool.eq_false_iff]
    intro hdigit
    have hnot := hword _ (List.mem_map_of_mem hc)
    rw [isDecimalDigit_of_isDigit (isDigit_plainDigit hdigit)] at hnot
    cases hnot
  · rintro rfl
    exact hself cs hword

theorem says_iff (hword : word ∈ words) : Says cs word ↔
    (splitSign (trim isMargin (cs.map plainDigit))).2.map Char.toLower = word := by
  have hletters : ∀ word ∈ words, ∀ sign ∈ signs, ∀ c ∈ (sign ++ word).map Char.toLower,
      isDecimalDigit c = false := by
    decide
  rw [Says, keeps_plainDigit_isMargin.trim_map, splitSign_eq_iff hword]
  refine exists_congr fun sign => and_congr_right fun hsign => ?_
  rw [recased_iff, recased_iff, map_toLower_plainDigit,
    map_plainDigit_eq_iff (hletters word hword sign hsign)]

/-- That there is no number is said by the word for it and by nothing else. -/
theorem exists_real?_eq_nan_iff :
    (∃ object, real? cs = some (.nan object)) ↔ Says cs "nan".toList := by
  rw [exists_real?_eq_nan_iff_splitSign, says_iff (by decide)]

end Cardfolio.Numeral
