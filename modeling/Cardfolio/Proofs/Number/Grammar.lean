import Cardfolio.Proofs.Number.Caseless

/-!
# The form of a numeral

A text spells a number when it is one of the words for what is no finite number, or a decimal:
digits before and behind a point, at least one of them, and perhaps a power of ten. A sign may
stand in front, blanks around it, and an underscore between any two digits.

Reading goes through a text from the left and decides where each part ends by the first character
that does not fit. A decimal is given here by its parts instead. Each part ends where reading ends
it, since the next one begins with another kind of character, so each step of reading finds the
part of its own, and what is read is given by the parts.
-/

namespace Cardfolio.Numeral

open Text

variable {cs ds fs before tail : List Char} {digits : Nat} {exponent : Int}

/-- A text with underscores, each between two digits, and the text without them. -/
structure IsJoined (cs ds : List Char) : Prop where
  eq : ds = cs.filter (· != '_')
  between : ∀ front back, cs = front ++ '_' :: back →
    front.getLast?.any Char.isDigit = true ∧ back.head?.any Char.isDigit = true

/-- What holds at every underscore holds at the first character, if it is one, and at the
underscores behind it. -/
theorem forall_underscore_cons {c : Char} {P : List Char → List Char → Prop} :
    (∀ front back, c :: cs = front ++ '_' :: back → P front back) ↔
      (c = '_' → P [] cs) ∧ ∀ front back, cs = front ++ '_' :: back → P (c :: front) back := by
  constructor
  · intro h
    refine ⟨?_, ?_⟩
    · rintro rfl
      exact h [] cs rfl
    · rintro front back rfl
      exact h (c :: front) back rfl
  · rintro ⟨hfirst, hrest⟩ front back heq
    cases front with
    | nil =>
        obtain ⟨rfl, rfl⟩ := List.cons.inj heq
        exact hfirst rfl
    | cons d front =>
        obtain ⟨rfl, rfl⟩ := List.cons.inj heq
        exact hrest front back rfl

theorem elim_getLast?_cons (c : Char) (cs : List Char) (b : Bool) (p : Char → Bool) :
    (c :: cs).getLast?.elim b p = cs.getLast?.elim (p c) p := by
  rw [List.getLast?_cons]
  cases cs.getLast? with
  | none => rfl
  | some d => rfl

theorem joinDigits_eq_some_iff {afterDigit : Bool} : joinDigits afterDigit cs = some ds ↔
    ds = cs.filter (· != '_') ∧ ∀ front back, cs = front ++ '_' :: back →
      front.getLast?.elim afterDigit Char.isDigit = true ∧
        back.head?.any Char.isDigit = true := by
  induction cs generalizing afterDigit ds with
  | nil =>
      rw [joinDigits, Option.some_inj, List.filter_nil]
      refine ⟨fun h => ⟨h.symm, fun front back h => ?_⟩, fun h => h.1.symm⟩
      exact absurd h.symm (List.append_ne_nil_of_right_ne_nil front (List.cons_ne_nil '_' back))
  | cons c cs ih =>
      simp only [forall_underscore_cons, elim_getLast?_cons, List.getLast?_nil, Option.elim_none]
      rw [joinDigits]
      by_cases hc : c = '_'
      · subst hc
        have hnot : Char.isDigit '_' = false := by decide
        rw [if_pos rfl, List.filter_cons_of_neg (by decide), hnot, Option.ite_none_right_eq_some,
          ih, Bool.and_eq_true]
        constructor
        · rintro ⟨hhere, heq, hrest⟩
          exact ⟨heq, fun _ => hhere, hrest⟩
        · rintro ⟨heq, hhere, hrest⟩
          exact ⟨hhere rfl, heq, hrest⟩
      · rw [if_neg hc, List.filter_cons_of_pos (by simpa using hc), Option.map_eq_some_iff]
        constructor
        · rintro ⟨es, hes, rfl⟩
          obtain ⟨rfl, hrest⟩ := ih.mp hes
          exact ⟨rfl, fun h => absurd h hc, hrest⟩
        · rintro ⟨rfl, _, hrest⟩
          exact ⟨_, ih.mpr ⟨rfl, hrest⟩, rfl⟩

theorem joinDigits_eq_some_iff_isJoined : joinDigits false cs = some ds ↔ IsJoined cs ds := by
  have helim : ∀ front : List Char,
      front.getLast?.elim false Char.isDigit = front.getLast?.any Char.isDigit := by
    intro front
    cases front.getLast? with
    | none => rfl
    | some c => rfl
  rw [joinDigits_eq_some_iff]
  simp only [helim]
  exact ⟨fun h => ⟨h.1, h.2⟩, fun h => ⟨h.1, h.2⟩⟩

/-- How a decimal ends: with nothing, or with digits behind an e and perhaps a sign. -/
inductive HasExponent : List Char → Int → Prop
  | none : HasExponent [] 0
  | power {e : Char} {sign digits : List Char} (he : e.toLower = 'e') (hsign : sign ∈ signs)
      (hne : digits ≠ []) (hdigits : ∀ c ∈ digits, c.isDigit = true) :
      HasExponent (e :: (sign ++ digits)) (Binary64.signed (isMinus sign) (value digits))

/-- What may stand behind the first digits of a decimal, and the digits in it. -/
inductive HasFraction : List Char → List Char → Prop
  | none : HasFraction [] []
  | point {digits : List Char} (hdigits : ∀ c ∈ digits, c.isDigit = true) :
      HasFraction ('.' :: digits) digits

/-- A decimal is its digits times a power of ten. -/
inductive IsDecimal : List Char → Nat → Int → Prop
  | mk {before fraction after tail : List Char} {exponent : Int}
      (hbefore : ∀ c ∈ before, c.isDigit = true) (hfraction : HasFraction fraction after)
      (hne : before ++ after ≠ []) (htail : HasExponent tail exponent) :
      IsDecimal (before ++ (fraction ++ tail)) (value (before ++ after)) (exponent - after.length)

theorem HasExponent.head (h : HasExponent tail exponent) :
    ∀ c ∈ tail.head?, c.isDigit = false ∧ c ≠ '.' := by
  cases h with
  | none => nofun
  | @power e _ _ he =>
      rintro c hc
      obtain rfl := Option.some.inj hc
      constructor
      · rw [← isCaseless_isDigit, he]
        decide
      · rintro rfl
        exact absurd he (by decide)

theorem exponent?_eq_some_iff : exponent? tail = some exponent ↔ HasExponent tail exponent := by
  constructor
  · intro h
    cases tail with
    | nil =>
        obtain rfl := Option.some.inj h
        exact .none
    | cons e cs =>
        obtain ⟨sign, hsign, hcs, hminus⟩ := exists_sign cs
        unfold exponent? at h
        dsimp only at h
        rw [Option.ite_none_right_eq_some, hminus] at h
        obtain ⟨hcond, hvalue⟩ := h
        simp only [Bool.and_eq_true, Bool.not_eq_true', decide_eq_true_eq, List.all_eq_true,
          List.isEmpty_eq_false_iff] at hcond
        obtain ⟨⟨he, hne⟩, hdigits⟩ := hcond
        obtain rfl := Option.some.inj hvalue
        have hpower := HasExponent.power he hsign hne hdigits
        rw [← hcs] at hpower
        exact hpower
  · intro h
    cases h with
    | none => rfl
    | @power e sign digits he hsign hne hdigits =>
        unfold exponent?
        dsimp only
        have hhead : ∀ c ∈ digits.head?, c ≠ '-' ∧ c ≠ '+' := fun c hc =>
          IsPlain.ne_sign (Or.inr (hdigits c (List.mem_of_mem_head? hc)))
        rw [splitSign_append hsign hhead, if_pos]
        · rfl
        · simpa [he, hne] using hdigits

theorem exists_splitFraction (cs : List Char) : ∃ fraction,
    cs = fraction ++ (splitFraction cs).2 ∧ HasFraction fraction (splitFraction cs).1 := by
  unfold splitFraction
  split
  · next cs =>
      refine ⟨'.' :: cs.takeWhile Char.isDigit, ?_, .point fun c hc => List.mem_takeWhile_imp hc⟩
      rw [List.cons_append, List.takeWhile_append_dropWhile]
  · exact ⟨[], rfl, .none⟩

/-- Digits end where no digit follows. -/
theorem digits_append (hds : ∀ c ∈ ds, c.isDigit = true)
    (hcs : ∀ c ∈ cs.head?, c.isDigit = false) :
    (ds ++ cs).takeWhile Char.isDigit = ds ∧ (ds ++ cs).dropWhile Char.isDigit = cs := by
  cases cs with
  | nil =>
      rw [List.append_nil]
      exact ⟨List.takeWhile_eq_self_iff.mpr hds, List.dropWhile_eq_nil_iff.mpr hds⟩
  | cons c cs => exact takeWhile_isDigit hds (hcs c rfl) cs

theorem HasFraction.splitFraction_append (h : HasFraction fs ds)
    (htail : HasExponent tail exponent) : splitFraction (fs ++ tail) = (ds, tail) := by
  cases h with
  | none =>
      cases tail with
      | nil => rfl
      | cons c tail => exact splitFraction_of_ne (htail.head c rfl).2 tail
  | point hdigits =>
      obtain ⟨htake, hdrop⟩ := digits_append hdigits fun c hc => (htail.head c hc).1
      exact Prod.ext htake hdrop

theorem HasFraction.head_append (h : HasFraction fs ds) (htail : HasExponent tail exponent) :
    ∀ c ∈ (fs ++ tail).head?, c.isDigit = false := by
  cases h with
  | none => exact fun c hc => (htail.head c hc).1
  | point _ =>
      intro c hc
      obtain rfl := Option.some.inj hc
      decide

/-- A numeral without sign and underscores is read when it is a decimal, as its value. -/
theorem unsigned?_eq_some_iff {negative : Bool} {x : Binary64} :
    unsigned? negative cs = some x ↔
      ∃ digits exponent,
        IsDecimal cs digits exponent ∧ x = .ofDecimal negative digits exponent := by
  rw [unsigned?_eq]
  dsimp only
  constructor
  · intro h
    rw [Option.ite_none_left_eq_some, Option.map_eq_some_iff] at h
    obtain ⟨hne, exponent, hexponent, rfl⟩ := h
    obtain ⟨fraction, hrest, hfraction⟩ := exists_splitFraction (cs.dropWhile Char.isDigit)
    have hne' :
        cs.takeWhile Char.isDigit ++ (splitFraction (cs.dropWhile Char.isDigit)).1 ≠ [] := by
      simpa using hne
    have hdecimal := IsDecimal.mk (fun c hc => List.mem_takeWhile_imp hc) hfraction hne'
      (exponent?_eq_some_iff.mp hexponent)
    rw [← hrest, List.takeWhile_append_dropWhile] at hdecimal
    exact ⟨_, _, hdecimal, rfl⟩
  · rintro ⟨_, _, ⟨hbefore, hfraction, hne, htail⟩, rfl⟩
    obtain ⟨htake, hdrop⟩ := digits_append hbefore (hfraction.head_append htail)
    rw [htake, hdrop, hfraction.splitFraction_append htail, exponent?_eq_some_iff.mpr htail]
    exact if_neg (by simpa using hne)

/-- A text that spells a decimal, with a sign or without. -/
inductive IsNumeral (cs : List Char) : Bool → Nat → Int → Prop
  | mk {sign body plain : List Char} {digits : Nat} {exponent : Int} (hsign : sign ∈ signs)
      (htext : trim isMargin (cs.map plainDigit) = sign ++ body) (hbody : IsJoined body plain)
      (hplain : IsDecimal plain digits exponent) : IsNumeral cs (isMinus sign) digits exponent

/-- A decimal begins with a digit or a point. -/
theorem IsDecimal.exists_cons (h : IsDecimal cs digits exponent) :
    ∃ c rest, cs = c :: rest ∧ IsPlain c := by
  cases h with
  | @mk before fraction after tail exponent hbefore hfraction hne htail =>
      cases before with
      | cons c before => exact ⟨c, _, rfl, Or.inr (hbefore c List.mem_cons_self)⟩
      | nil =>
          cases hfraction with
          | none => exact absurd rfl hne
          | point _ => exact ⟨'.', _, rfl, Or.inl rfl⟩

theorem IsJoined.exists_cons (h : IsJoined cs ds) (hds : IsDecimal ds digits exponent) :
    ∃ c rest, cs = c :: rest ∧ IsPlain c := by
  obtain ⟨c, rest, rfl, hc⟩ := hds.exists_cons
  cases cs with
  | nil => cases h.eq
  | cons d cs =>
      have hne : d ≠ '_' := by
        rintro rfl
        have hleft := (h.between [] cs rfl).1
        cases hleft
      have heq := h.eq
      rw [List.filter_cons_of_pos (by simpa using hne)] at heq
      obtain ⟨rfl, -⟩ := List.cons.inj heq
      exact ⟨c, cs, rfl, hc⟩

/-- No word begins with a digit or a point. -/
theorem map_toLower_ne_of_isPlain {word : List Char} {c : Char} (hword : word ∈ words)
    (hc : IsPlain c) (rest : List Char) : (c :: rest).map Char.toLower ≠ word := by
  rintro rfl
  have hletter : ∀ word ∈ words, word.head?.all (57 < ·.toNat) = true := by
    decide
  have hlarge : 57 < c.toLower.toNat := of_decide_eq_true (hletter _ hword)
  rw [hc.toLower_eq] at hlarge
  exact absurd hc.toNat.2 (Nat.not_le_of_lt hlarge)

theorem real?_of_isNumeral {negative : Bool} (h : IsNumeral cs negative digits exponent) :
    real? cs = some (.ofDecimal negative digits exponent) := by
  cases h with
  | @mk sign body plain _ _ hsign htext hbody hplain =>
      obtain ⟨c, rest, rfl, hc⟩ := hbody.exists_cons hplain
      have hword : ∀ word ∈ words, (c :: rest).map Char.toLower ≠ word :=
        fun word hword => map_toLower_ne_of_isPlain hword hc rest
      have hhead : ∀ d ∈ (c :: rest).head?, d ≠ '-' ∧ d ≠ '+' := fun d hd =>
        Option.some.inj hd ▸ hc.ne_sign
      unfold real?
      rw [htext, splitSign_append hsign hhead]
      dsimp only
      rw [if_neg, if_neg (hword _ (by decide)), joinDigits_eq_some_iff_isJoined.mpr hbody]
      · exact unsigned?_eq_some_iff.mpr ⟨_, _, hplain, rfl⟩
      · rw [Bool.or_eq_true, decide_eq_true_eq, decide_eq_true_eq, not_or]
        exact ⟨hword _ (by decide), hword _ (by decide)⟩

theorem real?_of_says {word : List Char} (hword : word ∈ infinities) (h : Says cs word) :
    ∃ negative, real? cs = some (.infinite negative) := by
  have hwords : ∀ word ∈ infinities,
      word ∈ words ∧ (word = "inf".toList || word = "infinity".toList) = true := by
    decide
  obtain ⟨hmem, heq⟩ := hwords word hword
  have hbody := (says_iff hmem).mp h
  refine ⟨(splitSign (trim isMargin (cs.map plainDigit))).1, ?_⟩
  unfold real?
  dsimp only
  rw [hbody, if_pos heq]

/-- What is read is one of the words or a decimal. -/
theorem real?_cases {x : Binary64} (h : real? cs = some x) :
    ((∃ object, x = .nan object) ∧ Says cs "nan".toList) ∨
      ((∃ negative, x = .infinite negative) ∧ ∃ word ∈ infinities, Says cs word) ∨
      ∃ negative digits exponent, IsNumeral cs negative digits exponent ∧
        x = .ofDecimal negative digits exponent := by
  obtain ⟨sign, hsign, htext, hminus⟩ := exists_sign (trim isMargin (cs.map plainDigit))
  unfold real? at h
  dsimp only at h
  split at h
  · next hinf =>
      rw [Bool.or_eq_true, decide_eq_true_eq, decide_eq_true_eq] at hinf
      refine Or.inr (Or.inl ⟨⟨_, (Option.some.inj h).symm⟩, ?_⟩)
      rcases hinf with hword | hword
      · exact ⟨_, by decide, (says_iff (by decide)).mpr hword⟩
      · exact ⟨_, by decide, (says_iff (by decide)).mpr hword⟩
  · split at h
    · next hnan => exact Or.inl ⟨⟨_, (Option.some.inj h).symm⟩, (says_iff (by decide)).mpr hnan⟩
    · obtain ⟨plain, hplain, hread⟩ := Option.bind_eq_some_iff.mp h
      obtain ⟨digits, exponent, hdecimal, rfl⟩ := unsigned?_eq_some_iff.mp hread
      refine Or.inr (Or.inr ⟨_, digits, exponent, ?_, rfl⟩)
      rw [hminus]
      exact .mk hsign htext (joinDigits_eq_some_iff_isJoined.mp hplain) hdecimal

end Cardfolio.Numeral
