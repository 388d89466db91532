import Cardfolio.Proofs.Number.Overflow
import Cardfolio.Proofs.Number.Room
import Cardfolio.Proofs.Pattern.Longest
import Cardfolio.Proofs.Pattern.Placed
import Cardfolio.Proofs.Pattern.Standing
import Cardfolio.Proofs.Question.Marks
import Cardfolio.Proofs.Text.Signs
import Cardfolio.Proofs.Text.WordByWord
import Cardfolio.Question.Percentage

/-!
# The sign and the word for per cent

In a text that has no digits but those of one decimal, it makes no difference whether the sign or
the word stands behind it. The mark that is there is read with the whole decimal, because nothing
in front of it can be a number. The other mark is not found: a number can only end within the
decimal, and what follows it there is a digit, a point or the mark that is there.

A percentage above a hundred is no fraction either. Between two edges of words a zero, a point and
digits can only be the whole decimal, and what is above a hundred is above one. So all that counts
is the double nearest to the decimal, with as many digits as it may have.
-/

namespace Cardfolio.Percentage

open Pattern Text Numeral
open Amount (plain Ends ends_of_gap exists_find?_number isWordChar_of_isDigit
  isWritten_of_spells_plain parts_spelled)

variable {left right tail gap d ds fs : List Char} {x : Binary64}

/-- ASCII digits, perhaps with a fraction. -/
structure IsPlainDecimal (d ds fs : List Char) : Prop where
  eq : d = ds ++ pointed fs
  ne_nil : ds ≠ []
  isDigit_whole : ∀ c ∈ ds, c.isDigit = true
  isDigit_fraction : ∀ c ∈ fs, c.isDigit = true

namespace IsPlainDecimal

theorem eq_point_or_isDigit (h : IsPlainDecimal d ds fs) {c : Char} (hc : c ∈ d) :
    c = '.' ∨ c.isDigit = true := by
  rw [h.eq, List.mem_append] at hc
  rcases hc with hc | hc
  · exact Or.inr (h.isDigit_whole c hc)
  · exact (mem_pointed hc).imp id (h.isDigit_fraction c)

theorem toNat_lt (h : IsPlainDecimal d ds fs) {c : Char} (hc : c ∈ d) : c.toNat < 65 := by
  rcases h.eq_point_or_isDigit hc with rfl | hdigit
  · decide
  · have := isDigit_iff.mp hdigit
    omega

theorem digits (h : IsPlainDecimal d ds fs) :
    (∀ c ∈ ds, isDecimalDigit c = true) ∧ ∀ c ∈ fs, isDecimalDigit c = true :=
  ⟨fun c hc => isDecimalDigit_of_isDigit (h.isDigit_whole c hc),
    fun c hc => isDecimalDigit_of_isDigit (h.isDigit_fraction c hc)⟩

/-- It is read as the double nearest to its value. -/
theorem real?_eq (h : IsPlainDecimal d ds fs) :
    real? d = some (.nearest false (value (ds ++ fs)) (10 ^ fs.length)) := by
  have hdigits : ∀ c ∈ ds ++ fs, c.isDigit = true :=
    List.forall_mem_append.mpr ⟨h.isDigit_whole, h.isDigit_fraction⟩
  have hplain : (ds ++ fs).map plainDigit = ds ++ fs :=
    (List.map_congr_left fun c hc => plainDigit_of_isDigit (hdigits c hc)).trans (List.map_id _)
  rw [h.eq, real?_pointed h.digits.1 h.digits.2
    (List.append_ne_nil_of_left_ne_nil h.ne_nil fs), hplain, Binary64.ofDecimal_eq_nearest,
    Binary64.fraction_neg]

end IsPlainDecimal

theorem digits_endWords : ∀ n < 10, caseIgnorable.contains (Char.ofNat (48 + n)) = false ∧
    casedLetters.contains (Char.ofNat (48 + n)) = false := by
  decide +kernel

theorem endsWords_of_isDigit {c : Char} (h : c.isDigit = true) : EndsWords c := by
  obtain ⟨hfirst, hlast⟩ := isDigit_iff.mp h
  have hcode := digits_endWords (c.toNat - 48) (by omega)
  rw [Nat.add_sub_cancel' hfirst, Char.ofNat_toNat] at hcode
  exact ⟨isSmall_of_lt (by omega), hcode.1, hcode.2⟩

theorem endsWords_percent : EndsWords '%' :=
  ⟨isSmall_of_lt (by decide), by decide +kernel, by decide +kernel⟩

/-- What stands in front of a decimal and behind it is made small by itself. -/
theorem IsPlainDecimal.lower_around (h : IsPlainDecimal d ds fs) {e : Char} (he : EndsWords e)
    (left right : List Char) :
    lower (left ++ (d ++ e :: right)) = lower left ++ (d ++ e :: lower right) := by
  obtain ⟨c, ds', rfl⟩ := List.exists_cons_of_ne_nil h.ne_nil
  obtain ⟨rest, rfl⟩ : ∃ rest, d = c :: rest := ⟨ds' ++ pointed fs, h.eq⟩
  have hrest : lower rest = rest :=
    lower_eq_self fun c' hc' => isSmall_of_lt (h.toNat_lt (List.mem_cons_of_mem c hc'))
  have hc : EndsWords c := endsWords_of_isDigit (h.isDigit_whole c List.mem_cons_self)
  rw [List.cons_append, lower_append_end hc, lower_append_end he, hrest, List.cons_append]

/-- What a number in front of a mark is worth. -/
def hundredth? (x : Binary64) : Option Binary64 :=
  if isUpTo 100 x then some (x.div (.nearest false 100 1)) else none

theorem IsPlainDecimal.marked?_eq (h : IsPlainDecimal d ds fs) (hx : real? d = some x) {q : Pattern}
    {rest : List Char} (hleft : ∀ c ∈ left, isDecimalDigit c = false)
    (hgap : ∀ c ∈ gap, isBlank c = true) (hrest : Stops .blank rest) (hends : Ends (gap ++ rest))
    (hq : ∀ (f : Thread → Option (List Char)) before pieces x,
      (∀ c, f ⟨c, pieces⟩ = some x) → q.firstThat f ⟨⟨before, rest⟩, pieces⟩ = some x) :
    marked? (seq (piece "number" plain) (seq room q)) (left ++ (d ++ (gap ++ rest)))
      = hundredth? x := by
  obtain ⟨m, hm, hnumber⟩ := exists_find?_number hleft h.ne_nil h.digits.1
    h.digits.2 hgap hrest hends hq
  rw [← List.append_assoc ds, ← h.eq] at hm
  rw [← h.eq] at hnumber
  unfold marked?
  rw [hm, Option.bind_eq_bind, Option.bind_some, ofMatch?, hnumber, hx]
  rfl

theorem IsPlainDecimal.marked?_withSign (h : IsPlainDecimal d ds fs) (hx : real? d = some x)
    (hleft : ∀ c ∈ left, isDecimalDigit c = false) (right : List Char) :
    marked? withSign (left ++ (d ++ ([] ++ '%' :: right))) = hundredth? x := by
  have hsign : withSign = seq (piece "number" plain) (seq room (spelled "%")) := rfl
  have hends : Ends ([] ++ '%' :: right) := ends_of_gap nofun (by decide)
  rw [hsign]
  exact h.marked?_eq hx hleft nofun (stops_of_cons (by decide)) hends
    fun f before pieces y hy => (firstThat_spelled "%" f before).trans (hy _)

theorem IsPlainDecimal.marked?_withWord (h : IsPlainDecimal d ds fs) (hx : real? d = some x)
    (hleft : ∀ c ∈ left, isDecimalDigit c = false) (hright : Stops .word right) :
    marked? withWord (left ++ (d ++ ([' '] ++ ("percent".toList ++ right)))) = hundredth? x := by
  have hword : withWord
      = seq (piece "number" plain) (seq room (seq (spelled "percent") edge)) := rfl
  have hgap : ∀ c ∈ [' '], isBlank c = true := List.forall_mem_singleton.mpr (by decide)
  have hends : Ends ([' '] ++ ("percent".toList ++ right)) :=
    ends_of_gap (c := 'p') hgap (by decide)
  have hstop : Stops .blank ("percent".toList ++ right) := stops_of_cons (c := 'p') (by decide)
  rw [hword]
  refine h.marked?_eq hx hleft hgap hstop hends fun f before pieces y hy => ?_
  rw [firstThat_seq, firstThat_spelled, firstThat_edge (isEdge_behind (by decide) hright)]
  exact hy _

/-! ## The mark that is not there -/

/-- A digit in a text whose other parts have none. -/
theorem exists_around_digit {front back : List Char} {z : Char}
    (hleft : ∀ c ∈ left, isDecimalDigit c = false) (htail : ∀ c ∈ tail, isDecimalDigit c = false)
    (hz : isDecimalDigit z = true) (h : left ++ (d ++ tail) = front ++ z :: back) :
    ∃ u v, d = u ++ z :: v ∧ front = left ++ u ∧ back = v ++ tail := by
  induction left generalizing front with
  | nil =>
      rw [List.nil_append] at h
      rcases List.append_eq_append_iff.mp h with ⟨u, _, hu⟩ | ⟨v, hd, hback⟩
      · have := htail z (by rw [hu]; simp)
        rw [hz] at this
        cases this
      · cases v with
        | nil =>
            have := htail z (by rw [← List.nil_append tail, ← hback]; exact List.mem_cons_self)
            rw [hz] at this
            cases this
        | cons y v =>
            obtain ⟨rfl, hv⟩ := List.cons.inj hback
            exact ⟨front, v, hd, rfl, hv⟩
  | cons c left ih =>
      obtain ⟨hc, hleft⟩ := List.forall_mem_cons.mp hleft
      cases front with
      | nil =>
          obtain ⟨rfl, _⟩ := List.cons.inj h
          rw [hz] at hc
          cases hc
      | cons c' front =>
          obtain ⟨rfl, hrest⟩ := List.cons.inj h
          obtain ⟨u, v, hd, rfl, hv⟩ := ih hleft hrest
          exact ⟨u, v, hd, rfl, hv⟩

/-- A number ends with a digit. -/
theorem exists_last_digit {s : List Char} (h : plain.Spells s) :
    ∃ front z, s = front ++ [z] ∧ isDecimalDigit z = true := by
  obtain ⟨ds, fs, hwritten, hds⟩ := isWritten_of_spells_plain h
  have hne : s ≠ [] := ne_nil_of_spells rfl h
  rw [hwritten.eq] at hne ⊢
  cases fs with
  | nil =>
      rw [pointed, List.append_nil] at hne ⊢
      exact ⟨ds.dropLast, ds.getLast hne, (List.dropLast_concat_getLast hne).symm,
        hds _ (List.getLast_mem hne)⟩
  | cons f fs =>
      have hne := List.cons_ne_nil f fs
      refine ⟨ds ++ '.' :: (f :: fs).dropLast, (f :: fs).getLast hne, ?_,
        hwritten.fraction _ (List.getLast_mem hne)⟩
      rw [List.append_assoc, List.cons_append, List.dropLast_concat_getLast hne]
      rfl

/-- A mark is not found when another character stands in its place. -/
theorem IsPlainDecimal.marked?_eq_none (h : IsPlainDecimal d ds fs) {q : Pattern} {c e : Char}
    {rest : List Char} (hparts : q.parts = []) (hq : ∀ s, q.Spells s → s.head? = some e)
    (he : isBlank e = false ∧ isDecimalDigit e = false ∧ e ≠ '.' ∧ e ≠ c)
    (hleft : ∀ c ∈ left, isDecimalDigit c = false) (hgap : ∀ c ∈ gap, isBlank c = true)
    (hrest : rest.head? = some c) (hc : isBlank c = false)
    (htail : ∀ c ∈ gap ++ rest, isDecimalDigit c = false) :
    marked? (seq (piece "number" plain) (seq room q)) (left ++ (d ++ (gap ++ rest))) = none := by
  obtain ⟨right, rfl⟩ := List.head?_eq_some_iff.mp hrest
  obtain ⟨heblank, hedigit, hepoint, hec⟩ := he
  have hroom : (seq room q).parts = [] := by
    simp [parts, room, many, maybe, hparts]
  suffices hnone : (seq (piece "number" plain) (seq room q)).find?
      (left ++ (d ++ (gap ++ c :: right))) = none by
    unfold marked?
    rw [hnone]
    rfl
  rw [Option.eq_none_iff_forall_ne_some]
  intro m hm
  obtain ⟨front, _, back, htext, hnumber, ⟨gap', s, hgap', hs, rfl⟩, _⟩ :=
    (occurs_of_find? hm).exists_first_piece hroom
  obtain ⟨s, rfl⟩ := List.head?_eq_some_iff.mp (hq s hs)
  have hgap' : ∀ c ∈ gap', isBlank c = true := spells_many.mp hgap'
  obtain ⟨number, z, hlast, hz⟩ := exists_last_digit hnumber
  have htext : left ++ (d ++ (gap ++ c :: right))
      = (front ++ number) ++ z :: (gap' ++ e :: (s ++ back)) := by
    rw [htext, hlast]
    simp
  obtain ⟨u, v, hd, _, hbehind⟩ := exists_around_digit hleft htail hz htext
  -- Past the blanks behind the number, the mark begins and something else stands.
  have hfirst : ((v ++ (gap ++ c :: right)).dropWhile isBlank).head? = some e := by
    rw [← hbehind, List.dropWhile_append_of_pos hgap',
      List.dropWhile_cons_of_neg (by rw [heblank]; exact Bool.false_ne_true), List.head?_cons]
  cases v with
  | nil =>
      rw [List.nil_append, List.dropWhile_append_of_pos hgap,
        List.dropWhile_cons_of_neg (by rw [hc]; exact Bool.false_ne_true)] at hfirst
      exact hec (Option.some.inj hfirst).symm
  | cons y v =>
      have hy := h.eq_point_or_isDigit (c := y) (by rw [hd]; simp)
      have hyblank : isBlank y = false := by
        rcases hy with rfl | hy
        · decide
        · exact isBlank_of_isDecimalDigit (isDecimalDigit_of_isDigit hy)
      rw [List.cons_append,
        List.dropWhile_cons_of_neg (by rw [hyblank]; exact Bool.false_ne_true)] at hfirst
      obtain rfl := Option.some.inj hfirst
      rcases hy with hy | hy
      · exact hepoint hy
      · rw [isDecimalDigit_of_isDigit hy] at hedigit
        cases hedigit

/-! ## Fractions -/

/-- The digits in front of the only point and those behind it. -/
theorem IsPlainDecimal.eq_of_point (h : IsPlainDecimal d ds fs) {u v : List Char}
    (hd : d = u ++ '.' :: v) : ds = u ∧ fs = v := by
  have hpoint : ∀ {cs : List Char}, (∀ c ∈ cs, c.isDigit = true) → '.' ∉ cs :=
    fun hcs hmem => absurd (hcs '.' hmem) (by decide)
  cases fs with
  | nil =>
      have hds := h.eq
      rw [pointed, List.append_nil, hd] at hds
      exact absurd (hds ▸ List.mem_append_right u List.mem_cons_self) (hpoint h.isDigit_whole)
  | cons f fs =>
      have heq : ds ++ '.' :: (f :: fs) = u ++ '.' :: v := h.eq.symm.trans hd
      obtain ⟨hds, _, hfs⟩ :=
        (List.append_cons_inj_of_notMem (hpoint h.isDigit_whole) (hpoint h.isDigit_fraction)).mp heq
      exact ⟨hds, hfs⟩

/-- Between two edges there is no other fraction than the decimal. -/
theorem IsPlainDecimal.eq_of_edged (h : IsPlainDecimal d ds fs) {front w back : List Char}
    (hleft : ∀ c ∈ left, isDecimalDigit c = false) (htail : ∀ c ∈ tail, isDecimalDigit c = false)
    (hends : Ends tail) (htext : left ++ (d ++ tail) = front ++ (w ++ back))
    (hw : (seq (spelled "0.") (run .digit)).Spells w)
    (hedge : Cursor.isEdge ⟨front.reverse, w ++ back⟩ = true)
    (hedge' : Cursor.isEdge ⟨w.reverse ++ front.reverse, back⟩ = true) : w = d := by
  obtain ⟨a, r, ha, ⟨hne, hr⟩, rfl⟩ := hw
  obtain rfl : a = ['0', '.'] := spells_spelled ha
  obtain ⟨u, v, hd, rfl, hrest⟩ := exists_around_digit (z := '0') hleft htail (by decide) htext
  obtain ⟨v, rfl⟩ : ∃ v', v = '.' :: v' := by
    cases v with
    | nil => exact absurd rfl (hends '.' (by rw [← List.nil_append tail, ← hrest]; rfl)).1
    | cons y v => exact ⟨v, by rw [← (List.cons.inj hrest).1]⟩
  have hrest : r ++ back = v ++ tail := (List.cons.inj hrest).2
  obtain ⟨rfl, rfl⟩ := h.eq_of_point (u := u ++ ['0']) (by rw [hd, List.append_assoc]; rfl)
  -- In front of an edge and a digit there is no other digit.
  have hstops : Stops .word (left ++ u).reverse :=
    stops_of_isEdge_ahead (c := '0') (by decide) hedge
  obtain rfl : u = [] := by
    rcases List.eq_nil_or_concat u with rfl | ⟨u, y, rfl⟩
    · rfl
    · have hy := h.isDigit_whole y (by simp)
      have hstop : isWordChar y = false := hstops y (by simp)
      rw [isWordChar_of_isDigit hy] at hstop
      cases hstop
  suffices hfs : r = fs by
    rw [hd, hfs]
    rfl
  rcases List.append_eq_append_iff.mp hrest with ⟨t, rfl, hback⟩ | ⟨t, rfl, htail'⟩
  · cases t with
    | nil => exact (List.append_nil r).symm
    | cons y t =>
        have hy := h.isDigit_fraction y (by simp)
        have hword : ∀ c ∈ r, isWordChar c = true :=
          fun c hc => isWordChar_of_isDigit (h.isDigit_fraction c (List.mem_append_left _ hc))
        rw [List.reverse_append, List.append_assoc] at hedge'
        have hstop : isWordChar y = false :=
          stops_of_isEdge_behind_word hne hword hedge' y (by rw [hback]; rfl)
        rw [isWordChar_of_isDigit hy] at hstop
        cases hstop
  · cases t with
    | nil => exact List.append_nil fs
    | cons y t =>
        have hy : isDecimalDigit y = true := hr y (by simp)
        rw [htail y (by rw [htail']; simp)] at hy
        cases hy

theorem isUpTo_hundred (h : isUpTo 1 x = true) : isUpTo 100 x = true := by
  obtain ⟨hpositive, hone⟩ := Bool.and_eq_true_iff.mp h
  have hlt : (Number.whole 1).lt (.whole 100) = true := by decide +kernel
  exact Bool.and_eq_true_iff.mpr ⟨hpositive, Number.le_of_lt (Number.lt_of_le_of_lt hone hlt)⟩

theorem IsPlainDecimal.fraction?_eq_none (h : IsPlainDecimal d ds fs) (hx : real? d = some x)
    (hleft : ∀ c ∈ left, isDecimalDigit c = false) (htail : ∀ c ∈ tail, isDecimalDigit c = false)
    (hends : Ends tail) (hlarge : isUpTo 100 x = false) :
    fraction? (left ++ (d ++ tail)) = none := by
  have hedged : fraction
      = seq edge (seq (piece "number" (seq (spelled "0.") (run .digit))) edge) := rfl
  unfold fraction?
  cases hfind : fraction.find? (left ++ (d ++ tail)) with
  | none => rfl
  | some m =>
      rw [hedged] at hfind
      obtain ⟨front, back, htext, hw, hedge, hedge'⟩ :=
        (occurs_of_find? hfind).exists_edged_piece
      have hnumber : m.pieceText "number" = d :=
        h.eq_of_edged hleft htail hends htext hw hedge hedge'
      have hone : isUpTo 1 x = false := by
        rw [Bool.eq_false_iff]
        intro hone
        rw [isUpTo_hundred hone] at hlarge
        cases hlarge
      rw [Option.bind_eq_bind, Option.bind_some, ofMatch?, hnumber, hx]
      show (if isUpTo 1 x then some x else none) = none
      rw [hone, if_neg Bool.false_ne_true]

/-! ## Either mark -/

theorem zero_le_nearest (num den : Nat) :
    (Number.whole 0).le (.real (.nearest false num den)) = true := by
  unfold Binary64.nearest Binary64.nearestUnits
  split
  · next hr =>
      have hplace : (Number.real (.finite false _ ⟨hr, Binary64.spacing_roundUnits_dvd _ _⟩)).place?
          = some (.units (Binary64.roundUnits (num * Binary64.one) den)) := rfl
      rw [Number.le, Number.lt_eq Number.place?_zero hplace,
        Number.same_eq Number.place?_zero hplace]
      show (decide _ || decide _) = true
      rw [Bool.or_eq_true, decide_eq_true_eq, decide_eq_true_eq, Place.units.injEq]
      omega
  · exact Number.le_of_lt rfl

theorem hundredth?_eq (num den : Nat) (hx : Binary64.nearest false num den = x) :
    hundredth? x = if (Number.real x).le (.whole 100) then some (x.div (.nearest false 100 1))
      else none := by
  have hzero := zero_le_nearest num den
  rw [hx] at hzero
  rw [hundredth?, isUpTo, hzero, Bool.true_and]

theorem first_eq_of_marks {text : List Char} {r : Option Binary64}
    (hmarks : (marked? withSign (lower text)).or (marked? withWord (lower text)) = r)
    (hfraction : r = none → fraction? (lower text) = none) : first text = r := by
  have hfirst : first text
      = ((marked? withSign (lower text)).or (marked? withWord (lower text))).or
        (fraction? (lower text)) := by
    unfold first
    dsimp only
    rw [List.findSome?_cons, List.findSome?_cons, List.findSome?_singleton]
    cases marked? withSign (lower text) with
    | none => cases marked? withWord (lower text) <;> rfl
    | some y => rfl
  rw [hfirst, hmarks]
  cases r with
  | none => rw [hfraction rfl, Option.or_none]
  | some y => rfl

theorem isUpTo_eq_false (h : hundredth? x = none) : isUpTo 100 x = false := by
  unfold hundredth? at h
  split at h
  · cases h
  · next hlarge => exact Bool.eq_false_iff.mpr hlarge

theorem IsPlainDecimal.first_sign (h : IsPlainDecimal d ds fs) (hx : real? d = some x)
    (hleft : ∀ c ∈ left, isDecimalDigit c = false)
    (hright : ∀ c ∈ right, isDecimalDigit c = false) :
    first (left ++ (d ++ '%' :: right)) = hundredth? x := by
  have hlower := h.lower_around endsWords_percent left right
  have hleft := staysOut_isDecimalDigit.of_mem_lower hleft
  have hright := staysOut_isDecimalDigit.of_mem_lower hright
  have hgap : ∀ c ∈ [], isBlank c = true := nofun
  have hends : Ends ([] ++ '%' :: lower right) := ends_of_gap hgap (by decide)
  have htail : ∀ c ∈ [] ++ '%' :: lower right, isDecimalDigit c = false :=
    List.forall_mem_cons.mpr ⟨by decide, hright⟩
  have hnone : marked? withWord (lower left ++ (d ++ ([] ++ '%' :: lower right))) = none := by
    refine h.marked?_eq_none (q := seq (spelled "percent") edge) (e := 'p') ?_ ?_ (by decide) hleft
      hgap rfl (by decide) htail
    · rw [parts, parts_spelled]
      rfl
    · rintro s ⟨a, b, ha, _, rfl⟩
      rw [spells_spelled ha]
      rfl
  refine first_eq_of_marks ?_ fun hlarge => ?_
  · rw [hlower]
    exact (congrArg₂ Option.or (h.marked?_withSign hx hleft _) hnone).trans Option.or_none
  · rw [hlower]
    exact h.fraction?_eq_none hx hleft htail hends (isUpTo_eq_false hlarge)

theorem toList_percent : " percent ".toList = ' ' :: ("percent".toList ++ [' ']) := by
  decide

theorem lower_percent (right : List Char) :
    lower ("percent".toList ++ ' ' :: right) = "percent".toList ++ ' ' :: lower right := by
  have hletters : lower "percent".toList = "percent".toList := by decide +kernel
  rw [lower_append_blank (by decide), hletters]

theorem IsPlainDecimal.first_word (h : IsPlainDecimal d ds fs) (hx : real? d = some x)
    (hleft : ∀ c ∈ left, isDecimalDigit c = false)
    (hright : ∀ c ∈ right, isDecimalDigit c = false) :
    first (left ++ (d ++ (" percent ".toList ++ right))) = hundredth? x := by
  have hlower := h.lower_around (endsWords_of_isBlank (b := ' ') (by decide)) left
    ("percent".toList ++ ' ' :: right)
  rw [lower_percent] at hlower
  have hleft := staysOut_isDecimalDigit.of_mem_lower hleft
  have hright := staysOut_isDecimalDigit.of_mem_lower hright
  have hgap : ∀ c ∈ [' '], isBlank c = true := List.forall_mem_singleton.mpr (by decide)
  have hends : Ends ([' '] ++ ("percent".toList ++ ' ' :: lower right)) :=
    ends_of_gap (c := 'p') hgap (by decide)
  have hright : ∀ c ∈ ' ' :: lower right, isDecimalDigit c = false :=
    List.forall_mem_cons.mpr ⟨by decide, hright⟩
  have hletters : ∀ c ∈ "percent".toList, isDecimalDigit c = false := by decide
  have htail : ∀ c ∈ [' '] ++ ("percent".toList ++ ' ' :: lower right),
      isDecimalDigit c = false :=
    List.forall_mem_append.mpr ⟨List.forall_mem_singleton.mpr (by decide),
      List.forall_mem_append.mpr ⟨hletters, hright⟩⟩
  have hnone : marked? withSign
      (lower left ++ (d ++ ([' '] ++ ("percent".toList ++ ' ' :: lower right)))) = none := by
    refine h.marked?_eq_none (q := spelled "%") (c := 'p') (e := '%') (parts_spelled "%")
      (fun s hs => ?_) (by decide) hleft hgap rfl (by decide) htail
    rw [spells_spelled hs]
    rfl
  rw [toList_percent, List.cons_append, List.append_assoc, List.singleton_append]
  refine first_eq_of_marks ?_ fun hlarge => ?_
  · rw [hlower]
    exact (congrArg₂ Option.or hnone
      (h.marked?_withWord hx hleft (stops_of_cons (by decide)))).trans Option.none_or
  · rw [hlower]
    exact h.fraction?_eq_none hx hleft htail hends (isUpTo_eq_false hlarge)

/-- The sign and the word behind the only digits of a text mean the same: a hundredth of the double
nearest to the decimal, up to a hundred. -/
theorem first_sign_eq_word (hleft : ∀ c ∈ left, isDecimalDigit c = false)
    (hright : ∀ c ∈ right, isDecimalDigit c = false) (hd : IsPlainDecimal d ds fs)
    (hx : Binary64.nearest false (value (ds ++ fs)) (10 ^ fs.length) = x) :
    first (left ++ (d ++ '%' :: right)) = first (left ++ (d ++ (" percent ".toList ++ right))) ∧
    first (left ++ (d ++ '%' :: right)) =
      if (Number.real x).le (.whole 100) then some (x.div (.nearest false 100 1)) else none := by
  have hreal : real? d = some x := hx ▸ hd.real?_eq
  rw [hd.first_sign hreal hleft hright, hd.first_word hreal hleft hright]
  exact ⟨rfl, hundredth?_eq _ _ hx⟩

theorem first_sign_eq_word_apr :
    (∀ c ∈ "APR up to ".toList, isDecimalDigit c = false) ∧
    (∀ c ∈ " or so".toList, isDecimalDigit c = false) ∧
    IsPlainDecimal "24.50".toList "24".toList "50".toList ∧
    first ("APR up to ".toList ++ ("24.50".toList ++ '%' :: " or so".toList))
      = first ("APR up to ".toList ++ ("24.50".toList ++ (" percent ".toList ++ " or so".toList))) ∧
    first ("APR up to ".toList ++ ("24.50".toList ++ '%' :: " or so".toList))
      = some ((Binary64.nearest false 2450 100).div (.nearest false 100 1)) := by
  have hleft : ∀ c ∈ "APR up to ".toList, isDecimalDigit c = false := by decide +kernel
  have hright : ∀ c ∈ " or so".toList, isDecimalDigit c = false := by decide +kernel
  have hd : IsPlainDecimal "24.50".toList "24".toList "50".toList :=
    ⟨by decide, by decide, by decide, by decide⟩
  have hx : Binary64.nearest false (value ("24".toList ++ "50".toList)) (10 ^ "50".toList.length)
      = .nearest false 2450 100 :=
    congrArg (Binary64.nearest false · 100) (by decide +kernel)
  have hle : (Number.real (.nearest false 2450 100)).le (.whole 100) = true := by decide +kernel
  obtain ⟨heq, hvalue⟩ := first_sign_eq_word hleft hright hd hx
  rw [if_pos hle] at hvalue
  exact ⟨hleft, hright, hd, heq, hvalue⟩

end Cardfolio.Percentage
