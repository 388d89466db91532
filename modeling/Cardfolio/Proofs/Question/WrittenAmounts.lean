import Cardfolio.Proofs.Question.DigitThreshold
import Cardfolio.Proofs.Question.Literals
import Cardfolio.Proofs.Question.Marks
import Cardfolio.Proofs.Question.Written

/-!
# Amounts as they are written

A whole number is written with its digits, perhaps with a comma between the thousands, and a sign
or a word around it makes it an amount. Both scans read such an amount back, the one as the
single amount, the other as the only one. What one has to know about the particular text is
little: that its mark is found, with the number that is meant, and that no mark stands on the
other side. All other matches are then excluded by there being a single literal (`reads_one`).

Without a mark the number is a bare one, which is found whole because it begins and ends with a
digit, and is taken if that many digits are enough. The thousandfold of a number is in range, as
is that of any number in a short text.
-/

namespace Cardfolio

open Pattern Text

namespace Numeral

theorem head?_commas (ds : List Char) : (commas ds).head? = ds.head? := by
  fun_cases commas ds with
  | case1 => rfl
  | case2 => rfl

/-- A written number that ends with a digit. -/
structure IsClosed (n : Nat) (cs : List Char) : Prop extends IsWritten n cs where
  last : ∀ c ∈ cs.getLast?, c.isDigit = true

theorem isClosed_of_written {n : Nat} {cs : List Char}
    (h : cs = Nat.toDigits 10 n ∨ cs = grouped n) : IsClosed n cs := by
  rcases h with rfl | rfl
  · exact ⟨isWritten_toDigits n, fun c hc => isDigit_of_mem_toDigits c (List.mem_of_getLast? hc)⟩
  · refine ⟨isWritten_grouped n, fun c hc => ?_⟩
    rw [grouped, List.getLast?_reverse, head?_commas, List.head?_reverse] at hc
    exact isDigit_of_mem_toDigits c (List.mem_of_getLast? hc)

variable {n : Nat} {cs : List Char}

theorem IsWritten.ne_nil (h : IsWritten n cs) : cs ≠ [] := by
  obtain ⟨first, rest, rfl, _⟩ := h.exists_cons
  exact List.cons_ne_nil first rest

theorem IsWritten.isDecimalDigit (h : IsWritten n cs) :
    ∀ c ∈ cs, c = ',' ∨ isDecimalDigit c = true :=
  fun c hc => (h.mem c hc).imp_right isDecimalDigit_of_isDigit

theorem IsWritten.ne_dollar (h : IsWritten n cs) : ∀ c ∈ cs, c ≠ '$' := by
  rintro c hc rfl
  rcases h.mem '$' hc with hcomma | hdigit
  · exact absurd hcomma (by decide)
  · exact absurd hdigit (by decide)

end Numeral

namespace Amount

open Numeral

variable {n : Nat} {cs text run : List Char} {allowThousands : Bool}

/-- The digits of a number of up to 2⁵³ spell it as an amount. -/
theorem ofDigits?_of_isWritten (h : Numeral.IsWritten n cs) (hpos : 0 < n) (hn : n ≤ 2 ^ 53) :
    ofDigits? cs = some (.whole n) := by
  have hwritten : IsWritten cs cs [] :=
    ⟨(List.append_nil cs).symm, h.isDecimalDigit, List.forall_mem_nil _⟩
  have hdigit : ∀ c, c.isDigit = true → (c != ',') = true := fun c hc =>
    bne_iff_ne.mpr (ne_comma_of_isDecimalDigit (isDecimalDigit_of_isDigit hc))
  have hfilter : cs.filter (· != ',') = Nat.toDigits 10 n := h.filter_eq hdigit (by decide)
  have hplain : (Nat.toDigits 10 n).map plainDigit = Nat.toDigits 10 n := by
    rw [List.map_congr_left fun c hc => plainDigit_of_isDigit (isDigit_of_mem_toDigits c hc),
      List.map_id']
  have hdecimal :
      Binary64.ofDecimal false (Numeral.value ((cs.filter (· != ',') ++ []).map plainDigit))
        (-(([] : List Char).length : Int)) = .ofDecimal false n 0 := by
    rw [List.append_nil, hfilter, hplain, value_toDigits]
    rfl
  have hzero : (Binary64.ofDecimal false n 0).isZero = false :=
    Binary64.isZero_ofDecimal_eq_false (Nat.ne_of_gt hpos) (Nat.zero_le 2)
  rw [hwritten.ofDigits?_eq hdecimal, hzero, Binary64.settle_ofDecimal hn]
  rfl

theorem thousandfold_of_le (hn : n ≤ 2 ^ 53) :
    thousandfold (.whole n) = .ok (.whole (1000 * n)) := by
  have hwide : 10 ^ 16 ≤ Binary64.wide := Binary64.pow_le_wide (by decide)
  rw [Int.mul_comm]
  refine thousandfold_whole (Binary64.ofInt?_isSome ?_)
  omega

/-! ## One literal that is marked on one side -/

theorem not_isForeignDigit {c : Char} (h : c.toNat < 128) : ¬ IsForeignDigit c := by
  rintro ⟨hdecimal, hdigit⟩
  rw [Bool.eq_false_iff, Ne, isDigit_iff] at hdigit
  rw [isDecimalDigit, digitValue?, if_pos h, if_neg] at hdecimal
  · cases hdecimal
  · rw [Bool.and_eq_true, decide_eq_true_eq, decide_eq_true_eq]
    exact hdigit

theorem literals_around (front back : List Char) (hfront : ∀ c ∈ front, isPlainFigure c = false)
    (hback : ∀ c ∈ back, isPlainFigure c = false) (h : Numeral.IsWritten n cs) :
    literals (front ++ (cs ++ back)) = [cs] := by
  have hcs : ∀ c ∈ cs, (!isPlainFigure c) = false := by
    intro c hc
    rw [Bool.not_eq_false', isPlainFigure, Bool.or_eq_true, Bool.or_eq_true, beq_iff_eq]
    exact Or.inl ((h.mem c hc).symm)
  rw [literals, partsBy_gap_append (fun c hc => by rw [hfront c hc]; rfl),
    partsBy_append_gap (fun c hc => by rw [hback c hc]; rfl), partsBy_of_forall h.ne_nil hcs]

/-- A text that stays as it is in small letters and has no digits of other scripts. -/
def IsSimple (text : List Char) : Prop :=
  ∀ c ∈ text, c.toNat < 65 ∨ c.isLower = true

theorem IsSimple.lower_eq (h : IsSimple text) : lower text = text :=
  lower_eq_self fun c hc =>
    (h c hc).elim (fun hlt => isSmall_of_lt hlt) fun hlower => (isPlain_of_isLower hlower).1

theorem IsSimple.not_isForeignDigit (h : IsSimple text) : ∀ c ∈ text, ¬ IsForeignDigit c := by
  intro c hc
  rcases h c hc with hlt | hlower
  · exact Amount.not_isForeignDigit (Nat.lt_trans hlt (by decide))
  · exact Amount.not_isForeignDigit (Nat.lt_of_le_of_lt (isLower_iff.mp hlower).2 (by decide))

/-- A short text has no number that is too large for a thousandfold. -/
theorem exists_firstMarked (allowThousands : Bool) (hlength : (lower text).length ≤ 305) :
    ∃ found, firstMarked allowThousands (lower text) = .ok found := by
  cases h : firstMarked allowThousands (lower text) with
  | ok found => exact ⟨found, rfl⟩
  | error f =>
      have hfirst : first 1 allowThousands text = .error f := by
        rw [first_eq_firstMarked, h]
        rfl
      obtain ⟨_, digits, hdigits, hmany, _⟩ := exists_run_of_first_eq_error hfirst
      have := hdigits.length_le
      omega

theorem exists_all (allowThousands : Bool) (hlength : (lower text).length ≤ 305) :
    ∃ amounts, all allowThousands text = .ok amounts := by
  cases h : all allowThousands text with
  | ok amounts => exact ⟨amounts, rfl⟩
  | error f =>
      obtain ⟨_, digits, hdigits, hmany, _⟩ := exists_run_of_all_eq_error h
      have := hdigits.length_le
      omega

variable {amount x : Number}

/-- When there is a single literal and it is marked on one side, both scans agree on it. -/
theorem reads_one (mark : Mark) (htext : IsSimple text) (hlength : text.length ≤ 305)
    (hliteral : literals text = [run]) (hallowed : mark = .thousands → allowThousands = true)
    (hfound : marked? mark.pattern text = some amount) (hvalue : mark.value amount = .ok x)
    (hside : ∀ mark' m y, Marked allowThousands text mark' m y → (mark' = .sign ↔ mark = .sign))
    (minDigits : Int) :
    first minDigits allowThousands text = .ok (some x) ∧ all allowThousands text = .ok [x] := by
  obtain ⟨start, stop, hrun⟩ := exists_onlyRun hliteral
  obtain ⟨found, hfirst⟩ := exists_firstMarked allowThousands (htext.lower_eq.symm ▸ hlength)
  obtain ⟨amounts, hall⟩ := exists_all allowThousands (htext.lower_eq.symm ▸ hlength)
  have hlisting := isListing_of_all hall
  rw [htext.lower_eq] at hrun hfirst hlisting
  obtain ⟨m, hm, hamount⟩ := exists_mem_of_marked? mark hfound
  have hmarked : Marked allowThousands text mark m x := ⟨hallowed, hm, amount, hamount, hvalue⟩
  have hplain : ∀ {mark m y}, Marked allowThousands text mark m y →
      ∀ c ∈ m.pieceText "number", ¬ IsForeignDigit c := by
    intro mark m y hy c hc
    exact htext.not_isForeignDigit c ((mark.isMark.spells hy.occurs).2.subset hc)
  have hsame : ∀ mark' m' y, Marked allowThousands text mark' m' y → y = x := by
    intro mark' m' y hy
    have hsides := hside mark' m' y hy
    by_cases hsign : mark = .sign
    · obtain rfl := hsides.mpr hsign
      subst hsign
      exact hy.eq_of_sign hmarked hrun (hplain hy) (hplain hmarked)
    · exact hy.eq_of_not_sign hmarked (mt hsides.mp hsign) hsign hrun (hplain hy) (hplain hmarked)
  constructor
  · rw [first_eq_some_iff, htext.lower_eq]
    cases found with
    | none =>
        rw [marked?_eq_none_of_firstMarked hfirst hallowed] at hfound
        cases hfound
    | some y =>
        obtain ⟨mark', m', hy⟩ := exists_marked_of_firstMarked hfirst
        rw [hsame mark' m' y hy] at hfirst
        exact Or.inl hfirst
  · rw [hall, hlisting.eq_singleton hmarked hsame]

/-! ## The ways of marking a written number -/

theorem Mark.le_of_letter {mark : Mark} {c : Char} (h : c ∈ mark.letters) : 65 ≤ c.toNat := by
  cases mark <;> simp only [Mark.letters, List.mem_cons, List.not_mem_nil, or_false] at h
  · rcases h with rfl | rfl | rfl <;> decide
  · subst h
    decide

/-- Only a dollar sign marks a text without letters. -/
theorem Marked.eq_sign (htext : ∀ c ∈ text, c.toNat < 65) {mark : Mark} {m : Match}
    (h : Marked allowThousands text mark m x) : mark = .sign := by
  by_contra hmark
  obtain ⟨c, hc, hmem⟩ := h.exists_letter_mem hmark
  have := Mark.le_of_letter hc
  have := htext c hmem
  omega

theorem Marked.ne_sign (htext : ∀ c ∈ text, c ≠ '$') {mark : Mark} {m : Match}
    (h : Marked allowThousands text mark m x) : mark ≠ .sign := by
  rintro rfl
  exact htext '$' h.sign_mem rfl

theorem forall_mem_currencyNames : ∀ w ∈ currencyNames,
    (∀ c ∈ ' ' :: w.toList, ((c.toNat < 65 ∨ c.isLower = true) ∧ c ≠ '$') ∧
      isPlainFigure c = false) ∧ (' ' :: w.toList).length ≤ 8 := by
  decide

theorem length_le_of_isWritten (h : Numeral.IsWritten n cs) (hn : n ≤ 2 ^ 53) :
    cs.length ≤ 32 := by
  have := h.length_le
  have := Binary64.length_toDigits_le hn
  omega

theorem reads_dollarSign (h : Numeral.IsWritten n cs) (hpos : 0 < n) (hn : n ≤ 2 ^ 53)
    (minDigits : Int) (allowThousands : Bool) :
    first minDigits allowThousands ('$' :: cs) = .ok (some (.whole n)) ∧
      all allowThousands ('$' :: cs) = .ok [.whole n] := by
  have hsigns : ∀ c ∈ '$' :: cs, c.toNat < 65 :=
    List.forall_mem_cons.mpr ⟨by decide, fun c hc => (h.isSign c hc).1⟩
  have hlength := length_le_of_isWritten h hn
  have hliteral : literals ('$' :: cs) = [cs] := by
    have := literals_around ['$'] [] (by decide) (List.forall_mem_nil _) h
    rwa [List.append_nil] at this
  have hfound : marked? dollarSign ('$' :: cs) = some (.whole n) := by
    have hread : marked? dollarSign ([] ++ '$' :: ([] ++ (cs ++ (pointed [] ++ []))))
        = ofDigits? (cs ++ pointed ([].take 2)) :=
      marked?_dollarSign List.not_mem_nil (List.forall_mem_nil _) h.ne_nil h.isDecimalDigit
        (List.forall_mem_nil _) ends_nil
    rw [← ofDigits?_of_isWritten h hpos hn]
    simpa [pointed] using hread
  refine reads_one .sign (fun c hc => Or.inl (hsigns c hc)) ?_ hliteral (absurd · (by decide))
    hfound rfl (fun mark' m y hy => ?_) minDigits
  · rw [List.length_cons]
    omega
  · exact iff_of_true (hy.eq_sign hsigns) rfl

theorem reads_currencyWord (h : Numeral.IsWritten n cs) (hpos : 0 < n) (hn : n ≤ 2 ^ 53)
    {w : String} (hw : w ∈ currencyNames) (minDigits : Int) (allowThousands : Bool) :
    first minDigits allowThousands (cs ++ ' ' :: w.toList) = .ok (some (.whole n)) ∧
      all allowThousands (cs ++ ' ' :: w.toList) = .ok [.whole n] := by
  obtain ⟨hback, hshort⟩ := forall_mem_currencyNames w hw
  have hlength := length_le_of_isWritten h hn
  have htext : ∀ c ∈ cs ++ ' ' :: w.toList, (c.toNat < 65 ∨ c.isLower = true) ∧ c ≠ '$' := by
    rw [List.forall_mem_append]
    exact ⟨fun c hc => ⟨Or.inl (h.isSign c hc).1, h.ne_dollar c hc⟩,
      fun c hc => (hback c hc).1⟩
  have hliteral : literals (cs ++ ' ' :: w.toList) = [cs] :=
    literals_around [] (' ' :: w.toList) (List.forall_mem_nil _)
      (fun c hc => (hback c hc).2) h
  have hfound : marked? currencyWord (cs ++ ' ' :: w.toList) = some (.whole n) := by
    have hread : marked? currencyWord ([] ++ (cs ++ (pointed [] ++ ([' '] ++ w.toList))))
        = ofDigits? (cs ++ pointed []) :=
      marked?_currencyWord (List.forall_mem_nil _) h.ne_nil h.isDecimalDigit
        (List.forall_mem_nil _) (Nat.zero_le 2) (by decide) hw
    rw [← ofDigits?_of_isWritten h hpos hn]
    simpa [pointed] using hread
  refine reads_one .word (fun c hc => (htext c hc).1) ?_ hliteral (absurd · (by decide)) hfound rfl
    (fun mark' m y hy => ?_) minDigits
  · rw [List.length_append]
    omega
  · exact iff_of_false (hy.ne_sign fun c hc => (htext c hc).2) (by decide)

theorem reads_thousands (hpos : 0 < n) (hn : n ≤ 2 ^ 53) (minDigits : Int) :
    first minDigits true (Nat.toDigits 10 n ++ ['k']) = .ok (some (.whole (1000 * n))) ∧
      all true (Nat.toDigits 10 n ++ ['k']) = .ok [.whole (1000 * n)] := by
  have h := isWritten_toDigits n
  have hlength := length_le_of_isWritten h hn
  have htext : ∀ c ∈ Nat.toDigits 10 n ++ ['k'], (c.toNat < 65 ∨ c.isLower = true) ∧ c ≠ '$' := by
    rw [List.forall_mem_append]
    exact ⟨fun c hc => ⟨Or.inl (h.isSign c hc).1, h.ne_dollar c hc⟩, by decide⟩
  have hliteral : literals (Nat.toDigits 10 n ++ ['k']) = [Nat.toDigits 10 n] :=
    literals_around [] ['k'] (List.forall_mem_nil _) (by decide) h
  have hdigits : ∀ c ∈ Nat.toDigits 10 n, isDecimalDigit c = true :=
    fun c hc => isDecimalDigit_of_isDigit (isDigit_of_mem_toDigits c hc)
  have hfound : marked? thousands (Nat.toDigits 10 n ++ ['k']) = some (.whole n) := by
    have hread : marked? thousands ([] ++ (Nat.toDigits 10 n ++ (pointed [] ++ ([] ++ ['k']))))
        = ofDigits? (Nat.toDigits 10 n ++ pointed []) :=
      marked?_thousands (List.forall_mem_nil _) h.ne_nil hdigits (List.forall_mem_nil _)
        (List.forall_mem_nil _) stops_nil
    rw [← ofDigits?_of_isWritten h hpos hn]
    simpa [pointed] using hread
  refine reads_one .thousands (fun c hc => (htext c hc).1) ?_ hliteral (fun _ => rfl)
    hfound (thousandfold_of_le hn) (fun mark' m y hy => ?_) minDigits
  · rw [List.length_append, List.length_singleton]
    omega
  · exact iff_of_false (hy.ne_sign fun c hc => (htext c hc).2) (by decide)

theorem wholeDigits_of_isWritten (h : Numeral.IsWritten n cs) :
    wholeDigits cs = (Nat.toDigits 10 n).length := by
  have hpoint : cs.takeWhile (· != '.') = cs := by
    rw [List.takeWhile_eq_self_iff]
    intro c hc
    rw [bne_iff_ne]
    rintro rfl
    rcases h.mem '.' hc with hcomma | hdigit
    · exact absurd hcomma (by decide)
    · exact absurd hdigit (by decide)
  rw [wholeDigits, hpoint, ← h.digits, ← List.countP_eq_length_filter]
  refine List.countP_congr fun c hc => ?_
  rcases h.mem c hc with rfl | hdigit
  · decide
  · rw [hdigit, isDigitLike, isDecimalDigit_of_isDigit hdigit, Bool.true_or]

/-- A written number is a bare number as a whole. -/
theorem exists_findAll_bare (h : IsClosed n cs) :
    ∃ m, bare.findAll cs = [m] ∧ m.pieceText "number" = cs := by
  obtain ⟨first, rest, hcons, hfirst⟩ := h.exists_cons
  obtain ⟨front, last, hconcat⟩ : ∃ front last, cs = front ++ [last] :=
    ⟨_, _, (List.dropLast_concat_getLast h.ne_nil).symm⟩
  have hlast : last.isDigit = true := h.last last (by rw [hconcat, List.getLast?_concat]; rfl)
  have hahead : Cursor.isEdge ⟨[], cs⟩ = true :=
    hcons ▸ isEdge_ahead stops_nil (isWordChar_of_isDigit hfirst)
  have hbehind : Cursor.isEdge ⟨cs.reverse, []⟩ = true := by
    rw [hconcat, List.reverse_append]
    exact isEdge_behind (isWordChar_of_isDigit hlast) stops_nil
  have hread : bare.firstThat (fun u => some
      (Match.pieceText ⟨⟨[], cs⟩, u.cursor, u.pieces⟩ "number",
        Match.length ⟨⟨[], cs⟩, u.cursor, u.pieces⟩)) ⟨⟨[], cs⟩, []⟩ = some (cs, cs.length) := by
    rw [bare_eq, firstThat_seq, firstThat_edge hahead, firstThat_seq, firstThat_piece]
    refine firstThat_grouped_to_end h.ne_nil h.isDecimalDigit ?_
    have hpast : Cursor.Past ⟨[], cs⟩ cs ⟨cs.reverse, []⟩ :=
      ⟨(List.append_nil _).symm, (List.append_nil _).symm⟩
    rw [List.append_nil, firstThat_edge hbehind, pieceText_cons hpast]
    rfl
  obtain ⟨m, hm, hmatch⟩ := exists_matchAt_of_firstThat
    (g := fun m => (m.pieceText "number", m.length)) hread
  obtain ⟨hpiece, hlength⟩ := Prod.mk.inj hmatch
  exact ⟨m, findAll_eq_singleton hm h.ne_nil hlength, hpiece⟩

theorem reads_bare (h : IsClosed n cs) (hpos : 0 < n) (hn : n ≤ 2 ^ 53) (minDigits : Int)
    (allowThousands : Bool) :
    first minDigits allowThousands cs =
        .ok (if minDigits ≤ (Nat.toDigits 10 n).length then some (.whole n) else none) ∧
      all allowThousands cs = .ok [] := by
  have hsigns : ∀ c ∈ cs, c.toNat < 65 := fun c hc => (h.isSign c hc).1
  have htext : IsSimple cs := fun c hc => Or.inl (hsigns c hc)
  have hlength : (lower cs).length ≤ 305 := by
    have := length_le_of_isWritten h.toIsWritten hn
    rw [htext.lower_eq]
    omega
  have hnone : ∀ mark m y, ¬ Marked allowThousands cs mark m y := by
    intro mark m y hy
    exact hy.ne_sign h.ne_dollar (hy.eq_sign hsigns)
  obtain ⟨found, hfirst⟩ := exists_firstMarked allowThousands hlength
  obtain ⟨amounts, hall⟩ := exists_all allowThousands hlength
  have hlisting := isListing_of_all hall
  rw [htext.lower_eq] at hlisting
  constructor
  · obtain rfl : found = none := by
      cases found with
      | none => rfl
      | some y =>
          rw [htext.lower_eq] at hfirst
          obtain ⟨mark, m, hy⟩ := exists_marked_of_firstMarked hfirst
          exact (hnone mark m y hy).elim
    obtain ⟨m, hm, hpiece⟩ := exists_findAll_bare h
    have hdigits : 0 < (Nat.toDigits 10 n).length := List.length_pos_iff.mpr Nat.toDigits_ne_nil
    rw [first_eq_firstMarked, hfirst, htext.lower_eq, bare?, hm, List.findSome?_singleton, ofMatch?,
      hpiece, wholeDigits_of_isWritten h.toIsWritten, ofDigits?_of_isWritten h.toIsWritten hpos hn]
    refine congrArg Except.ok ?_
    by_cases hmany : minDigits ≤ (Nat.toDigits 10 n).length
    · rw [if_pos hmany, if_neg (by omega)]
      rfl
    · rw [if_neg hmany, if_pos (by omega)]
      rfl
  · rw [hall, hlisting.eq_nil hnone]

/-- A whole number of up to 2⁵³ is read back as an amount in every way in which it is written, and
without a mark as a bare number. -/
theorem written_amounts_read_back (hpos : 0 < n) (hn : n ≤ 2 ^ 53)
    (hcs : cs = Nat.toDigits 10 n ∨ cs = Numeral.grouped n) (minDigits : Int)
    (allowThousands : Bool) :
    (∀ s ∈ ['$' :: cs, cs ++ " dollars".toList, cs ++ " usd".toList, cs ++ " bucks".toList],
      first minDigits allowThousands s = .ok (some (.whole n)) ∧
        all allowThousands s = .ok [.whole n]) ∧
      (first minDigits true (Nat.toDigits 10 n ++ ['k']) = .ok (some (.whole (1000 * n))) ∧
        all true (Nat.toDigits 10 n ++ ['k']) = .ok [.whole (1000 * n)]) ∧
      first minDigits allowThousands cs =
        .ok (if minDigits ≤ (Nat.toDigits 10 n).length then some (.whole n) else none) ∧
      all allowThousands cs = .ok [] := by
  have h := isClosed_of_written hcs
  refine ⟨?_, reads_thousands hpos hn minDigits, reads_bare h hpos hn minDigits allowThousands⟩
  simp only [List.forall_mem_cons]
  refine ⟨reads_dollarSign h.toIsWritten hpos hn minDigits allowThousands, ?_, ?_, ?_,
    List.forall_mem_nil _⟩
  · exact reads_currencyWord h.toIsWritten hpos hn (w := "dollars") (by decide) minDigits
      allowThousands
  · exact reads_currencyWord h.toIsWritten hpos hn (w := "usd") (by decide) minDigits
      allowThousands
  · exact reads_currencyWord h.toIsWritten hpos hn (w := "bucks") (by decide) minDigits
      allowThousands

theorem written_amounts_read_back_fiveThousand :
    "5,000".toList = Numeral.grouped 5000 ∧
      first 5 false "5,000 bucks".toList = .ok (some (.whole 5000)) ∧
      all false "5,000 bucks".toList = .ok [.whole 5000] ∧
      all true "5000k".toList = .ok [.whole 5000000] ∧
      first 5 false "5,000".toList = .ok none ∧
      first 4 false "5,000".toList = .ok (some (.whole 5000)) := by
  have hgrouped : "5,000".toList = Numeral.grouped 5000 := by decide
  have hwritten : "5,000".toList = Nat.toDigits 10 5000 ∨ "5,000".toList = Numeral.grouped 5000 :=
    Or.inr hgrouped
  obtain ⟨hmarked, hthousands, hmany, _⟩ :=
    written_amounts_read_back (by decide) (by decide) hwritten 5 false
  obtain ⟨_, _, hfew, _⟩ := written_amounts_read_back (by decide) (by decide) hwritten 4 false
  obtain ⟨hfirst, hall⟩ := hmarked "5,000 bucks".toList (by decide)
  exact ⟨hgrouped, hfirst, hall, hthousands.2, hmany, hfew⟩

end Amount

end Cardfolio
