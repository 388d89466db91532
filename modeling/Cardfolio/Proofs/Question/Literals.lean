import Cardfolio.Proofs.Question.MarkedPlaces
import Cardfolio.Proofs.Text.Signs

/-!
# How many amounts a single literal is

A text with a single run of digits, commas and points has a single number, and one expects a
single amount. The marks are looked for independently of each other, though. Each that stands in
front of the number begins where the run does, and each that stands behind it ends where the run
does, so that on either side there is one mark at most. But there can be one on both sides, and
when they read the number in different ways, one literal is two amounts: `$5k` is five and
five thousand.

The only other way is by digits that do not belong to the run because they are of another script.
`ReadTwice` says that one of the two happens, and apart from it there is no more than one amount.
-/

namespace Cardfolio.Amount

open Pattern Text

variable {allowThousands : Bool} {text run : List Char} {mark mark' : Mark} {m m' : Match}
  {n n' : Number}

/-- An ASCII digit, a comma or a point. -/
def isPlainFigure (c : Char) : Bool :=
  c.isDigit || c == ',' || c == '.'

/-- The maximal runs of digits, commas and points. -/
def literals (text : List Char) : List (List Char) :=
  partsBy (!isPlainFigure ·) text

theorem literals_lower (text : List Char) : literals (lower text) = literals text := by
  refine partsBy_lower (fun c hc => ?_) text
  rw [isPlainFigure, Bool.or_eq_true, Bool.or_eq_true, beq_iff_eq, beq_iff_eq,
    Numeral.isDigit_iff] at hc
  rcases hc with (hdigit | rfl) | rfl
  · omega
  · decide
  · decide

/-- The figures of a text stand in a single run. -/
def IsOnlyRun (text : List Char) (start stop : Nat) : Prop :=
  ∀ i c, text[i]? = some c → (isPlainFigure c = true ↔ start ≤ i ∧ i < stop)

theorem exists_onlyRun (h : literals text = [run]) :
    ∃ start stop, IsOnlyRun (lower text) start stop := by
  rw [← literals_lower] at h
  obtain ⟨start, hplaces⟩ := exists_places_of_part h
  refine ⟨start, start + run.length, fun i c hc => ?_⟩
  rw [← hplaces i c hc, Bool.not_eq_false']

theorem IsOnlyRun.places {start stop : Nat} (h : IsOnlyRun text start stop) {a b : List Char}
    (htext : text = a ++ b) {c d : Char} (hc : c ∈ a.getLast?) (hd : d ∈ b.head?) :
    (isPlainFigure c = true ↔ start < a.length ∧ a.length ≤ stop) ∧
      (isPlainFigure d = true ↔ start ≤ a.length ∧ a.length < stop) := by
  obtain ⟨a, rfl⟩ := List.getLast?_eq_some_iff.mp hc
  obtain ⟨b, rfl⟩ := List.head?_eq_some_iff.mp hd
  have hfirst : text[a.length]? = some c := by
    rw [htext]
    simp
  have hsecond : text[a.length + 1]? = some d := by
    rw [htext]
    simp
  rw [h _ c hfirst, h _ d hsecond, List.length_append, List.length_singleton]
  omega

/-- A digit that is no ASCII digit. -/
def IsForeignDigit (c : Char) : Prop :=
  isDecimalDigit c = true ∧ c.isDigit = false

theorem isFigure_of_isPlainFigure {c : Char} (h : isPlainFigure c = true) : isFigure c = true := by
  rw [isPlainFigure, Bool.or_eq_true, Bool.or_eq_true] at h
  rw [isFigure, Bool.or_eq_true, Bool.or_eq_true]
  exact h.imp_left (Or.imp_left Numeral.isDecimalDigit_of_isDigit)

theorem isPlainFigure_eq_false {c : Char} (h : isFigure c = false) : isPlainFigure c = false := by
  rw [Bool.eq_false_iff] at h ⊢
  exact mt isFigure_of_isPlainFigure h

namespace Marked

variable {start stop : Nat}

theorem isPlainFigure (h : Marked allowThousands text mark m n)
    (hplain : ∀ c ∈ m.pieceText "number", ¬ IsForeignDigit c) :
    ∀ c ∈ m.pieceText "number", isPlainFigure c = true := by
  intro c hc
  have hfigure := h.isFigure c hc
  rw [Amount.isFigure, Bool.or_eq_true, Bool.or_eq_true] at hfigure
  rw [Amount.isPlainFigure, Bool.or_eq_true, Bool.or_eq_true]
  refine hfigure.imp_left (Or.imp_left fun hdigit => ?_)
  rw [← Bool.not_eq_false]
  exact fun hforeign => hplain c hc ⟨hdigit, hforeign⟩

/-- A number behind a dollar sign begins where the run begins. -/
theorem exists_front (h : Marked allowThousands text .sign m n) (hrun : IsOnlyRun text start stop)
    (hplain : ∀ c ∈ m.pieceText "number", ¬ IsForeignDigit c) : ∃ left gap right,
      text = (left ++ '$' :: gap) ++ right ∧ (left ++ '$' :: gap).length = start ∧
        (∀ c ∈ gap, isBlank c = true) ∧ m.span.start = left.length := by
  obtain ⟨left, gap, right, htext, hgap, hstart⟩ := h.exists_sign
  have htext' : text = (left ++ '$' :: gap) ++ (m.pieceText "number" ++ right) := by
    rw [htext, List.append_assoc]
    rfl
  refine ⟨left, gap, _, htext', ?_, hgap, hstart⟩
  obtain ⟨d, ds, hds⟩ := List.exists_cons_of_ne_nil h.ne_nil
  have hd : Amount.isPlainFigure d = true := h.isPlainFigure hplain d (hds ▸ List.mem_cons_self)
  obtain ⟨c, hc⟩ : ∃ c, c ∈ (left ++ '$' :: gap).getLast? :=
    Option.isSome_iff_exists.mp (by simp)
  have hsign : Amount.isPlainFigure c = false := by
    rw [List.getLast?_append, List.getLast?_cons, Option.some_or] at hc
    cases hlast : gap.getLast? with
    | none =>
        rw [hlast] at hc
        rw [← Option.some.inj hc]
        decide
    | some b =>
        rw [hlast] at hc
        rw [← Option.some.inj hc]
        exact isPlainFigure_eq_false (isFigure_of_isBlank (hgap b (List.mem_of_getLast? hlast)))
  obtain ⟨hc, hd'⟩ := hrun.places htext' hc (d := d) (by rw [hds]; rfl)
  rw [hsign] at hc
  rw [hd] at hd'
  have := hd'.mp rfl
  have := mt hc.mpr Bool.false_ne_true
  omega

/-- What stands behind a number begins where the run ends. -/
theorem exists_back (h : Marked allowThousands text mark m n) (hmark : mark ≠ .sign)
    (hrun : IsOnlyRun text start stop)
    (hplain : ∀ c ∈ m.pieceText "number", ¬ IsForeignDigit c) : ∃ front gap c rest,
      text = front ++ (gap ++ c :: rest) ∧ front.length = stop ∧
        (∀ c ∈ gap, isBlank c = true) ∧ c ∈ mark.letters ∧
        m.span.start < stop ∧ stop < m.span.stop := by
  obtain ⟨left, gap, c, rest, htext, hgap, hc, hstart, hstop⟩ := h.exists_letter hmark
  have htext' : text = (left ++ m.pieceText "number") ++ (gap ++ c :: rest) := by
    rw [htext, List.append_assoc]
  have hlength := List.length_pos_iff.mpr h.ne_nil
  suffices hend : (left ++ m.pieceText "number").length = stop by
    refine ⟨_, gap, c, rest, htext', hend, hgap, hc, ?_, ?_⟩
    · rw [List.length_append] at hend
      omega
    · rw [List.length_append] at hend
      omega
  obtain ⟨e, he⟩ := Option.isSome_iff_exists.mp (List.getLast?_isSome.mpr h.ne_nil)
  have hfigure : Amount.isPlainFigure e = true :=
    h.isPlainFigure hplain e (List.mem_of_getLast? he)
  obtain ⟨d, hd⟩ : ∃ d, d ∈ (gap ++ c :: rest).head? := Option.isSome_iff_exists.mp (by simp)
  have hother : Amount.isPlainFigure d = false :=
    isPlainFigure_eq_false (figures_stop hgap hc d hd)
  obtain ⟨he', hd'⟩ := hrun.places htext' (c := e) (by rw [List.getLast?_append, he]; rfl) hd
  rw [hfigure] at he'
  rw [hother] at hd'
  have := he'.mp rfl
  have := mt hd'.mpr Bool.false_ne_true
  omega

/-- A single number is marked only once in front. -/
theorem eq_of_sign (h : Marked allowThousands text .sign m n)
    (h' : Marked allowThousands text .sign m' n') (hrun : IsOnlyRun text start stop)
    (hplain : ∀ c ∈ m.pieceText "number", ¬ IsForeignDigit c)
    (hplain' : ∀ c ∈ m'.pieceText "number", ¬ IsForeignDigit c) : n = n' := by
  obtain ⟨left, gap, right, htext, hlength, hgap, hstart⟩ := h.exists_front hrun hplain
  obtain ⟨left', gap', right', htext', hlength', hgap', hstart'⟩ := h'.exists_front hrun hplain'
  obtain ⟨hfront, _⟩ := List.append_inj (htext.symm.trans htext') (hlength.trans hlength'.symm)
  -- Read backwards from the number, the sign is the first character that is no blank.
  have hreverse := congrArg List.reverse hfront
  simp only [List.reverse_append, List.reverse_cons, List.append_assoc] at hreverse
  have hstop : ∀ left : List Char, ∀ c ∈ (['$'] ++ left.reverse).head?, isBlank c = false := by
    intro left c hc
    rw [← Option.some.inj hc]
    decide
  obtain ⟨_, hleft⟩ := run_unique (fun b hb => hgap b (List.mem_reverse.mp hb))
    (fun b hb => hgap' b (List.mem_reverse.mp hb)) (hstop left) (hstop left') hreverse
  have hsame : left = left' := List.reverse_injective (List.append_cancel_left hleft)
  obtain rfl := h.occurs.eq_of_start h'.occurs (by rw [hstart, hstart', hsame])
  exact h.eq_of_match h'

/-- A single number is marked only once behind. -/
theorem eq_of_not_sign (h : Marked allowThousands text mark m n)
    (h' : Marked allowThousands text mark' m' n') (hmark : mark ≠ .sign) (hmark' : mark' ≠ .sign)
    (hrun : IsOnlyRun text start stop) (hplain : ∀ c ∈ m.pieceText "number", ¬ IsForeignDigit c)
    (hplain' : ∀ c ∈ m'.pieceText "number", ¬ IsForeignDigit c) : n = n' := by
  obtain ⟨front, gap, c, rest, htext, hlength, hgap, hc, hstart, hstop⟩ :=
    h.exists_back hmark hrun hplain
  obtain ⟨front', gap', c', rest', htext', hlength', hgap', hc', hstart', hstop'⟩ :=
    h'.exists_back hmark' hrun hplain'
  obtain ⟨_, hback⟩ := List.append_inj (htext.symm.trans htext') (hlength.trans hlength'.symm)
  obtain rfl := eq_of_letter hgap hgap' hc hc' hback
  obtain rfl := eq_of_mem_findAll h.mem h'.mem (by omega) (by omega)
  exact h.eq_of_match h'

end Marked

/-- Two different amounts come from one number that is marked in front and behind, or from
digits of another script. -/
inductive ReadTwice (allowThousands : Bool) (text : List Char) : Prop
  | bothSides {mark : Mark} {m m' : Match} {n n' : Number}
      (front : Marked allowThousands text .sign m n)
      (back : Marked allowThousands text mark m' n') (hmark : mark ≠ .sign)
      (differ : n.same n' = false)
  | foreign {mark mark' : Mark} {m m' : Match} {n n' : Number}
      (first : Marked allowThousands text mark m n)
      (second : Marked allowThousands text mark' m' n')
      (digit : ∃ c ∈ m.pieceText "number" ++ m'.pieceText "number", IsForeignDigit c)
      (differ : n.same n' = false)

theorem ReadTwice.exists_differ (h : ReadTwice allowThousands text) : ∃ mark mark' m m' n n',
    Marked allowThousands text mark m n ∧ Marked allowThousands text mark' m' n' ∧
      n.same n' = false := by
  cases h with
  | bothSides front back _ differ => exact ⟨_, _, _, _, _, _, front, back, differ⟩
  | foreign first second _ differ => exact ⟨_, _, _, _, _, _, first, second, differ⟩

theorem readTwice_of_differ {start stop : Nat} (hrun : IsOnlyRun text start stop)
    (h : Marked allowThousands text mark m n) (h' : Marked allowThousands text mark' m' n')
    (hdiffer : n.same n' = false) : ReadTwice allowThousands text := by
  by_cases hforeign : ∃ c ∈ m.pieceText "number" ++ m'.pieceText "number", IsForeignDigit c
  · exact .foreign h h' hforeign hdiffer
  · have hplain : ∀ c ∈ m.pieceText "number", ¬ IsForeignDigit c :=
      fun c hc hc' => hforeign ⟨c, List.mem_append_left _ hc, hc'⟩
    have hplain' : ∀ c ∈ m'.pieceText "number", ¬ IsForeignDigit c :=
      fun c hc hc' => hforeign ⟨c, List.mem_append_right _ hc, hc'⟩
    have hne := h.isAmount.ne_of_differ hdiffer
    by_cases hsign : mark = .sign
    · subst hsign
      by_cases hsign' : mark' = .sign
      · subst hsign'
        exact (hne (h.eq_of_sign h' hrun hplain hplain')).elim
      · exact .bothSides h h' hsign' hdiffer
    · by_cases hsign' : mark' = .sign
      · subst hsign'
        refine .bothSides h' h hsign (Bool.eq_false_iff.mpr fun hsame => ?_)
        rw [Number.same_symm hsame] at hdiffer
        cases hdiffer
      · exact (hne (h.eq_of_not_sign h' hsign hsign' hrun hplain hplain')).elim

/-- A text with a single literal has at most one amount, unless it is read twice. -/
theorem one_amount_of_one_literal_iff (hliteral : literals text = [run]) {amounts : List Number}
    (h : all allowThousands text = .ok amounts) :
    amounts.length ≤ 1 ↔ ¬ ReadTwice allowThousands (lower text) := by
  obtain ⟨start, stop, hrun⟩ := exists_onlyRun hliteral
  have hlisting := isListing_of_all h
  constructor
  · intro hlength htwice
    obtain ⟨mark, mark', m, m', n, n', hm, hm', hdiffer⟩ := htwice.exists_differ
    have hn := (hlisting.mem_iff n).mpr ⟨mark, m, hm⟩
    have hn' := (hlisting.mem_iff n').mpr ⟨mark', m', hm'⟩
    have hpos := List.length_pos_of_mem hn
    obtain ⟨a, rfl⟩ := List.length_eq_one_iff.mp (Nat.le_antisymm hlength hpos)
    exact hm.isAmount.ne_of_differ hdiffer
      ((List.mem_singleton.mp hn).trans (List.mem_singleton.mp hn').symm)
  · intro honce
    match amounts, hlisting with
    | [], _ => exact Nat.zero_le 1
    | [_], _ => exact Nat.le_refl 1
    | n :: n' :: _, hlisting =>
        obtain ⟨mark, m, hm⟩ := (hlisting.mem_iff n).mp List.mem_cons_self
        obtain ⟨mark', m', hm'⟩ :=
          (hlisting.mem_iff n').mp (List.mem_cons_of_mem n List.mem_cons_self)
        have hdiffer := List.rel_of_pairwise_cons hlisting.apart List.mem_cons_self
        exact (honce (readTwice_of_differ hrun hm hm' hdiffer)).elim

theorem one_amount_of_one_literal_iff_dollars :
    literals "$5 dollars".toList = ["5".toList] ∧
      all true "$5 dollars".toList = .ok [.whole 5] ∧
      ¬ ReadTwice true (lower "$5 dollars".toList) := by
  have hliteral : literals "$5 dollars".toList = ["5".toList] := by decide
  have hall : all true "$5 dollars".toList = .ok [.whole 5] := by decide +kernel
  exact ⟨hliteral, hall, (one_amount_of_one_literal_iff hliteral hall).mp (Nat.le_refl 1)⟩

/-- One literal, two amounts. -/
theorem two_amounts_dollarThousands : literals "$5k".toList = ["5".toList] ∧
    all true "$5k".toList = .ok [.whole 5, .whole 5000] :=
  ⟨by decide, by decide +kernel⟩

end Cardfolio.Amount
