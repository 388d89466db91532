import Cardfolio.Proofs.Pattern.Preferred
import Cardfolio.Proofs.Question.Amounts
import Cardfolio.Proofs.Text.Blanks

/-!
# Which number a mark is read with

A number that ends, with nothing behind it that could belong to it, is read by each mark in
its own way. Behind a dollar sign two decimal places are read, whatever follows. In front of
a k all decimal places are read, but no separators. A bare number has to end at an edge of a
word, so it is read to its end if it has at most two decimal places; separators at its end
are left out, because there is no edge behind them.

A mark is not found where its sign is missing.
-/

namespace Cardfolio.Amount

open Pattern Text Numeral

variable {α : Type _} {f : Thread → Option α} {x : α} {before tail : List Char}
  {pieces : List (String × Cursor × Cursor)}

/-- Nothing that could belong to a number. -/
def Ends (tail : List Char) : Prop :=
  ∀ c ∈ tail.head?, c ≠ '.' ∧ c ≠ ',' ∧ isDecimalDigit c = false

theorem ends_nil : Ends [] := nofun

theorem Ends.stops_digit (h : Ends tail) : Stops .digit tail :=
  fun c hc => (h c hc).2.2

theorem Ends.stops_point (h : Ends tail) : Stops (.exactly '.') tail :=
  fun c hc => beq_eq_false_iff_ne.mpr (h c hc).1

theorem Ends.stops_separated (h : Ends tail) : Stops (.either .digit (.exactly ',')) tail := by
  intro c hc
  obtain ⟨_, hcomma, hdigit⟩ := h c hc
  show (isDecimalDigit c || c == ',') = false
  rw [hdigit, Bool.false_or, beq_eq_false_iff_ne]
  exact hcomma

/-- Behind its digits and separators a number has a fraction or ends. -/
theorem stops_pointed {k : CharClass} (hpoint : k.accepts '.' = false)
    (hk : Stops k tail) (fs : List Char) : Stops k (pointed fs ++ tail) := by
  cases fs with
  | nil => exact hk
  | cons d fs => exact stops_of_cons hpoint

/-- A fraction of which at most two places are read. -/
theorem firstThat_places {fs : List Char} (hfs : ∀ c ∈ fs, isDecimalDigit c = true)
    (htail : Ends tail)
    (hx : f ⟨⟨(pointed (fs.take 2)).reverse ++ before, fs.drop 2 ++ tail⟩, pieces⟩ = some x) :
    (maybe (Pattern.sequence [spelled ".", one .digit, maybe (one .digit)])).firstThat f
      ⟨⟨before, pointed fs ++ tail⟩, pieces⟩ = some x := by
  have hpoint : spelled "." = one (.exactly '.') := rfl
  rw [hpoint]
  match fs with
  | [] =>
      rw [firstThat_maybe_of_none]
      · exact hx
      · show (seq (one (.exactly '.')) _).firstThat f _ = none
        rw [firstThat_seq]
        exact firstThat_one_eq_none htail.stops_point
  | [d] =>
      refine firstThat_maybe_of_some ?_
      show (seq (one _) (seq (one _) (maybe (one _)))).firstThat f _ = some x
      rw [firstThat_seq]
      show (one (.exactly '.')).firstThat _ ⟨⟨before, '.' :: (d :: tail)⟩, pieces⟩ = some x
      rw [firstThat_one (by decide), firstThat_seq,
        firstThat_one (k := .digit) (hfs d List.mem_cons_self),
        firstThat_maybe_of_none (firstThat_one_eq_none htail.stops_digit)]
      exact hx
  | d :: e :: fs =>
      refine firstThat_maybe_of_some ?_
      show (seq (one _) (seq (one _) (maybe (one _)))).firstThat f _ = some x
      rw [firstThat_seq]
      show (one (.exactly '.')).firstThat _ ⟨⟨before, '.' :: (d :: e :: (fs ++ tail))⟩, pieces⟩
        = some x
      rw [firstThat_one (by decide), firstThat_seq,
        firstThat_one (k := .digit) (hfs d List.mem_cons_self)]
      refine firstThat_maybe_of_some ?_
      rw [firstThat_one (k := .digit) (hfs e (List.mem_cons_of_mem d List.mem_cons_self))]
      exact hx

theorem firstThat_grouped {ds fs : List Char} (hne : ds ≠ [])
    (hds : ∀ c ∈ ds, c = ',' ∨ isDecimalDigit c = true) (hfs : ∀ c ∈ fs, isDecimalDigit c = true)
    (htail : Ends tail)
    (hx : f ⟨⟨(ds ++ pointed (fs.take 2)).reverse ++ before, fs.drop 2 ++ tail⟩, pieces⟩
      = some x) :
    grouped.firstThat f ⟨⟨before, ds ++ (pointed fs ++ tail)⟩, pieces⟩ = some x := by
  rw [List.reverse_append, List.append_assoc] at hx
  unfold grouped
  rw [firstThat_seq]
  refine firstThat_run hne (fun c hc => ?_)
    (stops_pointed (by decide) htail.stops_separated fs) (firstThat_places hfs htail hx)
  show (isDecimalDigit c || c == ',') = true
  rcases hds c hc with rfl | hc
  · decide
  · rw [hc, Bool.true_or]

/-- Digits and separators up to the end of the text. -/
theorem firstThat_grouped_to_end {ds : List Char} (hne : ds ≠ [])
    (hds : ∀ c ∈ ds, c = ',' ∨ isDecimalDigit c = true)
    (hx : f ⟨⟨ds.reverse ++ before, []⟩, pieces⟩ = some x) :
    grouped.firstThat f ⟨⟨before, ds⟩, pieces⟩ = some x := by
  have hgrouped : grouped.firstThat f ⟨⟨before, ds ++ (pointed [] ++ [])⟩, pieces⟩ = some x := by
    refine firstThat_grouped hne hds nofun nofun ?_
    rw [List.take_nil, List.drop_nil, pointed, List.append_nil]
    exact hx
  rwa [pointed, List.append_nil, List.append_nil] at hgrouped

/-- A fraction of which all places are read. -/
theorem firstThat_fraction {k : CharClass} {fs : List Char} (hfs : ∀ c ∈ fs, k.accepts c = true)
    (hpoint : Stops (.exactly '.') tail) (htail : Stops k tail)
    (hx : f ⟨⟨(pointed fs).reverse ++ before, tail⟩, pieces⟩ = some x) :
    (maybe (seq (spelled ".") (run k))).firstThat f ⟨⟨before, pointed fs ++ tail⟩, pieces⟩
      = some x := by
  have hspelled : spelled "." = one (.exactly '.') := rfl
  rw [hspelled]
  cases fs with
  | nil =>
      rw [firstThat_maybe_of_none]
      · exact hx
      · rw [firstThat_seq]
        exact firstThat_one_eq_none hpoint
  | cons d fs =>
      refine firstThat_maybe_of_some ?_
      rw [firstThat_seq]
      show (one (.exactly '.')).firstThat _ ⟨⟨_, '.' :: (d :: fs ++ tail)⟩, pieces⟩ = some x
      rw [firstThat_one (by decide)]
      refine firstThat_run (List.cons_ne_nil d fs) hfs htail ?_
      rw [pointed_cons, List.reverse_cons, List.append_assoc] at hx
      exact hx

theorem firstThat_plain {ds fs : List Char} (hne : ds ≠ [])
    (hds : ∀ c ∈ ds, isDecimalDigit c = true) (hfs : ∀ c ∈ fs, isDecimalDigit c = true)
    (htail : Ends tail)
    (hx : f ⟨⟨(ds ++ pointed fs).reverse ++ before, tail⟩, pieces⟩ = some x) :
    plain.firstThat f ⟨⟨before, ds ++ (pointed fs ++ tail)⟩, pieces⟩ = some x := by
  rw [List.reverse_append, List.append_assoc] at hx
  unfold plain
  rw [firstThat_seq]
  exact firstThat_run hne hds (stops_pointed (by decide) htail.stops_digit fs)
    (firstThat_fraction hfs htail.stops_point htail.stops_digit hx)

/-! ## Marks -/

theorem pointed_take_append_drop (fs : List Char) :
    pointed (fs.take 2) ++ fs.drop 2 = pointed fs := by
  match fs with
  | [] => rfl
  | [_] => rfl
  | _ :: _ :: _ => rfl

/-- The number of a mark, when it is the piece that was read last. -/
theorem pieceText_number {c stop : Cursor} {ds rest : List Char} :
    Match.pieceText ⟨c, stop, ("number", ⟨before, ds ++ rest⟩, ⟨ds.reverse ++ before, rest⟩) ::
      pieces⟩ "number" = ds :=
  pieceText_cons ⟨rfl, rfl⟩

/-- The amount at a mark is that of its number, when it is not found before. -/
theorem marked?_eq {mark : Pattern} {left rest number : List Char}
    (hskip : ∀ a c b, left = a ++ c :: b → ∀ f : Thread → Option Thread,
      mark.firstThat f ⟨⟨a.reverse, c :: b ++ rest⟩, []⟩ = none)
    (hread : mark.firstThat
      (fun u => some (Match.pieceText ⟨⟨left.reverse, rest⟩, u.cursor, u.pieces⟩ "number"))
      ⟨⟨left.reverse, rest⟩, []⟩ = some number) :
    marked? mark (left ++ rest) = ofDigits? number := by
  obtain ⟨m, hm, hnumber⟩ :=
    exists_find?_of_firstThat (g := fun m => m.pieceText "number") hskip hread
  unfold marked?
  rw [hm, Option.bind_some, ofMatch?, hnumber]

/-- A dollar sign, perhaps blanks, and a number. -/
theorem marked?_dollarSign {left gap ds fs : List Char} (hleft : '$' ∉ left)
    (hgap : ∀ c ∈ gap, isBlank c = true) (hne : ds ≠ [])
    (hds : ∀ c ∈ ds, c = ',' ∨ isDecimalDigit c = true) (hfs : ∀ c ∈ fs, isDecimalDigit c = true)
    (htail : Ends tail) :
    marked? dollarSign (left ++ '$' :: (gap ++ (ds ++ (pointed fs ++ tail))))
      = ofDigits? (ds ++ pointed (fs.take 2)) := by
  have hsign : dollarSign = seq (one (.exactly '$')) (seq room (piece "number" grouped)) := rfl
  have hstop : Stops .blank (ds ++ (pointed fs ++ tail)) := by
    obtain ⟨d, ds, rfl⟩ := List.exists_cons_of_ne_nil hne
    refine stops_of_cons ?_
    rcases hds d List.mem_cons_self with rfl | hd
    · decide
    · exact isBlank_of_isDecimalDigit hd
  rw [hsign]
  refine marked?_eq (fun a c b h f => ?_) ?_
  · rw [firstThat_seq]
    refine firstThat_one_eq_none (stops_of_cons (beq_eq_false_iff_ne.mpr ?_))
    rintro rfl
    exact hleft (h ▸ List.mem_append_right a List.mem_cons_self)
  · rw [firstThat_seq, firstThat_one (by decide), firstThat_seq]
    refine firstThat_many hgap hstop ?_
    rw [firstThat_piece]
    refine firstThat_grouped hne hds hfs htail (congrArg some ?_)
    rw [show ds ++ (pointed fs ++ tail) = (ds ++ pointed (fs.take 2)) ++ (fs.drop 2 ++ tail) by
      rw [List.append_assoc, ← List.append_assoc (pointed (fs.take 2)), pointed_take_append_drop]]
    exact pieceText_number

theorem ends_of_gap {gap rest : List Char} {c : Char} (hgap : ∀ c ∈ gap, isBlank c = true)
    (hc : c ≠ '.' ∧ c ≠ ',' ∧ isDecimalDigit c = false) : Ends (gap ++ c :: rest) := by
  intro d hd
  cases gap with
  | nil =>
      rw [← Option.some.inj hd]
      exact hc
  | cons b gap =>
      obtain rfl := Option.some.inj hd
      have hblank := hgap b List.mem_cons_self
      exact ⟨ne_of_isBlank hblank (by decide), ne_of_isBlank hblank (by decide),
        (isPlainBlank_of_isBlank hblank).isDecimalDigit_eq⟩

/-- A number of digits, perhaps blanks, and what a mark asks for behind them. -/
theorem exists_find?_number {q : Pattern} {left gap ds fs rest : List Char}
    (hleft : ∀ c ∈ left, isDecimalDigit c = false) (hne : ds ≠ [])
    (hds : ∀ c ∈ ds, isDecimalDigit c = true) (hfs : ∀ c ∈ fs, isDecimalDigit c = true)
    (hgap : ∀ c ∈ gap, isBlank c = true) (hrest : Stops .blank rest) (hends : Ends (gap ++ rest))
    (hq : ∀ (f : Thread → Option (List Char)) before pieces x,
      (∀ c, f ⟨c, pieces⟩ = some x) → q.firstThat f ⟨⟨before, rest⟩, pieces⟩ = some x) :
    ∃ m, (seq (piece "number" plain) (seq room q)).find?
        (left ++ (ds ++ (pointed fs ++ (gap ++ rest)))) = some m ∧
      m.pieceText "number" = ds ++ pointed fs := by
  refine exists_find?_of_firstThat (g := fun m => m.pieceText "number") (fun a c b h f => ?_) ?_
  · rw [firstThat_seq, firstThat_piece, plain, firstThat_seq]
    exact firstThat_run_eq_none (stops_of_cons
      (hleft c (h ▸ List.mem_append_right a List.mem_cons_self)))
  · rw [firstThat_seq, firstThat_piece]
    refine firstThat_plain hne hds hfs hends ?_
    rw [firstThat_seq]
    refine firstThat_many hgap hrest (hq _ _ _ _ fun c => congrArg some ?_)
    rw [← List.append_assoc ds]
    exact pieceText_number

/-- A number of digits, perhaps blanks, and a k at the end of a word. -/
theorem marked?_thousands {left gap ds fs rest : List Char}
    (hleft : ∀ c ∈ left, isDecimalDigit c = false) (hne : ds ≠ [])
    (hds : ∀ c ∈ ds, isDecimalDigit c = true) (hfs : ∀ c ∈ fs, isDecimalDigit c = true)
    (hgap : ∀ c ∈ gap, isBlank c = true) (hrest : Stops .word rest) :
    marked? thousands (left ++ (ds ++ (pointed fs ++ (gap ++ 'k' :: rest))))
      = ofDigits? (ds ++ pointed fs) := by
  have hsign : thousands
      = seq (piece "number" plain) (seq room (seq (one (.exactly 'k')) edge)) := rfl
  have hends : Ends (gap ++ 'k' :: rest) :=
    ends_of_gap hgap ⟨by decide, by decide, by decide⟩
  have hk : ∀ (f : Thread → Option (List Char)) before pieces x, (∀ c, f ⟨c, pieces⟩ = some x) →
      (seq (one (.exactly 'k')) edge).firstThat f ⟨⟨before, 'k' :: rest⟩, pieces⟩ = some x := by
    intro f before pieces x hx
    rw [firstThat_seq, firstThat_one (by decide), firstThat_edge (isEdge_behind (by decide) hrest)]
    exact hx _
  obtain ⟨m, hm, hnumber⟩ :=
    exists_find?_number hleft hne hds hfs hgap (stops_of_cons (by decide)) hends hk
  unfold marked?
  rw [hsign, hm, Option.bind_some, ofMatch?, hnumber]

/-- Names for dollars, in the plural as far as they have one. -/
def currencyNames : List String := ["dollars", "usd", "bucks"]

theorem exists_cons_of_mem_currencyNames : ∀ w ∈ currencyNames, ∃ c cs, w.toList = c :: cs ∧
    isBlank c = false ∧ c ≠ '.' ∧ c ≠ ',' ∧ isDecimalDigit c = false := by
  simp only [currencyNames, List.forall_mem_cons]
  exact ⟨⟨'d', _, rfl, by decide⟩, ⟨'u', _, rfl, by decide⟩, ⟨'b', _, rfl, by decide⟩, nofun⟩

/-- A name for dollars at the end of the text is read to its end. -/
theorem firstThat_currencyName {w : String} (hw : w ∈ currencyNames) :
    (seq (anyOf [seq (spelled "dollar") (maybe (spelled "s")), spelled "usd",
      seq (spelled "buck") (maybe (spelled "s"))]) edge).firstThat f ⟨⟨before, w.toList⟩, pieces⟩
        = f ⟨⟨w.toList.reverse ++ before, []⟩, pieces⟩ := by
  simp only [currencyNames, List.mem_cons, List.not_mem_nil, or_false] at hw
  rcases hw with rfl | rfl | rfl
  · exact List.findSome?_singleton
  · exact List.findSome?_singleton
  · exact List.findSome?_singleton

/-- A number with at most two decimal places, perhaps blanks, and a name for dollars. -/
theorem marked?_currencyWord {left gap ds fs : List Char} {w : String}
    (hleft : ∀ c ∈ left, c ≠ ',' ∧ isDecimalDigit c = false) (hne : ds ≠ [])
    (hds : ∀ c ∈ ds, c = ',' ∨ isDecimalDigit c = true) (hfs : ∀ c ∈ fs, isDecimalDigit c = true)
    (hplaces : fs.length ≤ 2) (hgap : ∀ c ∈ gap, isBlank c = true) (hw : w ∈ currencyNames) :
    marked? currencyWord (left ++ (ds ++ (pointed fs ++ (gap ++ w.toList))))
      = ofDigits? (ds ++ pointed fs) := by
  have hsign : currencyWord = seq (piece "number" grouped) (seq room (seq (anyOf
      [seq (spelled "dollar") (maybe (spelled "s")), spelled "usd",
        seq (spelled "buck") (maybe (spelled "s"))]) edge)) := rfl
  obtain ⟨c, cs, hcs, hblank, hend⟩ := exists_cons_of_mem_currencyNames w hw
  have htail : Ends (gap ++ w.toList) := hcs ▸ ends_of_gap hgap hend
  have hstop : Stops .blank w.toList := hcs ▸ stops_of_cons hblank
  rw [hsign]
  refine marked?_eq (fun a c b h f => ?_) ?_
  · rw [firstThat_seq, firstThat_piece, grouped, firstThat_seq]
    refine firstThat_run_eq_none (stops_of_cons ?_)
    obtain ⟨hcomma, hdigit⟩ := hleft c (h ▸ List.mem_append_right a List.mem_cons_self)
    show (isDecimalDigit c || c == ',') = false
    rw [hdigit, Bool.false_or, beq_eq_false_iff_ne]
    exact hcomma
  · rw [firstThat_seq, firstThat_piece]
    refine firstThat_grouped hne hds hfs htail ?_
    rw [List.take_of_length_le hplaces, List.drop_of_length_le hplaces, List.nil_append,
      firstThat_seq]
    refine firstThat_many hgap hstop ?_
    rw [firstThat_currencyName hw]
    refine congrArg some ?_
    rw [← List.append_assoc ds]
    exact pieceText_number

/-! ## Bare numbers -/

theorem isWordChar_of_isDigit {c : Char} (h : c.isDigit = true) : isWordChar c = true := by
  have := isDigit_iff.mp h
  unfold isWordChar
  rw [if_pos (by omega), Char.isAlphanum, h, Bool.or_true, Bool.true_or]

/-- Digits and separators end with a digit and perhaps separators behind it. -/
theorem exists_last_digit {ds : List Char} (hds : ∀ c ∈ ds, c = ',' ∨ c.isDigit = true)
    (h : ∃ c ∈ ds, c.isDigit = true) :
    ∃ front d commas, ds = front ++ d :: commas ∧ d.isDigit = true ∧ ∀ c ∈ commas, c = ',' := by
  induction ds with
  | nil => exact absurd h (by simp)
  | cons c ds ih =>
      obtain ⟨hc, hds⟩ := List.forall_mem_cons.mp hds
      by_cases hrest : ∃ c ∈ ds, c.isDigit = true
      · obtain ⟨front, d, commas, rfl, hd, hcommas⟩ := ih hds hrest
        exact ⟨c :: front, d, commas, rfl, hd, hcommas⟩
      · have hcommas : ∀ e ∈ ds, e = ',' :=
          fun e he => (hds e he).resolve_right fun hdigit => hrest ⟨e, he, hdigit⟩
        obtain ⟨d, hd, hdigit⟩ := h
        rcases List.mem_cons.mp hd with rfl | hd
        · exact ⟨[], d, ds, rfl, hdigit, hcommas⟩
        · exact (hrest ⟨d, hd, hdigit⟩).elim

theorem stops_commas_append {k : CharClass} (hcomma : k.accepts ',' = false) {commas : List Char}
    (hcommas : ∀ c ∈ commas, c = ',') (htail : Stops k tail) : Stops k (commas ++ tail) := by
  cases commas with
  | nil => exact htail
  | cons c commas =>
      rw [hcommas c List.mem_cons_self]
      exact stops_of_cons hcomma

/-- Behind digits and separators, where no point follows, nothing more is read. -/
theorem firstThat_no_places (t : Thread) (h : Stops (.exactly '.') t.cursor.after) :
    (maybe (Pattern.sequence [spelled ".", one .digit, maybe (one .digit)])).firstThat f t
      = f t := by
  refine firstThat_maybe_of_none ?_
  show (seq (one (.exactly '.')) _).firstThat f _ = none
  rw [firstThat_seq]
  exact firstThat_one_eq_none h

/-- A number without decimal places is read up to its last digit when it has to end at an
edge. -/
theorem firstThat_grouped_edge {front commas : List Char} {d : Char}
    (hfront : ∀ c ∈ front, c = ',' ∨ c.isDigit = true) (hd : d.isDigit = true)
    (hcommas : ∀ c ∈ commas, c = ',') (htail : Ends tail) (hword : Stops .word tail)
    {g : Thread → Thread} (hg : ∀ t, (g t).cursor = t.cursor)
    (hx : f (g ⟨⟨(front ++ [d]).reverse ++ before, commas ++ tail⟩, pieces⟩) = some x) :
    grouped.firstThat (fun u => edge.firstThat f (g u))
      ⟨⟨before, (front ++ [d]) ++ (commas ++ tail)⟩, pieces⟩ = some x := by
  have hclass : ∀ c, c = ',' ∨ c.isDigit = true →
      (CharClass.either .digit (.exactly ',')).accepts c = true := by
    intro c hc
    show (isDecimalDigit c || c == ',') = true
    rcases hc with rfl | hc
    · decide
    · rw [isDecimalDigit_of_isDigit hc, Bool.true_or]
  unfold grouped
  rw [firstThat_seq]
  refine firstThat_run_back (List.append_ne_nil_of_right_ne_nil front (List.cons_ne_nil d []))
    (fun c hc => hclass c ?_) (fun c hc => hclass c (Or.inl (hcommas c hc)))
    htail.stops_separated ?_ fun b₁ b₂ heq hne => ?_
  · rcases List.mem_append.mp hc with hc | hc
    · exact hfront c hc
    · exact Or.inr (List.mem_singleton.mp hc ▸ hd)
  · rw [firstThat_no_places _ (stops_commas_append (by decide) hcommas htail.stops_point),
      firstThat_edge]
    · exact hx
    · rw [hg, List.reverse_append]
      exact isEdge_behind (isWordChar_of_isDigit hd)
        (stops_commas_append (by decide) hcommas hword)
  · have hb : ∀ c ∈ b₁ ++ b₂, c = ',' := heq ▸ hcommas
    have hb₂ : ∀ c ∈ b₂, c = ',' := fun c hc => hb c (List.mem_append_right b₁ hc)
    rw [firstThat_no_places _ (stops_commas_append (by decide) hb₂ htail.stops_point),
      firstThat_edge_eq_none]
    rw [hg]
    refine isEdge_eq_false ?_ (stops_commas_append (by decide) hb₂ hword)
    have hb₁ : ∀ c ∈ b₁.reverse, c = ',' :=
      fun c hc => hb c (List.mem_append_left b₂ (List.mem_reverse.mp hc))
    obtain ⟨c, cs, hcs⟩ := List.exists_cons_of_ne_nil (mt List.reverse_eq_nil_iff.mp hne)
    rw [List.reverse_append, List.append_assoc, hcs, hb₁ c (hcs ▸ List.mem_cons_self)]
    exact stops_of_cons (by decide)

theorem bare_eq : bare = seq edge (seq (piece "number" grouped) edge) := rfl

theorem matchAt_bare_of_isBlank {c : Char} (h : isBlank c = true) (rest : List Char) :
    bare.matchAt ⟨before, c :: rest⟩ = none := by
  have hstop : Stops (.either .digit (.exactly ',')) (c :: rest) := by
    refine stops_of_cons ?_
    show (isDecimalDigit c || c == ',') = false
    rw [(isPlainBlank_of_isBlank h).isDecimalDigit_eq, Bool.false_or, beq_eq_false_iff_ne]
    exact ne_of_isBlank h (by decide)
  refine matchAt_eq_none_of_firstThat fun f => ?_
  rw [bare_eq, firstThat_seq]
  cases hedge : Cursor.isEdge ⟨before, c :: rest⟩ with
  | false => exact firstThat_edge_eq_none hedge
  | true =>
      rw [firstThat_edge hedge, firstThat_seq, firstThat_piece, grouped, firstThat_seq]
      exact firstThat_run_eq_none hstop

/-- The piece that is read of a bare number. -/
def bareNumber? (before after : List Char) : Option (List Char) :=
  bare.firstThat
    (fun u => some (Match.pieceText ⟨⟨before, after⟩, u.cursor, u.pieces⟩ "number"))
    ⟨⟨before, after⟩, []⟩

/-- Without decimal places the number is read up to its last digit. The run goes on past the
separators at the end, and has to come back. -/
theorem exists_bareNumber?_whole {ds : List Char} {d : Char} (hbefore : Stops .word before)
    (hd : d.isDigit = true) (hds : ∀ c ∈ ds, c = ',' ∨ c.isDigit = true) (htail : Ends tail)
    (hword : Stops .word tail) :
    ∃ number, bareNumber? before (d :: ds ++ tail) = some (d :: number) ∧
      ofDigits? (d :: number) = ofDigits? (d :: ds) := by
  have hdigits : ∀ c ∈ d :: ds, c = ',' ∨ c.isDigit = true :=
    List.forall_mem_cons.mpr ⟨Or.inr hd, hds⟩
  have hedge : Cursor.isEdge ⟨before, d :: ds ++ tail⟩ = true :=
    isEdge_ahead hbefore (isWordChar_of_isDigit hd)
  obtain ⟨front, last, commas, heq, hlast, hcommas⟩ :=
    exists_last_digit hdigits ⟨d, List.mem_cons_self, hd⟩
  have hfront : ∀ c ∈ front, c = ',' ∨ c.isDigit = true :=
    fun c hc => hdigits c (heq ▸ List.mem_append_left _ hc)
  obtain ⟨number, hnumber⟩ : ∃ number, front ++ [last] = d :: number := by
    cases front with
    | nil => exact ⟨[], by rw [(List.cons.inj heq).1]; rfl⟩
    | cons c front => exact ⟨front ++ [last], by rw [(List.cons.inj heq).1]; rfl⟩
  have hsplit : d :: ds = (front ++ [last]) ++ commas := by
    rw [heq, List.append_assoc]
    rfl
  refine ⟨number, ?_, ?_⟩
  · rw [bareNumber?, bare_eq, firstThat_seq, firstThat_edge hedge, firstThat_seq, firstThat_piece,
      ← hnumber, hsplit, List.append_assoc]
    exact firstThat_grouped_edge (g := fun u => ⟨u.cursor, _ :: u.pieces⟩) hfront hlast hcommas
      htail hword (fun _ => rfl) (congrArg some pieceText_number)
  · have hfilter : commas.filter (· != ',') = [] :=
      List.filter_eq_nil_iff.mpr fun c hc => by rw [hcommas c hc]; decide
    rw [← hnumber, hsplit]
    unfold ofDigits?
    rw [List.filter_append (front ++ [last]), hfilter, List.append_nil]

/-- With decimal places the number is read as it stands, since it ends in a digit. -/
theorem bareNumber?_pointed {ds fs : List Char} {d : Char} (hbefore : Stops .word before)
    (hd : d.isDigit = true) (hds : ∀ c ∈ ds, c = ',' ∨ c.isDigit = true) (hne : fs ≠ [])
    (hfs : ∀ c ∈ fs, c.isDigit = true) (hplaces : fs.length ≤ 2) (htail : Ends tail)
    (hword : Stops .word tail) :
    bareNumber? before (d :: ds ++ (pointed fs ++ tail)) = some (d :: ds ++ pointed fs) := by
  have hdigits : ∀ c ∈ d :: ds, c = ',' ∨ c.isDigit = true :=
    List.forall_mem_cons.mpr ⟨Or.inr hd, hds⟩
  have hedge : Cursor.isEdge ⟨before, d :: ds ++ (pointed fs ++ tail)⟩ = true :=
    isEdge_ahead hbefore (isWordChar_of_isDigit hd)
  have htake : fs.take 2 = fs := List.take_of_length_le hplaces
  have hdrop : fs.drop 2 = [] := List.drop_of_length_le hplaces
  obtain ⟨fs', e, rfl⟩ : ∃ fs' e, fs = fs' ++ [e] :=
    ⟨fs.dropLast, fs.getLast hne, (List.dropLast_concat_getLast hne).symm⟩
  obtain ⟨gs, hgs⟩ : ∃ gs, pointed (fs' ++ [e]) = gs ++ [e] := by
    cases fs' with
    | nil => exact ⟨['.'], rfl⟩
    | cons c fs' => exact ⟨'.' :: c :: fs', rfl⟩
  have he : e.isDigit = true := hfs e (List.mem_append_right fs' List.mem_cons_self)
  rw [bareNumber?, bare_eq, firstThat_seq, firstThat_edge hedge, firstThat_seq, firstThat_piece]
  refine firstThat_grouped (List.cons_ne_nil d ds)
    (fun c hc => (hdigits c hc).imp id isDecimalDigit_of_isDigit)
    (fun c hc => isDecimalDigit_of_isDigit (hfs c hc)) htail ?_
  rw [htake, hdrop, List.nil_append, firstThat_edge]
  · refine congrArg some ?_
    rw [← List.append_assoc (d :: ds)]
    exact pieceText_number
  · rw [hgs, ← List.append_assoc, List.reverse_append]
    exact isEdge_behind (isWordChar_of_isDigit he) hword

/-- A bare number with at most two decimal places. -/
theorem bare?_eq_some {left ds fs : List Char} {d : Char}
    (hleft : ∀ c ∈ left, isBlank c = true) (hd : d.isDigit = true)
    (hds : ∀ c ∈ ds, c = ',' ∨ c.isDigit = true) (hfs : ∀ c ∈ fs, c.isDigit = true)
    (hplaces : fs.length ≤ 2) (htail : Ends tail) (hword : Stops .word tail) {n : Number}
    (hn : ofDigits? (d :: ds ++ pointed fs) = some n) :
    bare? 1 (left ++ (d :: ds ++ (pointed fs ++ tail))) = some n := by
  have hbefore : Stops .word left.reverse := by
    intro c hc
    have hmem := List.mem_reverse.mp (List.mem_of_mem_head? hc)
    exact (isPlainBlank_of_isBlank (hleft c hmem)).isWordChar_eq
  obtain ⟨number, hread, hdigits⟩ : ∃ number,
      bareNumber? left.reverse (d :: ds ++ (pointed fs ++ tail)) = some (d :: number) ∧
        ofDigits? (d :: number) = ofDigits? (d :: ds ++ pointed fs) := by
    by_cases hnil : fs = []
    · rw [hnil, pointed, List.nil_append, List.append_nil]
      exact exists_bareNumber?_whole hbefore hd hds htail hword
    · exact ⟨ds ++ pointed fs,
        bareNumber?_pointed hbefore hd hds hnil hfs hplaces htail hword, rfl⟩
  obtain ⟨m, hm, hnumber⟩ :=
    exists_matchAt_of_firstThat (g := fun m => m.pieceText "number") hread
  obtain ⟨ms, hms⟩ : ∃ ms,
      bare.findAll (left ++ (d :: ds ++ (pointed fs ++ tail))) = m :: ms :=
    exists_findAll_eq_cons (fun a c b h => matchAt_bare_of_isBlank
      (hleft c (h ▸ List.mem_append_right a List.mem_cons_self)) _) hm
  have hmany : ¬ ((wholeDigits (m.pieceText "number") : Int) < max 1 1) := by
    have hpoint : (d != '.') = true := by
      rw [bne_iff_ne]
      rintro rfl
      cases hd
    have hlike : isDigitLike d = true := by
      rw [isDigitLike, isDecimalDigit_of_isDigit hd, Bool.true_or]
    have hcount : 0 < wholeDigits (d :: number) := by
      simp only [wholeDigits, List.takeWhile_cons, hpoint, if_true, List.countP_cons_of_pos hlike]
      exact Nat.succ_pos _
    rw [hnumber]
    omega
  unfold bare?
  rw [hms, List.findSome?_cons, if_neg hmany, ofMatch?, hnumber, hdigits, hn]

end Cardfolio.Amount
