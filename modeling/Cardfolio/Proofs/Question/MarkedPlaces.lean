import Cardfolio.Proofs.Number.Settled
import Cardfolio.Proofs.Pattern.Placed
import Cardfolio.Proofs.Question.MarkedAmounts
import Cardfolio.Proofs.Text.Blanks
import Cardfolio.Proofs.Text.Words
import Mathlib.Data.List.Induction

/-!
# Marked amounts in their places

The scan for all amounts looks for each mark by itself, puts what it has found in the order of
the places where the matches begin, and leaves out what it has already. `Marked` says what
the three searches find together: a match of a mark and what its number is worth there.

A number is made of figures, and what stands around it is not: in front of it blanks and a dollar
sign, behind it blanks and a letter that tells the marks apart. So there is only one marked
number that begins at a place (`Marked.eq_of_start`). When repetitions are left out, each
amount is kept at the first place where it is marked, and since different amounts have
different places, the amounts that are left stand in a strict order.
-/

namespace Cardfolio.Amount

open Pattern Text Numeral

variable {allowThousands : Bool} {text : List Char} {m m' : Match} {n n' amount : Number}

theorem IsMark.isAmount {mark number : Pattern} (hmark : IsMark mark number)
    (h : mark.Occurs text m) (hn : ofMatch? m = some n) : n.IsAmount := by
  obtain ⟨ds, fs, hwritten⟩ := hmark.isWritten h
  rw [ofMatch?, hwritten.ofDigits?_eq rfl] at hn
  split at hn
  · cases hn
  · next hzero =>
      rw [← Option.some.inj hn]
      exact Number.isAmount_settle (Number.zero_lt_real_of_isZero
        (Binary64.ofDecimal_false_cases _ _) (Bool.eq_false_iff.mpr hzero))

theorem isAmount_thousandfold (hamount : amount.IsAmount) (h : thousandfold amount = .ok n) :
    n.IsAmount := by
  cases amount with
  | whole k =>
      have hpos := Number.zero_lt_whole_iff.mp hamount.positive
      cases hrange : Binary64.ofInt? (k * 1000) with
      | none =>
          rw [thousandfold_whole_eq_error hrange] at h
          cases h
      | some x =>
          rw [thousandfold_whole (by rw [hrange]; rfl)] at h
          rw [← Except.ok.inj h]
          exact Number.isAmount_whole (by omega)
  | real x =>
      obtain ⟨units, hr, hthousand, hle⟩ := exists_thousand
      rw [thousandfold_real, hthousand] at h
      rw [← Except.ok.inj h]
      exact Number.isAmount_settle (Number.zero_lt_mul hamount.positive hle)

theorem isAmount_first {minDigits : Int} (h : first minDigits allowThousands text = .ok (some n)) :
    n.IsAmount := by
  rcases first_cases h with ⟨mark, m, hmark, hm, hn⟩ | ⟨m, amount, hm, hamount, hn⟩
  · exact hmark.isAmount hm hn
  · exact isAmount_thousandfold (isMark_thousands.isAmount hm hamount) hn

/-! ## Marks -/

/-- The ways of marking an amount. -/
inductive Mark
  | sign
  | word
  | thousands
  deriving DecidableEq

namespace Mark

def pattern : Mark → Pattern
  | sign => dollarSign
  | word => currencyWord
  | thousands => Amount.thousands

/-- The pattern of the number. -/
def number : Mark → Pattern
  | thousands => plain
  | _ => grouped

/-- What a number with this mark is worth. -/
def value : Mark → Number → Except Fault Number
  | thousands, amount => thousandfold amount
  | _, amount => .ok amount

/-- The letters of which the first one behind the number is one. -/
def letters : Mark → List Char
  | sign => []
  | word => ['d', 'u', 'b']
  | thousands => ['k']

theorem isMark (mark : Mark) : IsMark mark.pattern mark.number := by
  cases mark with
  | sign => exact isMark_dollarSign
  | word => exact isMark_currencyWord
  | thousands => exact isMark_thousands

theorem eq_of_letter {mark mark' : Mark} {c : Char} (h : c ∈ mark.letters)
    (h' : c ∈ mark'.letters) : mark = mark' := by
  have happart : ∀ c ∈ word.letters, c ∉ thousands.letters := by decide
  cases mark with
  | sign => cases h
  | word =>
      cases mark' with
      | sign => cases h'
      | word => rfl
      | thousands => exact (happart c h h').elim
  | thousands =>
      cases mark' with
      | sign => cases h'
      | word => exact (happart c h' h).elim
      | thousands => rfl

end Mark

/-- A mark is found at a match, and its number is worth `n` there. -/
structure Marked (allowThousands : Bool) (text : List Char) (mark : Mark) (m : Match)
    (n : Number) : Prop where
  allowed : mark = .thousands → allowThousands = true
  mem : m ∈ mark.pattern.findAll text
  value : ∃ amount, ofMatch? m = some amount ∧ mark.value amount = .ok n

/-- A digit of any script, a comma or a point. -/
def isFigure (c : Char) : Bool :=
  isDecimalDigit c || c == ',' || c == '.'

theorem isFigure_of_isBlank {c : Char} (h : isBlank c = true) : isFigure c = false := by
  have hcomma : c ≠ ',' := ne_of_isBlank h (by decide)
  have hpoint : c ≠ '.' := ne_of_isBlank h (by decide)
  simp [isFigure, (isPlainBlank_of_isBlank h).isDecimalDigit_eq, hcomma, hpoint]

theorem IsWritten.isFigure {raw ds fs : List Char} (h : IsWritten raw ds fs) :
    ∀ c ∈ raw, isFigure c = true := by
  intro c hc
  rw [Amount.isFigure, Bool.or_eq_true, Bool.or_eq_true, beq_iff_eq, beq_iff_eq]
  rw [h.eq] at hc
  rcases List.mem_append.mp hc with hc | hc
  · rcases h.whole c hc with hcomma | hdigit
    · exact Or.inl (Or.inr hcomma)
    · exact Or.inl (Or.inl hdigit)
  · rcases mem_pointed hc with hpoint | hc
    · exact Or.inr hpoint
    · exact Or.inl (Or.inl (h.fraction c hc))

namespace Marked

variable {mark mark' : Mark}

theorem occurs (h : Marked allowThousands text mark m n) : mark.pattern.Occurs text m :=
  occurs_of_mem_findAll h.mem

theorem isAmount (h : Marked allowThousands text mark m n) : n.IsAmount := by
  obtain ⟨amount, hamount, hn⟩ := h.value
  have hisamount := mark.isMark.isAmount h.occurs hamount
  cases mark with
  | sign => exact Except.ok.inj hn ▸ hisamount
  | word => exact Except.ok.inj hn ▸ hisamount
  | thousands => exact isAmount_thousandfold hisamount hn

theorem eq_of_match (h : Marked allowThousands text mark m n)
    (h' : Marked allowThousands text mark m n') : n = n' := by
  obtain ⟨amount, hamount, hn⟩ := h.value
  obtain ⟨amount', hamount', hn'⟩ := h'.value
  obtain rfl := Option.some.inj (hamount.symm.trans hamount')
  exact Except.ok.inj (hn.symm.trans hn')

theorem ne_nil (h : Marked allowThousands text mark m n) : m.pieceText "number" ≠ [] := by
  have hsome : mark.number.mayBeEmpty = false := by
    cases mark <;> rfl
  exact ne_nil_of_spells hsome (mark.isMark.spells h.occurs).1

theorem isFigure (h : Marked allowThousands text mark m n) :
    ∀ c ∈ m.pieceText "number", isFigure c = true := by
  obtain ⟨ds, fs, hwritten⟩ := mark.isMark.isWritten h.occurs
  exact hwritten.isFigure

/-! ## What stands around a number -/

/-- A dollar sign, perhaps blanks, and the number. -/
theorem exists_sign (h : Marked allowThousands text .sign m n) : ∃ left gap right,
    text = left ++ '$' :: (gap ++ (m.pieceText "number" ++ right)) ∧
      (∀ c ∈ gap, isBlank c = true) ∧ m.span.start = left.length := by
  have hoccurs : (seq (spelled "$") (seq room (piece "number" grouped))).Occurs text m := h.occurs
  obtain ⟨left, a, gap, right, htext, ha, hgap, _, hstart⟩ := hoccurs.exists_last_piece
  obtain rfl := spells_spelled ha
  exact ⟨left, gap, right, htext, spells_many.mp hgap, hstart⟩

/-- The number, perhaps blanks, and a letter. -/
theorem exists_letter (h : Marked allowThousands text mark m n) (hmark : mark ≠ .sign) :
    ∃ left gap c rest, text = left ++ (m.pieceText "number" ++ (gap ++ c :: rest)) ∧
      (∀ c ∈ gap, isBlank c = true) ∧ c ∈ mark.letters ∧ m.span.start = left.length ∧
      left.length + (m.pieceText "number").length < m.span.stop := by
  -- What is read behind the number begins with blanks and goes on with a word.
  have hrest : ∃ q r, mark.pattern = seq (piece "number" mark.number) (seq room (seq q r)) ∧
      (seq room (seq q r)).parts = [] ∧ ∀ s, q.Spells s → ∃ c w, s = c :: w ∧ c ∈ mark.letters := by
    cases mark with
    | sign => exact (hmark rfl).elim
    | word =>
        refine ⟨_, _, rfl, ?_, fun s hs => ?_⟩
        · simp [Pattern.sequence, parts, parts_spelled, room, many, maybe, anyOf]
        · rcases hs with ⟨a, b, ha, _, rfl⟩ | hs | ⟨a, b, ha, _, rfl⟩
          · obtain rfl := spells_spelled ha
            exact ⟨'d', _, rfl, by decide⟩
          · obtain rfl := spells_spelled hs
            exact ⟨'u', _, rfl, by decide⟩
          · obtain rfl := spells_spelled ha
            exact ⟨'b', _, rfl, by decide⟩
    | thousands =>
        refine ⟨_, _, rfl, ?_, fun s hs => ?_⟩
        · simp [Pattern.sequence, parts, parts_spelled, room, many, maybe]
        · obtain rfl := spells_spelled hs
          exact ⟨'k', [], rfl, by decide⟩
  obtain ⟨q, r, hpattern, hparts, hletter⟩ := hrest
  have hoccurs := h.occurs
  rw [hpattern] at hoccurs
  obtain ⟨left, b, right, htext, _, ⟨gap, _, hgap, ⟨w, e, hw, _, rfl⟩, rfl⟩, hspan⟩ :=
    hoccurs.exists_first_piece hparts
  obtain ⟨c, w, rfl, hc⟩ := hletter w hw
  refine ⟨left, gap, c, w ++ (e ++ right), ?_, spells_many.mp hgap, hc, ?_, ?_⟩
  · rw [htext]
    simp
  · rw [hspan]
  · rw [hspan]
    simp only [List.length_append, List.length_cons]
    omega

theorem sign_mem (h : Marked allowThousands text .sign m n) : '$' ∈ text := by
  obtain ⟨left, gap, right, rfl, _⟩ := h.exists_sign
  exact List.mem_append_right left List.mem_cons_self

theorem exists_letter_mem (h : Marked allowThousands text mark m n) (hmark : mark ≠ .sign) :
    ∃ c ∈ mark.letters, c ∈ text := by
  obtain ⟨left, gap, c, rest, rfl, _, hc, _⟩ := h.exists_letter hmark
  exact ⟨c, hc, by simp⟩

theorem not_of_letter {c : Char} (h : c ∈ mark.letters) :
    Amount.isFigure c = false ∧ isBlank c = false := by
  cases mark <;> simp only [Mark.letters, List.mem_cons, List.not_mem_nil, or_false] at h
  · rcases h with rfl | rfl | rfl <;> decide
  · subst h
    decide

theorem blanks_stop {c : Char} {rest : List Char} (hc : c ∈ mark.letters) :
    ∀ d ∈ (c :: rest).head?, isBlank d = false := by
  intro d hd
  rw [← Option.some.inj hd]
  exact (not_of_letter hc).2

theorem figures_stop {gap rest : List Char} {c : Char} (hgap : ∀ b ∈ gap, isBlank b = true)
    (hc : c ∈ mark.letters) : ∀ d ∈ (gap ++ c :: rest).head?, Amount.isFigure d = false := by
  intro d hd
  cases gap with
  | nil =>
      rw [← Option.some.inj hd]
      exact (not_of_letter hc).1
  | cons b gap =>
      rw [← Option.some.inj hd]
      exact isFigure_of_isBlank (hgap b List.mem_cons_self)

/-- Behind the figures of a number, blanks and a letter tell which mark it has. -/
theorem eq_of_letter {gap gap' rest rest' : List Char} {c c' : Char}
    (hgap : ∀ b ∈ gap, isBlank b = true) (hgap' : ∀ b ∈ gap', isBlank b = true)
    (hc : c ∈ mark.letters) (hc' : c' ∈ mark'.letters)
    (h : gap ++ c :: rest = gap' ++ c' :: rest') : mark = mark' := by
  obtain ⟨_, heq⟩ := run_unique hgap hgap' (blanks_stop hc) (blanks_stop hc') h
  obtain ⟨rfl, _⟩ := List.cons.inj heq
  exact Mark.eq_of_letter hc hc'

theorem not_sign_of_start (h : Marked allowThousands text .sign m n)
    (h' : Marked allowThousands text mark' m' n') (hmark : mark' ≠ .sign) :
    m.span.start ≠ m'.span.start := by
  intro hstart
  obtain ⟨left, gap, right, rfl, _, hleft⟩ := h.exists_sign
  obtain ⟨left', gap', c, rest, htext, _, _, hleft', _⟩ := h'.exists_letter hmark
  obtain ⟨_, heq⟩ := List.append_inj htext (by omega)
  obtain ⟨d, ds, hds⟩ := List.exists_cons_of_ne_nil h'.ne_nil
  rw [hds] at heq
  obtain ⟨rfl, _⟩ := List.cons.inj heq
  exact absurd (h'.isFigure '$' (hds ▸ List.mem_cons_self)) (by decide)

/-- Only one marked number begins at a place. -/
theorem eq_of_start (h : Marked allowThousands text mark m n)
    (h' : Marked allowThousands text mark' m' n') (hstart : m.span.start = m'.span.start) :
    n = n' := by
  have hmark : mark = mark' := by
    by_cases hsign : mark = .sign
    · subst hsign
      by_contra hsign'
      exact not_sign_of_start h h' (Ne.symm hsign') hstart
    · by_cases hsign' : mark' = .sign
      · subst hsign'
        exact (not_sign_of_start h' h hsign hstart.symm).elim
      · obtain ⟨left, gap, c, rest, rfl, hgap, hc, hleft, _⟩ := h.exists_letter hsign
        obtain ⟨left', gap', c', rest', htext, hgap', hc', hleft', _⟩ := h'.exists_letter hsign'
        obtain ⟨_, heq⟩ := List.append_inj htext (by omega)
        obtain ⟨_, heq⟩ := run_unique h.isFigure h'.isFigure (figures_stop hgap hc)
          (figures_stop hgap' hc') heq
        exact eq_of_letter hgap hgap' hc hc' heq
  subst hmark
  obtain rfl := h.occurs.eq_of_start h'.occurs hstart
  exact h.eq_of_match h'

end Marked

theorem mem_allMarked {mark : Pattern} {x : Nat × Number} :
    x ∈ allMarked mark text ↔
      ∃ m ∈ mark.findAll text, ofMatch? m = some x.2 ∧ m.span.start = x.1 := by
  rw [allMarked, List.mem_filterMap]
  refine exists_congr fun m => and_congr_right fun _ => ?_
  rw [Option.map_eq_some_iff]
  constructor
  · rintro ⟨amount, hamount, rfl⟩
    exact ⟨hamount, rfl⟩
  · rintro ⟨hamount, hstart⟩
    exact ⟨x.2, hamount, Prod.ext hstart rfl⟩

theorem mem_thousandfolds {thousandfolds : List (Nat × Number)}
    (h : (if allowThousands then allMarked thousands text else []).mapM
      (fun (place, amount) => (place, ·) <$> thousandfold amount) = .ok thousandfolds)
    {x : Nat × Number} : x ∈ thousandfolds ↔
      ∃ m, Marked allowThousands text .thousands m x.2 ∧ m.span.start = x.1 := by
  rw [mem_of_mapM_eq_ok h]
  constructor
  · rintro ⟨y, hy, hyx⟩
    obtain ⟨n, hn, rfl⟩ := map_eq_ok.mp hyx
    split at hy
    · next hallowed =>
        obtain ⟨m, hm, hamount, hstart⟩ := mem_allMarked.mp hy
        exact ⟨m, ⟨fun _ => hallowed, hm, _, hamount, hn⟩, hstart⟩
    · cases hy
  · rintro ⟨m, ⟨hallowed, hm, amount, hamount, hn⟩, hstart⟩
    rw [if_pos (hallowed rfl)]
    exact ⟨(x.1, amount), mem_allMarked.mpr ⟨m, hm, hamount, hstart⟩,
      map_eq_ok.mpr ⟨x.2, hn, rfl⟩⟩

/-- What the marks have found, in the order of the places. -/
theorem exists_found {amounts : List Number} (h : all allowThousands text = .ok amounts) :
    ∃ found : List (Nat × Number), amounts = different (found.map (·.2)) ∧
      found.Pairwise (fun x y => x.1 ≤ y.1) ∧
      ∀ x, x ∈ found ↔
        ∃ mark m, Marked allowThousands (lower text) mark m x.2 ∧ m.span.start = x.1 := by
  obtain ⟨thousandfolds, hthousandfolds, hamounts⟩ := bind_eq_ok.mp h
  refine ⟨_, (Except.ok.inj hamounts).symm, ?_, fun x => ?_⟩
  · exact Stable.pairwise_sort decide_eq_true_iff Nat.le_trans fun _ _ => Nat.le_total _ _
  · rw [Stable.sort_eq_mergeSort, (List.mergeSort_perm _ _).mem_iff, List.mem_append,
      List.mem_append, mem_allMarked, mem_allMarked, mem_thousandfolds hthousandfolds]
    constructor
    · rintro ((⟨m, hm, hamount, hstart⟩ | ⟨m, hm, hamount, hstart⟩) | ⟨m, hm, hstart⟩)
      · exact ⟨.sign, m, ⟨nofun, hm, _, hamount, rfl⟩, hstart⟩
      · exact ⟨.word, m, ⟨nofun, hm, _, hamount, rfl⟩, hstart⟩
      · exact ⟨.thousands, m, hm, hstart⟩
    · rintro ⟨mark, m, hm, hstart⟩
      cases mark with
      | sign =>
          obtain ⟨amount, hamount, hn⟩ := hm.value
          exact Or.inl (Or.inl ⟨m, hm.mem, Except.ok.inj hn ▸ hamount, hstart⟩)
      | word =>
          obtain ⟨amount, hamount, hn⟩ := hm.value
          exact Or.inl (Or.inr ⟨m, hm.mem, Except.ok.inj hn ▸ hamount, hstart⟩)
      | thousands => exact Or.inr ⟨m, hm, hstart⟩

/-- All amounts are returned unless a number in thousands has more than 305 digits. -/
theorem exists_run_of_all_eq_error {f : Fault} (h : all allowThousands text = .error f) :
    f = .overflow ∧ ∃ run, run <:+: lower text ∧ 305 < run.length ∧
      ∀ c ∈ run, isDecimalDigit c = true := by
  rcases bind_eq_error.mp h with h | ⟨_, _, h⟩
  · obtain ⟨x, hx, hfault⟩ := exists_of_mapM_eq_error h
    split at hx
    · obtain ⟨m, hm, hamount, _⟩ := mem_allMarked.mp hx
      exact exists_run_of_thousandfold_eq_error (occurs_of_mem_findAll hm) hamount
        (map_eq_error.mp hfault)
    · cases hx
  · cases h

theorem different_concat (numbers : List Number) (n : Number) :
    different (numbers ++ [n]) = if (different numbers).any (·.same n) then different numbers
      else different numbers ++ [n] := by
  unfold different
  rw [List.foldl_append]
  rfl

/-- For each number that is found, one that is the same is kept, and none stands in front of
it. -/
structure IsFirstOfEach (kept found : List (Nat × Number)) : Prop where
  sublist : kept.Sublist found
  apart : kept.Pairwise fun x y => x.2.same y.2 = false
  covers : ∀ y ∈ found, ∃ x ∈ kept, x.1 ≤ y.1 ∧ x.2.same y.2 = true

namespace IsFirstOfEach

variable {kept found : List (Nat × Number)} {x y : Nat × Number}

theorem eq_of_same (h : IsFirstOfEach kept found) (hx : x ∈ kept) (hy : y ∈ kept)
    (hsame : x.2.same y.2 = true) : x = y := by
  rcases eq_or_of_pairwise h.apart hx hy with heq | hapart | hapart
  · exact heq
  · rw [hapart] at hsame
    cases hsame
  · rw [Number.same_symm hsame] at hapart
    cases hapart

/-- A repetition is covered already. -/
theorem append_same (h : IsFirstOfEach kept found) (hx : x ∈ kept) (hle : x.1 ≤ y.1)
    (hsame : x.2.same y.2 = true) : IsFirstOfEach kept (found ++ [y]) where
  sublist := h.sublist.trans (List.sublist_append_left found [y])
  apart := h.apart
  covers := by
    rw [List.forall_mem_append, List.forall_mem_singleton]
    exact ⟨h.covers, x, hx, hle, hsame⟩

theorem append_new (h : IsFirstOfEach kept found) (hnew : ∀ x ∈ kept, x.2.same y.2 = false)
    (hy : y.2.isNaN = false) : IsFirstOfEach (kept ++ [y]) (found ++ [y]) where
  sublist := h.sublist.append (.refl [y])
  apart := by
    refine List.pairwise_append.mpr ⟨h.apart, List.pairwise_singleton _ y, fun x hx z hz => ?_⟩
    rw [List.mem_singleton.mp hz]
    exact hnew x hx
  covers := by
    rw [List.forall_mem_append, List.forall_mem_singleton]
    refine ⟨fun z hz => ?_, y, List.mem_append_right kept List.mem_cons_self, Nat.le_refl _,
      Number.same_self hy⟩
    obtain ⟨x, hx, hle⟩ := h.covers z hz
    exact ⟨x, List.mem_append_left _ hx, hle⟩

end IsFirstOfEach

theorem exists_firstOfEach {found : List (Nat × Number)}
    (hplaces : found.Pairwise fun x y => x.1 ≤ y.1) (hfound : ∀ x ∈ found, x.2.isNaN = false) :
    ∃ kept, different (found.map (·.2)) = kept.map (·.2) ∧ IsFirstOfEach kept found := by
  -- Whether a number is kept depends on those in front of it, so the last one comes off first.
  induction found using List.reverseRecOn with
  | nil => exact ⟨[], rfl, .slnil, .nil, fun _ hx => (List.not_mem_nil hx).elim⟩
  | append_singleton found y ih =>
      obtain ⟨hplaces, _, hlast⟩ := List.pairwise_append.mp hplaces
      rw [List.forall_mem_append, List.forall_mem_singleton] at hfound
      obtain ⟨kept, hkept, hfirst⟩ := ih hplaces hfound.1
      rw [List.map_append, List.map_singleton, different_concat, hkept]
      split
      · next hany =>
          obtain ⟨n, hn, hsame⟩ := List.any_eq_true.mp hany
          obtain ⟨x, hx, rfl⟩ := List.mem_map.mp hn
          have hle := hlast x (hfirst.sublist.subset hx) y List.mem_cons_self
          exact ⟨kept, rfl, hfirst.append_same hx hle hsame⟩
      · next hnone =>
          have hnew : ∀ x ∈ kept, x.2.same y.2 = false := by
            intro x hx
            rw [← Bool.not_eq_true]
            exact fun hsame => hnone (List.any_eq_true.mpr ⟨x.2, List.mem_map_of_mem hx, hsame⟩)
          exact ⟨kept ++ [y], by rw [List.map_append]; rfl, hfirst.append_new hnew hfound.2⟩

/-! ## The list of amounts -/

/-- A place where an amount is marked, and the first of all where one equal to it is. -/
structure IsFirstPlace (allowThousands : Bool) (text : List Char) (place : Nat) (n : Number) :
    Prop where
  marked : ∃ mark m, Marked allowThousands text mark m n ∧ m.span.start = place
  least : ∀ mark m n', Marked allowThousands text mark m n' → n'.same n = true →
    place ≤ m.span.start

/-- All amounts that are marked, once each. -/
structure IsListing (allowThousands : Bool) (text : List Char) (amounts : List Number) : Prop where
  places : ∃ places : List Nat, places.Pairwise (· < ·) ∧
    List.Forall₂ (IsFirstPlace allowThousands text) places amounts
  apart : amounts.Pairwise fun a b => a.same b = false
  mem_iff : ∀ n, n ∈ amounts ↔ ∃ mark m, Marked allowThousands text mark m n

theorem IsListing.eq_nil {amounts : List Number} (h : IsListing allowThousands text amounts)
    (hnone : ∀ mark m n, ¬ Marked allowThousands text mark m n) : amounts = [] := by
  rw [List.eq_nil_iff_forall_not_mem]
  intro n hn
  obtain ⟨mark, m, hm⟩ := (h.mem_iff n).mp hn
  exact hnone mark m n hm

theorem IsListing.eq_singleton {amounts : List Number} (h : IsListing allowThousands text amounts)
    {mark : Mark} (hm : Marked allowThousands text mark m n)
    (hsame : ∀ mark m n', Marked allowThousands text mark m n' → n' = n) : amounts = [n] := by
  have hn := (h.mem_iff n).mpr ⟨mark, m, hm⟩
  have hall : ∀ n' ∈ amounts, n' = n := by
    intro n' hn'
    obtain ⟨mark, m, hm'⟩ := (h.mem_iff n').mp hn'
    exact hsame mark m n' hm'
  match amounts, h with
  | [], _ => cases hn
  | [a], _ => rw [hall a List.mem_cons_self]
  | a :: b :: _, h =>
      have hapart := List.rel_of_pairwise_cons h.apart List.mem_cons_self
      rw [hall a List.mem_cons_self, hall b (List.mem_cons_of_mem a List.mem_cons_self)] at hapart
      exact (hm.isAmount.ne_of_differ hapart rfl).elim

theorem isListing_of_all {amounts : List Number} (h : all allowThousands text = .ok amounts) :
    IsListing allowThousands (lower text) amounts := by
  obtain ⟨found, rfl, hplaces, hfound⟩ := exists_found h
  have hisamount : ∀ x ∈ found, x.2.IsAmount := by
    intro x hx
    obtain ⟨mark, m, hm, _⟩ := (hfound x).mp hx
    exact hm.isAmount
  obtain ⟨kept, hkept, hfirst⟩ :=
    exists_firstOfEach hplaces fun x hx => (hisamount x hx).isNaN_eq
  have hmem : ∀ x ∈ kept, x ∈ found := fun x hx => hfirst.sublist.subset hx
  -- What covers a number is equal to it, for both are amounts.
  have hcovers : ∀ y ∈ found, ∃ x ∈ kept, x.1 ≤ y.1 ∧ x.2 = y.2 := by
    intro y hy
    obtain ⟨x, hx, hle, hsame⟩ := hfirst.covers y hy
    exact ⟨x, hx, hle, (hisamount x (hmem x hx)).eq_of_same (hisamount y hy) hsame⟩
  rw [hkept]
  refine ⟨⟨kept.map (·.1), ?_, ?_⟩, List.pairwise_map.mpr hfirst.apart, fun n => ?_⟩
  · refine List.pairwise_map.mpr (((hplaces.sublist hfirst.sublist).and hfirst.apart).imp_of_mem ?_)
    rintro x y hx hy ⟨hle, hsame⟩
    refine Nat.lt_of_le_of_ne hle fun hplace => ?_
    obtain ⟨mark, m, hm, hstart⟩ := (hfound x).mp (hmem x hx)
    obtain ⟨mark', m', hm', hstart'⟩ := (hfound y).mp (hmem y hy)
    exact hm.isAmount.ne_of_differ hsame
      (hm.eq_of_start hm' (by rw [hstart, hplace, hstart']))
  · refine List.forall₂_map_left_iff.mpr (List.forall₂_map_right_iff.mpr
      (List.forall₂_same.mpr fun x hx => ⟨(hfound x).mp (hmem x hx), ?_⟩))
    intro mark m n' hm hsame
    obtain ⟨y, hy, hle, hn⟩ := hcovers (m.span.start, n') ((hfound _).mpr ⟨mark, m, hm, rfl⟩)
    obtain rfl := hfirst.eq_of_same hy hx (hn ▸ hsame)
    exact hle
  · constructor
    · intro hn
      obtain ⟨x, hx, rfl⟩ := List.mem_map.mp hn
      obtain ⟨mark, m, hm, _⟩ := (hfound x).mp (hmem x hx)
      exact ⟨mark, m, hm⟩
    · rintro ⟨mark, m, hm⟩
      obtain ⟨x, hx, _, hn⟩ := hcovers (m.span.start, n) ((hfound _).mpr ⟨mark, m, hm, rfl⟩)
      exact List.mem_map.mpr ⟨x, hx, hn⟩

/-- The amounts that are returned are different, above zero, and whole in form just when they are
whole, and each stands where the first one equal to it is marked. A single amount is of this
form too. -/
theorem amounts_settled_inOrder (allowThousands : Bool) (text : List Char) :
    (∀ amounts, all allowThousands text = .ok amounts →
      (amounts.Pairwise fun a b => a.same b = false) ∧ (∀ n ∈ amounts, n.IsAmount) ∧
        ∃ places : List Nat, places.Pairwise (· < ·) ∧
          List.Forall₂ (IsFirstPlace allowThousands (lower text)) places amounts) ∧
      ∀ minDigits n, first minDigits allowThousands text = .ok (some n) → n.IsAmount := by
  refine ⟨fun amounts h => ?_, fun minDigits n h => isAmount_first h⟩
  have hlisting := isListing_of_all h
  refine ⟨hlisting.apart, fun n hn => ?_, hlisting.places⟩
  obtain ⟨mark, m, hm⟩ := (hlisting.mem_iff n).mp hn
  exact hm.isAmount

theorem amounts_settled_inOrder_threeMarks :
    all true "$500, 2k, 40 bucks, 500 usd".toList = .ok [.whole 500, .whole 2000, .whole 40] ∧
      (∃ places : List Nat, places.Pairwise (· < ·) ∧
        List.Forall₂ (IsFirstPlace true (lower "$500, 2k, 40 bucks, 500 usd".toList)) places
          [.whole 500, .whole 2000, .whole 40]) ∧
      first 1 true "up to 2.5k".toList = .ok (some (.whole 2500)) ∧
      (Number.whole 2500).IsAmount := by
  have hall : all true "$500, 2k, 40 bucks, 500 usd".toList =
      .ok [.whole 500, .whole 2000, .whole 40] := by decide +kernel
  have hfirst : first 1 true "up to 2.5k".toList = .ok (some (.whole 2500)) := by decide +kernel
  exact ⟨hall, ((amounts_settled_inOrder true _).1 _ hall).2.2, hfirst,
    (amounts_settled_inOrder true _).2 1 _ hfirst⟩

end Cardfolio.Amount
