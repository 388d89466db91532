import Cardfolio.Proofs.Number.Spelled
import Cardfolio.Proofs.Question.Balances
import Cardfolio.Proofs.Question.NormalForm
import Cardfolio.Proofs.Question.ThresholdReading

/-!
# Comparisons as they are written

A field, a comparing phrase and a whole number with spaces between them are read as just that
comparison. The pattern could stray from it in two ways. A field or a phrase can begin with
another one, as `less than or equal to` begins with `less than`; but the longest one that is
there is taken, and it ends where the number begins. And words may stand between the field and
the phrase; but as few as possible are read, and here none is needed.

The comparison takes up the whole text, so there is no room for another condition, and its
filter is the last one of the query.
-/

namespace Cardfolio

open Pattern Text

namespace Numeral

theorem IsWritten.isSign {n : Nat} {cs : List Char} (h : IsWritten n cs) :
    ∀ c ∈ cs, c.toNat < 65 ∧ isBlank c = false := by
  intro c hc
  rcases h.mem c hc with rfl | hdigit
  · exact ⟨by decide, by decide⟩
  · exact ⟨(Threshold.lt_and_ne_of_isDigit hdigit).1,
      isBlank_of_isDecimalDigit (isDecimalDigit_of_isDigit hdigit)⟩

theorem exists_head_of_mem_spellings {n : Nat} {s : List Char} (h : s ∈ spellings n) :
    ∃ c cs, s = c :: cs ∧ (c = '$' ∨ c.isDigit = true) := by
  obtain ⟨dollar, cs, hcs, rfl⟩ := exists_isWritten h
  obtain ⟨first, rest, rfl, hfirst⟩ := hcs.exists_cons
  cases dollar with
  | true => exact ⟨'$', first :: rest, rfl, Or.inl rfl⟩
  | false => exact ⟨first, rest, rfl, Or.inr hfirst⟩

theorem isNormal_of_mem_spellings {n : Nat} {s : List Char} (h : s ∈ spellings n) :
    IsNormal s := by
  obtain ⟨dollar, cs, hcs, rfl⟩ := exists_isWritten h
  refine .of_signs fun c hc => ?_
  rcases List.mem_append.mp hc with hc | hc
  · cases dollar with
    | true =>
        obtain rfl := List.mem_singleton.mp hc
        exact ⟨by decide, by decide⟩
    | false => cases hc
  · exact hcs.isSign c hc

theorem length_le_of_mem_spellings {n : Nat} (hn : n ≤ 2 ^ 53) {s : List Char}
    (h : s ∈ spellings n) : s.length ≤ 33 := by
  obtain ⟨dollar, cs, hcs, rfl⟩ := exists_isWritten h
  have hdigits := Binary64.length_toDigits_le hn
  have hlength := hcs.length_le
  cases dollar <;> simp <;> omega

end Numeral

open Numeral

/-- A number as it is written, as the parts of a threshold. -/
theorem exists_threshold_text {n : Nat} {cs : List Char} (h : IsWritten n cs) (dollar : Bool) :
    ∃ l : Threshold, l.text = (if dollar then ['$'] else []) ++ cs ∧
      Threshold.isThousands l.text = false ∧ Threshold.digits l.text = Nat.toDigits 10 n ∧
      Threshold.places l.text = 0 := by
  obtain ⟨first, rest, rfl, hfirst⟩ := h.exists_cons
  let l : Threshold := {
    lead := [], dollar, gap := [], first, whole := rest, fraction := [], unit := none,
    space := [], percent := false, lead_mem := nofun, gap_mem := nofun, first_mem := hfirst
    whole_mem := fun c hc => h.mem c (List.mem_cons_of_mem first hc), fraction_mem := nofun
    unit_mem := nofun, space_mem := nofun }
  refine ⟨l, ?_, l.isThousands_text, ?_, l.places_text⟩
  · simp [l, Threshold.text, Threshold.sign, Threshold.suffix, Threshold.close, pointed]
  · rw [l.digits_text, ← h.digits]
    exact List.append_nil _

theorem Condition.threshold?_zero :
    ∀ s ∈ spellings 0, Condition.threshold? s = .ok (some (.whole 0)) := by
  decide +kernel

/-- A whole number of up to 2⁵³ is read as it is spelled. -/
theorem Condition.threshold?_of_mem_spellings {n : Nat} (hn : n ≤ 2 ^ 53) {s : List Char}
    (h : s ∈ spellings n) : Condition.threshold? s = .ok (some (.whole n)) := by
  -- Zero is no amount, so it is recognised by a form of its own.
  by_cases hzero : n = 0
  · subst hzero
    exact threshold?_zero s h
  · obtain ⟨dollar, cs, hcs, rfl⟩ := exists_isWritten h
    obtain ⟨l, htext, hunit, hdigits, hplaces⟩ := exists_threshold_text hcs dollar
    have hvalue : Numeral.value (Threshold.digits l.text) = n := hdigits ▸ value_toDigits n
    have hpositive : ∃ c ∈ Threshold.digits l.text, c ≠ '0' := by
      by_contra hnone
      simp only [not_exists, not_and, not_not] at hnone
      exact hzero (hvalue.symm.trans (value_eq_zero hnone))
    have hnumber : Threshold.number l.text = .whole n := by
      rw [Threshold.number, hunit, if_neg Bool.false_ne_true, Threshold.decimal, hvalue, hplaces]
      exact Binary64.settle_ofDecimal hn
    have hread := Threshold.threshold?_text_of_few hunit hpositive (by omega)
    rw [hnumber, htext] at hread
    exact hread

namespace Vocabulary

variable {α : Type _} {f : Thread → Option α} {before : List Char}
  {pieces : List (String × Cursor × Cursor)} {x : α}

/-- The part of a threshold behind its signs. -/
def thresholdDigits : Pattern :=
  Pattern.sequence [room, one .digit, many (.either .digit (.exactly ',')),
    maybe (seq (lit ".") (run .digit)), maybe (Pattern.sequence [room, lit "k", edge]),
    maybe (seq room (lit "%"))]

theorem threshold_eq : threshold = Pattern.sequence [maybe (one (.exactly '-')), room,
    maybe (one (.exactly '$')), thresholdDigits] := rfl

theorem firstThat_thresholdDigits {n : Nat} {cs : List Char} (h : IsWritten n cs)
    (hx : f ⟨⟨cs.reverse ++ before, []⟩, pieces⟩ = some x) :
    thresholdDigits.firstThat f ⟨⟨before, cs⟩, pieces⟩ = some x := by
  obtain ⟨first, rest, rfl, hfirst⟩ := h.exists_cons
  have hblank : Stops .blank (first :: rest) := stops_of_cons (h.isSign first List.mem_cons_self).2
  have hdigit : CharClass.accepts .digit first = true := isDecimalDigit_of_isDigit hfirst
  have hgrouped : ∀ c ∈ rest, (CharClass.either .digit (.exactly ',')).accepts c = true := by
    intro c hc
    show (isDecimalDigit c || c == ',') = true
    rcases h.mem c (List.mem_cons_of_mem first hc) with rfl | hc
    · decide
    · rw [isDecimalDigit_of_isDigit hc, Bool.true_or]
  rw [thresholdDigits, firstThat_sequence_cons, room, firstThat_many_of_stops hblank,
    firstThat_sequence_cons, firstThat_one hdigit, firstThat_sequence_cons, ← List.append_nil rest]
  refine firstThat_many hgrouped stops_nil ?_
  rw [firstThat_sequence_cons, firstThat_maybe_at_end rfl, firstThat_sequence_cons,
    firstThat_maybe_at_end rfl]
  refine (firstThat_maybe_at_end rfl).trans ?_
  simpa using hx

/-- A threshold goes on to the end of a spelling. -/
theorem firstThat_threshold {n : Nat} {s : List Char} (h : s ∈ spellings n)
    (hx : f ⟨⟨s.reverse ++ before, []⟩, pieces⟩ = some x) :
    threshold.firstThat f ⟨⟨before, s⟩, pieces⟩ = some x := by
  obtain ⟨dollar, cs, hcs, rfl⟩ := exists_isWritten h
  rw [threshold_eq, firstThat_sequence_cons]
  cases dollar with
  | true =>
      have hminus : Stops (.exactly '-') ('$' :: cs) := stops_of_cons (by decide)
      have hblank : Stops .blank ('$' :: cs) := stops_of_cons (by decide)
      show (maybe _).firstThat _ ⟨⟨before, '$' :: cs⟩, pieces⟩ = _
      rw [firstThat_maybe_one_of_stops hminus, firstThat_sequence_cons, room,
        firstThat_many_of_stops hblank, firstThat_sequence_cons]
      refine firstThat_maybe_of_some ?_
      rw [firstThat_one (by decide)]
      refine firstThat_thresholdDigits hcs ?_
      simpa using hx
  | false =>
      obtain ⟨first, rest, rfl, hfirst⟩ := hcs.exists_cons
      have hminus : Stops (.exactly '-') (first :: rest) :=
        stops_of_cons (beq_eq_false_iff_ne.mpr (Threshold.lt_and_ne_of_isDigit hfirst).2)
      have hblank : Stops .blank (first :: rest) :=
        stops_of_cons (hcs.isSign first List.mem_cons_self).2
      have hdollar : Stops (.exactly '$') (first :: rest) := by
        refine stops_of_cons (beq_eq_false_iff_ne.mpr ?_)
        rintro rfl
        cases hfirst
      show (maybe _).firstThat _ ⟨⟨before, first :: rest⟩, pieces⟩ = _
      rw [firstThat_maybe_one_of_stops hminus, firstThat_sequence_cons, room,
        firstThat_many_of_stops hblank, firstThat_sequence_cons,
        firstThat_maybe_one_of_stops hdollar]
      exact firstThat_thresholdDigits hcs hx

/-! ## The match -/

theorem isNormalPhrase_comparedFields :
    ∀ w ∈ comparedFields, isNormalPhrase w.toList = true ∧ w.length ≤ 20 := by
  decide

theorem isPhrase_comparedFields : ∀ w ∈ comparedFields, IsPhrase w := by
  decide

theorem isNormalPhrase_comparingPhrases :
    ∀ w ∈ comparingPhrases.map (·.1), isNormalPhrase w.toList = true ∧ w.length ≤ 30 := by
  decide

/-- No field begins with another one. -/
theorem eq_of_prefix_comparedFields :
    ∀ v ∈ comparedFields, ∀ w ∈ comparedFields, w.toList.isPrefixOf v.toList = true → v = w := by
  decide

/-- No comparing phrase has a digit or a dollar sign in it. -/
theorem not_mem_comparingPhrases : ∀ w ∈ comparingPhrases.map (·.1),
    w.toList.all (fun c => c != '$' && !c.isDigit) = true := by
  decide

theorem isWordChar_comparedFields : ∀ w ∈ comparedFields,
    w.toList.head?.any isWordChar = true ∧ w.toList.getLast?.any isWordChar = true := by
  decide

/-- The text of a comparison. -/
def writtenComparison (field phrase : String) (number : List Char) : List Char :=
  field.toList ++ ' ' :: (phrase.toList ++ ' ' :: number)

/-- The match of a comparison, with its pieces. -/
def writtenMatch (field phrase : String) (number : List Char) : Match :=
  let start : Cursor := .start (writtenComparison field phrase number)
  let fieldEnd : Cursor := ⟨field.toList.reverse ++ [], ' ' :: (phrase.toList ++ ' ' :: number)⟩
  let phraseStart : Cursor := ⟨' ' :: fieldEnd.before, phrase.toList ++ ' ' :: number⟩
  let phraseEnd : Cursor := ⟨phrase.toList.reverse ++ phraseStart.before, ' ' :: number⟩
  let numberStart : Cursor := ⟨' ' :: phraseEnd.before, number⟩
  let stop : Cursor := ⟨number.reverse ++ numberStart.before, []⟩
  ⟨start, stop, [("value", numberStart, stop), ("op", phraseStart, phraseEnd),
    ("field", start, fieldEnd)]⟩

section

variable {field phrase : String} {n : Nat} {s : List Char}

/-- Of the fields only the one that the text begins with is read. -/
theorem shorter_of_prefix_field (hfield : field ∈ comparedFields) {rest : List Char} :
    ∀ v ∈ comparedFields, v.toList <+: field.toList ++ rest → v ≠ field →
      v.length < field.length := by
  intro v hv hprefix hne
  by_contra hlength
  have hlonger : field.toList.length ≤ v.toList.length := by
    rw [String.length_toList, String.length_toList]
    omega
  have hbegins := List.prefix_of_prefix_length_le (List.prefix_append field.toList rest) hprefix
    hlonger
  exact hne (eq_of_prefix_comparedFields v hv field hfield (List.isPrefixOf_iff_prefix.mpr hbegins))

/-- No comparing phrase goes on into the number. -/
theorem shorter_of_prefix_phrase (hs : s ∈ spellings n) :
    ∀ v ∈ comparingPhrases.map (·.1), v.toList <+: phrase.toList ++ ' ' :: s → v ≠ phrase →
      v.length < phrase.length := by
  intro v hv hprefix hne
  by_contra hlength
  have hlonger : phrase.toList.length ≤ v.toList.length := by
    rw [String.length_toList, String.length_toList]
    omega
  obtain ⟨more, hmore⟩ :=
    List.prefix_of_prefix_length_le (List.prefix_append _ (' ' :: s)) hprefix hlonger
  rw [← hmore, List.prefix_append_right_inj] at hprefix
  obtain ⟨c, cs, rfl, hc⟩ := exists_head_of_mem_spellings hs
  -- A longer phrase would end with the space or go on into the number. None ends with a space,
  -- and none has a character in it that a number begins with.
  match more, hprefix with
  | [], _ =>
      rw [List.append_nil] at hmore
      exact hne (String.toList_inj.mp hmore.symm)
  | [d], hprefix =>
      obtain rfl : d = ' ' := (List.cons_prefix_cons.mp hprefix).1
      have hnormal := (IsNormal.of_phrase (isNormalPhrase_comparingPhrases v hv).1).1
      have hlast := hnormal.trimmed.last ' ' (by rw [← hmore]; simp)
      exact absurd hlast (by decide)
  | d :: d' :: more, hprefix =>
      obtain ⟨_, hprefix⟩ := List.cons_prefix_cons.mp hprefix
      obtain rfl : d' = c := (List.cons_prefix_cons.mp hprefix).1
      have hmem : d' ∈ v.toList := by rw [← hmore]; simp
      have hnot := List.all_eq_true.mp (not_mem_comparingPhrases v hv) d' hmem
      rcases hc with rfl | hdigit
      · exact absurd hnot (by decide)
      · rw [hdigit] at hnot
        simp at hnot

theorem isNormal_writtenComparison (hfield : field ∈ comparedFields)
    (hphrase : phrase ∈ comparingPhrases.map (·.1)) (hs : s ∈ spellings n) :
    IsNormal (writtenComparison field phrase s) := by
  obtain ⟨hnormal, hne⟩ := IsNormal.of_phrase (isNormalPhrase_comparedFields field hfield).1
  obtain ⟨hnormal', hne'⟩ := IsNormal.of_phrase (isNormalPhrase_comparingPhrases phrase hphrase).1
  have hsne : s ≠ [] := by
    obtain ⟨c, cs, rfl, _⟩ := exists_head_of_mem_spellings hs
    exact List.cons_ne_nil c cs
  exact hnormal.join hne (hnormal'.join hne' (isNormal_of_mem_spellings hs) hsne) (by simp)

theorem isEdge_field (hfield : field ∈ comparedFields) (rest : List Char) :
    Cursor.isEdge ⟨[], field.toList ++ ' ' :: rest⟩ = true ∧
      Cursor.isEdge ⟨field.toList.reverse, ' ' :: rest⟩ = true := by
  obtain ⟨hhead, hlast⟩ := isWordChar_comparedFields field hfield
  obtain ⟨c, hc, hword⟩ := (Option.any_eq_true ..).mp hhead
  obtain ⟨d, hd, hword'⟩ := (Option.any_eq_true ..).mp hlast
  obtain ⟨cs, hcs⟩ := List.head?_eq_some_iff.mp hc
  obtain ⟨ds, hds⟩ := List.getLast?_eq_some_iff.mp hd
  constructor
  · rw [hcs]
    exact isEdge_ahead stops_nil hword
  · rw [hds, List.reverse_append]
    exact isEdge_behind hword' (stops_of_cons (by decide))

/-- How the pattern of comparisons reads a written one. -/
theorem firstThat_comparison {α : Type _} {f : Thread → Option α} {x : α}
    (hfield : field ∈ comparedFields) (hphrase : phrase ∈ comparingPhrases.map (·.1))
    (hs : s ∈ spellings n)
    (hx : f ⟨(writtenMatch field phrase s).stop, (writtenMatch field phrase s).pieces⟩ = some x) :
    comparison.firstThat f ⟨.start (writtenComparison field phrase s), []⟩ = some x := by
  have hnormal := isNormal_writtenComparison hfield hphrase hs
  obtain ⟨hnormal', hne⟩ := IsNormal.of_phrase (isNormalPhrase_comparingPhrases phrase hphrase).1
  obtain ⟨c, cs, hcs, hc⟩ := exists_head_of_mem_spellings hs
  have hbehind : IsNormal (phrase.toList ++ ' ' :: s) :=
    hnormal'.join hne (isNormal_of_mem_spellings hs) (by simp [hcs])
  obtain ⟨hedge, hedge'⟩ := isEdge_field hfield (phrase.toList ++ ' ' :: s)
  have hreward : "reward ".toList.map caseless ≠ [] := by decide
  have hearn : "earn ".toList.map caseless ≠ [] := by decide
  -- Nothing stands in front of the text, so the field belongs to no reward.
  rw [comparison, firstThat_sequence_cons, notAfter]
  refine (firstThat_notBehind_start hreward).trans ?_
  rw [firstThat_sequence_cons, notAfter]
  refine (firstThat_notBehind_start hearn).trans ?_
  rw [firstThat_sequence_cons, firstThat_edge hedge, firstThat_sequence_cons, firstThat_piece]
  refine firstThat_phraseOf isPhrase_comparedFields hfield hnormal.plain hnormal.spaced
    (shorter_of_prefix_field hfield) ?_
  rw [firstThat_sequence_cons, firstThat_edge (by rw [List.append_nil]; exact hedge'),
    firstThat_sequence_cons]
  -- Fewer words between the field and the phrase are tried first, and without any it goes on.
  refine firstThat_few_of_some ?_
  rw [firstThat_sequence_cons]
  refine firstThat_room_space (fun d hd => hbehind.trimmed.head d hd) ?_
  rw [firstThat_sequence_cons, firstThat_piece]
  refine firstThat_phraseOf (fun w hw => isPhrase_comparingPhrases w hw) hphrase hbehind.plain
    hbehind.spaced (shorter_of_prefix_phrase hs) ?_
  rw [firstThat_sequence_cons]
  refine firstThat_room_space (fun d hd => (isNormal_of_mem_spellings hs).trimmed.head d hd) ?_
  rw [firstThat_sequence_cons, firstThat_piece]
  refine firstThat_threshold hs ?_
  exact (firstThat_here _).trans hx

theorem matchAt_comparison (hfield : field ∈ comparedFields)
    (hphrase : phrase ∈ comparingPhrases.map (·.1)) (hs : s ∈ spellings n) :
    comparison.matchAt (.start (writtenComparison field phrase s))
      = some (writtenMatch field phrase s) := by
  have hread : comparison.firstThat (fun u => some (id (Match.mk
      (.start (writtenComparison field phrase s)) u.cursor u.pieces)))
      ⟨.start (writtenComparison field phrase s), []⟩ = some (writtenMatch field phrase s) :=
    firstThat_comparison hfield hphrase hs rfl
  obtain ⟨m, hm, rfl⟩ := exists_matchAt_of_firstThat hread
  exact hm

theorem pieceText_writtenMatch (field phrase : String) (s : List Char) :
    (writtenMatch field phrase s).pieceText "field" = field.toList ∧
      (writtenMatch field phrase s).pieceText "op" = phrase.toList ∧
      (writtenMatch field phrase s).pieceText "value" = s :=
  ⟨Cursor.Past.upTo_eq ⟨rfl, rfl⟩, Cursor.Past.upTo_eq ⟨rfl, rfl⟩,
    Cursor.Past.upTo_eq ⟨rfl, (List.append_nil s).symm⟩⟩

theorem length_writtenMatch (field phrase : String) (s : List Char) :
    (writtenMatch field phrase s).length = (writtenComparison field phrase s).length :=
  rfl

theorem span_writtenMatch (field phrase : String) (s : List Char) :
    (writtenMatch field phrase s).span = ⟨0, (writtenComparison field phrase s).length⟩ :=
  congrArg (Span.mk 0) (Nat.zero_add _)

end

end Vocabulary

/-! ## The condition -/

namespace Condition

theorem respaced_of_isPhrase {s : String} (h : IsPhrase s) : respaced s.toList = s :=
  h.2.2

/-- Each comparing phrase stands for one operator. -/
theorem lookup_comparingPhrases : ∀ entry ∈ Vocabulary.comparingPhrases,
    Vocabulary.comparingPhrases.lookup entry.1 = some entry.2 := by
  decide

variable {field phrase operator : String} {n : Nat} {s : List Char}

theorem ofComparison_writtenMatch (hfield : field ∈ Vocabulary.comparedFields)
    (hphrase : (phrase, operator) ∈ Vocabulary.comparingPhrases) (hn : n ≤ 2 ^ 53)
    (hs : s ∈ spellings n) :
    ofComparison (Vocabulary.writtenMatch field phrase s) = .ok (some {
      kind := .comparison, subject := field, operator, value := .number (.whole n)
      span := ⟨0, (Vocabulary.writtenComparison field phrase s).length⟩ }) := by
  obtain ⟨hfieldText, hop, hvalue⟩ := Vocabulary.pieceText_writtenMatch field phrase s
  have hmem : phrase ∈ Vocabulary.comparingPhrases.map (·.1) := List.mem_map_of_mem hphrase
  have hphraseText := respaced_of_isPhrase (Vocabulary.isPhrase_comparingPhrases phrase hmem)
  have hlookup : Vocabulary.comparingPhrases.lookup phrase = some operator :=
    lookup_comparingPhrases _ hphrase
  unfold ofComparison
  rw [hvalue, threshold?_of_mem_spellings hn hs, hop, hphraseText, hfieldText,
    respaced_of_isPhrase (Vocabulary.isPhrase_comparedFields field hfield),
    Vocabulary.span_writtenMatch]
  simp only [hlookup]
  rfl

theorem comparisons_writtenComparison (hfield : field ∈ Vocabulary.comparedFields)
    (hphrase : (phrase, operator) ∈ Vocabulary.comparingPhrases) (hn : n ≤ 2 ^ 53)
    (hs : s ∈ spellings n) :
    comparisons (Vocabulary.writtenComparison field phrase s) = .ok [{
      kind := .comparison, subject := field, operator, value := .number (.whole n)
      span := ⟨0, (Vocabulary.writtenComparison field phrase s).length⟩ }] := by
  have hmem : phrase ∈ Vocabulary.comparingPhrases.map (·.1) := List.mem_map_of_mem hphrase
  have hne : Vocabulary.writtenComparison field phrase s ≠ [] := by
    simp [Vocabulary.writtenComparison]
  have hfound := findAll_eq_singleton (Vocabulary.matchAt_comparison hfield hmem hs) hne
    (Vocabulary.length_writtenMatch field phrase s)
  unfold comparisons
  rw [hfound, List.mapM_cons, ofComparison_writtenMatch hfield hphrase hn hs]
  rfl

end Condition

/-! ## The query -/

namespace Question

variable {field phrase operator : String} {n : Nat} {s : List Char}

/-- The question that consists of a comparison. -/
def comparisonQuestion (field phrase : String) (number : List Char) : String :=
  field ++ " " ++ phrase ++ " " ++ String.ofList number

theorem toList_comparisonQuestion (field phrase : String) (number : List Char) :
    (comparisonQuestion field phrase number).toList
      = Vocabulary.writtenComparison field phrase number := by
  simp [comparisonQuestion, Vocabulary.writtenComparison]

/-- Every field that can be compared is a field of cards. -/
theorem field?_comparedFields :
    ∀ w ∈ Vocabulary.comparedFields, (({} : Dictionary).field? w).isSome = true := by
  simp only [Dictionary.field?, AliasTable.resolve?, AliasTable.lookup?_standard]
  decide

theorem length_writtenComparison_le (hfield : field ∈ Vocabulary.comparedFields)
    (hphrase : phrase ∈ Vocabulary.comparingPhrases.map (·.1)) (hn : n ≤ 2 ^ 53)
    (hs : s ∈ spellings n) : (Vocabulary.writtenComparison field phrase s).length ≤ 305 := by
  have hfieldLength := (Vocabulary.isNormalPhrase_comparedFields field hfield).2
  have hphraseLength := (Vocabulary.isNormalPhrase_comparingPhrases phrase hphrase).2
  have hlength := length_le_of_mem_spellings hn hs
  simp only [Vocabulary.writtenComparison, List.length_append, List.length_cons,
    String.length_toList]
  omega

/-- A field that can be compared, a comparing phrase and a whole number of up to 2⁵³, in any
spelling, are read as that comparison and nothing else, and its clause is the last filter of the
query. -/
theorem read_comparisonQuestion (hfield : field ∈ Vocabulary.comparedFields)
    (hphrase : (phrase, operator) ∈ Vocabulary.comparingPhrases) (hn : n ≤ 2 ^ 53)
    (hs : s ∈ spellings n) (settings : Settings) (dataset : Datum) :
    ∃ e q name, read settings (comparisonQuestion field phrase s) = .ok e ∧
      e.conditions = [{
        kind := .comparison, subject := field, operator, value := .number (.whole n)
        span := ⟨0, (comparisonQuestion field phrase s).length⟩ }] ∧
      ({} : Dictionary).field? field = some name ∧
      query {} dataset (.text (comparisonQuestion field phrase s)) (some e) = .ok q ∧
      q.filters.getLast?
        = some (.clause { field := name, operator, value := .number (.whole n) }) := by
  have hmem : phrase ∈ Vocabulary.comparingPhrases.map (·.1) := List.mem_map_of_mem hphrase
  have hnormal := Vocabulary.isNormal_writtenComparison hfield hmem hs
  have htext := toList_comparisonQuestion field phrase s
  have hlength : (Vocabulary.writtenComparison field phrase s).length
      = (comparisonQuestion field phrase s).length := by
    rw [← htext, String.length_toList]
  obtain ⟨e, he⟩ : ∃ e, read settings (comparisonQuestion field phrase s) = .ok e := by
    refine exists_read ?_ (not_hasLongNumber_of_length ?_)
    · rw [htext]
      exact fun c hc hin => (hnormal.plain c hin).2 hc
    · rw [htext, hnormal.normalize_eq]
      exact length_writtenComparison_le hfield hmem hn hs
  obtain ⟨comparisons, hreads⟩ := exists_reads he
  rw [htext, hnormal.normalize_eq] at hreads
  have hcompared := Condition.comparisons_writtenComparison hfield hphrase hn hs
  obtain rfl := Except.ok.inj (hreads.compared.symm.trans hcompared)
  have hconditions := hreads.conditions_eq_singleton rfl
  obtain ⟨name, hname⟩ := Option.isSome_iff_exists.mp (field?_comparedFields field hfield)
  obtain ⟨comparison, hcomparison⟩ := Option.isSome_iff_exists.mp
    (Condition.isSome_ofSymbol?_comparingPhrases _ hphrase)
  obtain ⟨q, hq, hfilters⟩ := hreads.exists_query dataset (comparisonQuestion field phrase s)
  rw [hreads.filtersOf_eq hconditions rfl (ofSymbol?_eq_some_iff.mp hcomparison) hname] at hfilters
  refine ⟨e, q, name, he, hlength ▸ hconditions, hname, hq, ?_⟩
  rw [hfilters, List.getLast?_append]
  rfl

/-- A phrase that goes on from a shorter one, and a number with commas. -/
theorem read_comparisonQuestion_creditLimit :
    "credit limit" ∈ Vocabulary.comparedFields ∧
      ("greater than or equal to", ">=") ∈ Vocabulary.comparingPhrases ∧ 12500 ≤ 2 ^ 53 ∧
      "$12,500".toList ∈ spellings 12500 ∧
      ∃ e q name, read {} (comparisonQuestion "credit limit" "greater than or equal to"
          "$12,500".toList) = .ok e ∧
        e.conditions = [{
          kind := .comparison, subject := "credit limit", operator := ">="
          value := .number (.whole (12500 : Nat))
          span := ⟨0, (comparisonQuestion "credit limit" "greater than or equal to"
            "$12,500".toList).length⟩ }] ∧
        ({} : Dictionary).field? "credit limit" = some name ∧
        query {} .null (.text (comparisonQuestion "credit limit" "greater than or equal to"
          "$12,500".toList)) (some e) = .ok q ∧
        q.filters.getLast? = some (.clause {
          field := name, operator := ">=", value := .number (.whole (12500 : Nat)) }) := by
  have hfield : "credit limit" ∈ Vocabulary.comparedFields := by decide
  have hphrase : ("greater than or equal to", ">=") ∈ Vocabulary.comparingPhrases := by decide
  have hn : 12500 ≤ 2 ^ 53 := by decide
  have hs : "$12,500".toList ∈ spellings 12500 := by decide
  exact ⟨hfield, hphrase, hn, hs, read_comparisonQuestion hfield hphrase hn hs {} .null⟩

end Question

end Cardfolio
