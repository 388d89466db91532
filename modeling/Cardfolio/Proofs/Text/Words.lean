import Cardfolio.Text.Blank

/-!
# The words of a text

A text falls apart at the characters of a class, and its parts are what stands between them; at
blanks, the parts are the words. However many characters of the class stand side by side, and
at the ends, the parts are the same, and what is left of such a character has parts of its
own. A text that is put together from words and runs of blanks between them falls apart
into the same words again.
-/

namespace Cardfolio.Text

/-- A text has few characters, so these are gone through and not all that there are. -/
instance (priority := high) decidableForallMem (cs : List Char) (P : Char → Prop)
    [DecidablePred P] : Decidable (∀ c ∈ cs, P c) :=
  List.decidableBAll P cs

/-- The maximal runs of characters outside a class. -/
def partsBy (p : Char → Bool) (cs : List Char) : List (List Char) :=
  (cs.splitOnP p).filter (!·.isEmpty)

variable {p q : Char → Bool} {c : Char} {gap w : List Char}

theorem partsBy_append_cons (hc : p c = true) (cs ds : List Char) :
    partsBy p (cs ++ c :: ds) = partsBy p cs ++ partsBy p ds := by
  rw [partsBy, List.splitOnP_append_cons cs ds hc, List.filter_append]
  rfl

theorem partsBy_cons (hc : p c = true) (cs : List Char) : partsBy p (c :: cs) = partsBy p cs :=
  partsBy_append_cons hc [] cs

theorem partsBy_gap_append (hgap : ∀ c ∈ gap, p c = true) (cs : List Char) :
    partsBy p (gap ++ cs) = partsBy p cs := by
  induction gap with
  | nil => rfl
  | cons c gap ih =>
      obtain ⟨hc, hgap⟩ := List.forall_mem_cons.mp hgap
      rw [List.cons_append, partsBy_cons hc, ih hgap]

theorem partsBy_append_gap_append (hne : gap ≠ []) (hgap : ∀ c ∈ gap, p c = true)
    (cs ds : List Char) : partsBy p (cs ++ (gap ++ ds)) = partsBy p cs ++ partsBy p ds := by
  obtain ⟨c, gap, rfl⟩ := List.exists_cons_of_ne_nil hne
  obtain ⟨hc, hgap⟩ := List.forall_mem_cons.mp hgap
  rw [List.cons_append, partsBy_append_cons hc, partsBy_gap_append hgap]

theorem partsBy_append_gap (hgap : ∀ c ∈ gap, p c = true) (cs : List Char) :
    partsBy p (cs ++ gap) = partsBy p cs := by
  cases gap with
  | nil => rw [List.append_nil]
  | cons c gap =>
      rw [← List.append_nil (c :: gap), partsBy_append_gap_append (List.cons_ne_nil c gap) hgap]
      exact List.append_nil _

theorem of_mem_head_gap (hne : gap ≠ []) (hgap : ∀ c ∈ gap, p c = true) (cs : List Char) :
    ∀ c ∈ (gap ++ cs).head?, p c = true := by
  obtain ⟨d, gap, rfl⟩ := List.exists_cons_of_ne_nil hne
  intro c hc
  rw [← Option.some.inj hc]
  exact hgap d List.mem_cons_self

theorem of_mem_last_gap (hne : gap ≠ []) (hgap : ∀ c ∈ gap, p c = true) (cs : List Char) :
    ∀ c ∈ (cs ++ gap).getLast?, p c = true := by
  obtain ⟨d, hd⟩ := Option.isSome_iff_exists.mp (List.getLast?_isSome.mpr hne)
  intro c hc
  rw [List.getLast?_append, hd, Option.some_or] at hc
  rw [← Option.some.inj hc]
  exact hgap d (List.mem_of_getLast? hd)

/-- What ends in front of a character of the class ends with a part. -/
theorem partsBy_append_stop {after : List Char} (hafter : ∀ c ∈ after.head?, p c = true)
    (cs : List Char) : partsBy p (cs ++ after) = partsBy p cs ++ partsBy p after := by
  cases after with
  | nil => rw [List.append_nil, show partsBy p [] = [] from rfl, List.append_nil]
  | cons c after => rw [partsBy_append_cons (hafter c rfl), partsBy_cons (hafter c rfl)]

theorem partsBy_of_forall (hne : w ≠ []) (hw : ∀ c ∈ w, p c = false) : partsBy p w = [w] := by
  unfold partsBy
  rw [List.splitOnP_eq_singleton hw, List.filter_cons_of_pos, List.filter_nil]
  simpa using hne

/-- A part with characters of the class on both sides, or an end of the text. -/
theorem partsBy_append_part {before after : List Char} (hne : w ≠ [])
    (hw : ∀ c ∈ w, p c = false) (hbefore : ∀ c ∈ before.getLast?, p c = true)
    (hafter : ∀ c ∈ after.head?, p c = true) :
    partsBy p (before ++ (w ++ after)) = partsBy p before ++ w :: partsBy p after := by
  have hword : partsBy p (w ++ after) = w :: partsBy p after := by
    rw [partsBy_append_stop hafter, partsBy_of_forall hne hw]
    rfl
  rcases List.eq_nil_or_concat before with rfl | ⟨front, c, rfl⟩
  · exact hword
  · rw [List.concat_eq_append] at hbefore ⊢
    have hc := hbefore c (by rw [List.getLast?_concat]; rfl)
    rw [List.append_assoc, List.singleton_append, partsBy_append_cons hc, partsBy_append_cons hc,
      hword]
    exact congrArg (· ++ _) (List.append_nil _).symm

/-- A text is one part, or goes on behind its first part and a character of the class. The part may
be empty. -/
theorem induction_on_parts (p : Char → Bool) {motive : List Char → Prop}
    (part : ∀ w, (∀ c ∈ w, p c = false) → motive w)
    (gap : ∀ w c rest, (∀ c ∈ w, p c = false) → p c = true → motive rest →
      motive (w ++ c :: rest))
    (cs : List Char) : motive cs := by
  suffices h : ∀ w, (∀ c ∈ w, p c = false) → motive (w ++ cs) from
    h [] fun _ hc => (List.not_mem_nil hc).elim
  induction cs with
  | nil =>
      intro w hw
      rw [List.append_nil]
      exact part w hw
  | cons c cs ih =>
      intro w hw
      cases hc : p c with
      | true => exact gap w c cs hw hc (ih [] fun _ hc => (List.not_mem_nil hc).elim)
      | false =>
          rw [List.append_cons]
          refine ih (w ++ [c]) fun d hd => ?_
          rcases List.mem_append.mp hd with hd | hd
          · exact hw d hd
          · rwa [List.mem_singleton.mp hd]

theorem eq_of_mem_partsBy (hw : ∀ c ∈ w, p c = false) {v : List Char} (h : v ∈ partsBy p w) :
    v = w := by
  cases w with
  | nil => cases h
  | cons c w =>
      rw [partsBy_of_forall (List.cons_ne_nil c w) hw] at h
      exact List.mem_singleton.mp h

theorem of_mem_partsBy {cs : List Char} (h : w ∈ partsBy p cs) :
    w ≠ [] ∧ ∀ c ∈ w, p c = false := by
  refine ⟨by simpa using (List.mem_filter.mp h).2, ?_⟩
  induction cs using induction_on_parts p with
  | part v hv =>
      rw [eq_of_mem_partsBy hv h]
      exact hv
  | gap v c rest hv hc ih =>
      rw [partsBy_append_cons hc, List.mem_append] at h
      rcases h with h | h
      · rw [eq_of_mem_partsBy hv h]
        exact hv
      · exact ih h

/-- A part of a text stands in it with characters of the class on both sides, or an end of the
text. -/
theorem exists_around_of_mem_partsBy {cs : List Char} (h : w ∈ partsBy p cs) : ∃ before after,
    cs = before ++ (w ++ after) ∧ (∀ c ∈ before.getLast?, p c = true) ∧
      ∀ c ∈ after.head?, p c = true := by
  have hpart : ∀ v, (∀ c ∈ v, p c = false) → w ∈ partsBy p v → v = w :=
    fun v hv hmem => (eq_of_mem_partsBy hv hmem).symm
  induction cs using induction_on_parts p with
  | part v hv =>
      obtain rfl := hpart v hv h
      exact ⟨[], [], (List.append_nil v).symm, nofun, nofun⟩
  | gap v b rest hv hb ih =>
      rw [partsBy_append_cons hb, List.mem_append] at h
      rcases h with h | h
      · obtain rfl := hpart v hv h
        refine ⟨[], b :: rest, rfl, nofun, fun c hc => ?_⟩
        rwa [← Option.some.inj hc]
      · obtain ⟨before, after, rfl, hbefore, hafter⟩ := ih h
        refine ⟨v ++ b :: before, after, by simp, fun c hc => ?_, hafter⟩
        cases before with
        | nil =>
            rw [List.getLast?_concat] at hc
            rwa [← Option.some.inj hc]
        | cons d before =>
            rw [List.getLast?_append, List.getLast?_cons_cons, List.getLast?_cons,
              Option.some_or] at hc
            exact hbefore c (by rwa [List.getLast?_cons])

/-- A run of the class up to the first other character is determined by the text. -/
theorem run_unique {a a' r r' : List Char} (ha : ∀ c ∈ a, p c = true) (ha' : ∀ c ∈ a', p c = true)
    (hr : ∀ c ∈ r.head?, p c = false) (hr' : ∀ c ∈ r'.head?, p c = false)
    (h : a ++ r = a' ++ r') : a = a' ∧ r = r' := by
  have htake : ∀ {a r : List Char}, (∀ c ∈ a, p c = true) → (∀ c ∈ r.head?, p c = false) →
      (a ++ r).takeWhile p = a := by
    intro a r ha hr
    rw [List.takeWhile_append_of_pos ha]
    cases r with
    | nil => exact List.append_nil a
    | cons c r =>
        have hstop : ¬ p c = true := Bool.not_eq_true _ ▸ hr c rfl
        rw [List.takeWhile_cons_of_neg hstop, List.append_nil]
  obtain rfl : a = a' := by rw [← htake ha hr, h, htake ha' hr']
  exact ⟨rfl, List.append_cancel_left h⟩

/-- What `trim` has taken off. -/
theorem exists_around_trim (p : Char → Bool) (cs : List Char) :
    ∃ front back, cs = front ++ (trim p cs ++ back) ∧
      (∀ c ∈ front, p c = true) ∧ ∀ c ∈ back, p c = true := by
  have himp : ∀ {cs : List Char}, ∀ c ∈ cs.takeWhile p, p c = true := fun c hc =>
    List.all_eq_true.mp List.all_takeWhile c hc
  refine ⟨cs.takeWhile p, ((cs.dropWhile p).reverse.takeWhile p).reverse, ?_,
    himp, fun c hc => himp c (List.mem_reverse.mp hc)⟩
  rw [trim, ← List.reverse_append, List.takeWhile_append_dropWhile, List.reverse_reverse,
    List.takeWhile_append_dropWhile]

theorem partsBy_trim (p : Char → Bool) (cs : List Char) : partsBy p (trim p cs) = partsBy p cs := by
  obtain ⟨front, back, hcs, hfront, hback⟩ := exists_around_trim p cs
  have h := partsBy_gap_append hfront (trim p cs ++ back)
  rw [← hcs, partsBy_append_gap hback] at h
  exact h.symm

/-- A text falls apart at a wider class as its parts do. -/
theorem partsBy_eq_flatMap (hpq : ∀ c, p c = true → q c = true) (cs : List Char) :
    partsBy q cs = (partsBy p cs).flatMap (partsBy q) := by
  have hpart : ∀ w, (∀ c ∈ w, p c = false) → partsBy q w = (partsBy p w).flatMap (partsBy q) := by
    intro w hw
    cases w with
    | nil => rfl
    | cons c w =>
        rw [partsBy_of_forall (List.cons_ne_nil c w) hw, List.flatMap_singleton]
  induction cs using induction_on_parts p with
  | part w hw => exact hpart w hw
  | gap w c rest hw hc ih =>
      rw [partsBy_append_cons (hpq c hc), partsBy_append_cons hc, List.flatMap_append, ih,
        hpart w hw]

theorem isInfix_of_append_cons {v rest : List Char} (hc : c ∉ w) (h : w <:+: v ++ c :: rest) :
    w <:+: v ∨ w <:+: rest := by
  obtain ⟨left, right, heq⟩ := h
  rcases List.append_eq_append_iff.mp heq with ⟨more, rfl, _⟩ | ⟨more, hleft, hright⟩
  · exact Or.inl ⟨left, more, rfl⟩
  · cases more with
    | nil => exact Or.inl ⟨left, [], by rw [List.append_nil, hleft, List.append_nil]⟩
    | cons d more =>
        obtain ⟨rfl, rfl⟩ := List.cons.inj hright
        rcases List.append_eq_append_iff.mp hleft with ⟨mid, _, rfl⟩ | ⟨mid, _, hmore⟩
        · exact (hc (List.mem_append_right mid List.mem_cons_self)).elim
        · cases mid with
          | nil =>
              rw [List.nil_append] at hmore
              exact (hc (hmore ▸ List.mem_cons_self)).elim
          | cons e mid =>
              obtain ⟨_, rfl⟩ := List.cons.inj hmore
              exact Or.inr ⟨mid, right, rfl⟩

/-- What holds no character of the class stands within a part. -/
theorem exists_part_of_infix {cs : List Char} (hne : w ≠ []) (hw : ∀ c ∈ w, p c = false)
    (h : w <:+: cs) : ∃ v ∈ partsBy p cs, w <:+: v := by
  induction cs using induction_on_parts p with
  | part v hv =>
      have hvne : v ≠ [] := by
        rintro rfl
        exact hne (List.infix_nil.mp h)
      rw [partsBy_of_forall hvne hv]
      exact ⟨v, List.mem_singleton_self v, h⟩
  | gap v c rest hv hc ih =>
      have hcw : c ∉ w := fun hmem => by rw [hw c hmem] at hc; cases hc
      rw [partsBy_append_cons hc]
      rcases isInfix_of_append_cons hcw h with h | h
      · have hvne : v ≠ [] := by
          rintro rfl
          exact hne (List.infix_nil.mp h)
        rw [partsBy_of_forall hvne hv]
        exact ⟨v, List.mem_cons_self, h⟩
      · obtain ⟨u, hu, hinfix⟩ := ih h
        exact ⟨u, List.mem_append_right _ hu, hinfix⟩

/-- A text without parts is all of the class. -/
theorem of_partsBy_eq_nil {cs : List Char} (h : partsBy p cs = []) : ∀ c ∈ cs, p c = true := by
  intro c hc
  rw [← Bool.not_eq_false]
  intro hout
  obtain ⟨before, after, rfl⟩ := List.append_of_mem hc
  obtain ⟨v, hv, _⟩ := exists_part_of_infix (p := p) (List.cons_ne_nil c [])
    (fun d hd => by rwa [List.mem_singleton.mp hd])
    ⟨before, after, (List.append_cons before c after).symm⟩
  rw [h] at hv
  cases hv

/-- Around its only part a text is all of the class. -/
theorem exists_around_part {cs : List Char} (h : partsBy p cs = [w]) : ∃ front back,
    cs = front ++ (w ++ back) ∧ (∀ c ∈ front, p c = true) ∧ ∀ c ∈ back, p c = true := by
  have hnone : ∀ c ∈ ([] : List Char), p c = true := fun _ hc => (List.not_mem_nil hc).elim
  induction cs using induction_on_parts p with
  | part v hv =>
      obtain rfl := eq_of_mem_partsBy hv (h ▸ List.mem_singleton_self w)
      exact ⟨[], [], (List.append_nil w).symm, hnone, hnone⟩
  | gap v c rest hv hc ih =>
      rw [partsBy_append_cons hc] at h
      cases v with
      | nil =>
          obtain ⟨front, back, rfl, hfront, hback⟩ := ih h
          exact ⟨c :: front, back, rfl, List.forall_mem_cons.mpr ⟨hc, hfront⟩, hback⟩
      | cons d v =>
          rw [partsBy_of_forall (List.cons_ne_nil d v) hv] at h
          obtain ⟨rfl, hrest⟩ := List.cons.inj h
          exact ⟨[], c :: rest, rfl, hnone,
            List.forall_mem_cons.mpr ⟨hc, of_partsBy_eq_nil hrest⟩⟩

/-- The places of a text's only part are those of the characters outside the class. -/
theorem exists_places_of_part {cs : List Char} (h : partsBy p cs = [w]) : ∃ start, ∀ i c,
    cs[i]? = some c → (p c = false ↔ start ≤ i ∧ i < start + w.length) := by
  have hw : ∀ c ∈ w, p c = false := (of_mem_partsBy (h ▸ List.mem_singleton_self w)).2
  obtain ⟨front, back, rfl, hfront, hback⟩ := exists_around_part h
  refine ⟨front.length, fun i c hc => ?_⟩
  by_cases hi : i < front.length
  · rw [List.getElem?_append_left hi] at hc
    rw [hfront c (List.mem_of_getElem? hc)]
    exact iff_of_false nofun (by omega)
  · rw [List.getElem?_append_right (by omega)] at hc
    by_cases hi' : i - front.length < w.length
    · rw [List.getElem?_append_left hi'] at hc
      exact iff_of_true (hw c (List.mem_of_getElem? hc)) (by omega)
    · rw [List.getElem?_append_right (by omega)] at hc
      rw [hback c (List.mem_of_getElem? hc)]
      exact iff_of_false nofun (by omega)

/-! ## Words -/

theorem ne_nil_of_mem_words {cs : List Char} (h : w ∈ words cs) : w ≠ [] :=
  (of_mem_partsBy h).1

theorem isBlank_of_mem_words {cs : List Char} (h : w ∈ words cs) : ∀ c ∈ w, isBlank c = false :=
  (of_mem_partsBy h).2

/-- A blank parts the words in front of it from those behind it. -/
theorem words_append_blank (hc : isBlank c = true) (cs ds : List Char) :
    words (cs ++ c :: ds) = words cs ++ words ds :=
  partsBy_append_cons hc cs ds

theorem words_blank_cons (hc : isBlank c = true) (cs : List Char) :
    words (c :: cs) = words cs :=
  partsBy_cons hc cs

theorem words_blanks_append (hgap : ∀ c ∈ gap, isBlank c = true) (cs : List Char) :
    words (gap ++ cs) = words cs :=
  partsBy_gap_append hgap cs

theorem words_append_blanks (hne : gap ≠ []) (hgap : ∀ c ∈ gap, isBlank c = true)
    (cs ds : List Char) : words (cs ++ (gap ++ ds)) = words cs ++ words ds :=
  partsBy_append_gap_append hne hgap cs ds

theorem words_append_gap (hgap : ∀ c ∈ gap, isBlank c = true) (cs : List Char) :
    words (cs ++ gap) = words cs :=
  partsBy_append_gap hgap cs

theorem words_of_forall (hne : w ≠ []) (hw : ∀ c ∈ w, isBlank c = false) : words w = [w] :=
  partsBy_of_forall hne hw

theorem words_strip (cs : List Char) : words (strip cs) = words cs :=
  partsBy_trim isBlank cs

/-- A word and the blanks behind it come before the other words. -/
theorem words_append (hne : w ≠ []) (hw : ∀ c ∈ w, isBlank c = false) (hgapne : gap ≠ [])
    (hgap : ∀ c ∈ gap, isBlank c = true) (cs : List Char) :
    words (w ++ (gap ++ cs)) = w :: words cs := by
  rw [words_append_blanks hgapne hgap, words_of_forall hne hw]
  rfl

/-- A word with blanks on both sides, or an end of the text. -/
theorem words_append_word {before after : List Char} (hne : w ≠ [])
    (hw : ∀ c ∈ w, isBlank c = false) (hbefore : ∀ c ∈ before.getLast?, isBlank c = true)
    (hafter : ∀ c ∈ after.head?, isBlank c = true) :
    words (before ++ (w ++ after)) = words before ++ w :: words after :=
  partsBy_append_part hne hw hbefore hafter

/-- A word of a text stands in it with blanks on both sides, or an end of the text. -/
theorem exists_around_word {cs : List Char} (h : w ∈ words cs) : ∃ before after,
    cs = before ++ (w ++ after) ∧ (∀ c ∈ before.getLast?, isBlank c = true) ∧
      ∀ c ∈ after.head?, isBlank c = true :=
  exists_around_of_mem_partsBy h

/-- Words with a space between them are the words of their text. -/
theorem words_intercalate {ws : List (List Char)}
    (h : ∀ w ∈ ws, w ≠ [] ∧ ∀ c ∈ w, isBlank c = false) : words ([' '].intercalate ws) = ws := by
  induction ws with
  | nil => rfl
  | cons w ws ih =>
      obtain ⟨⟨hne, hw⟩, hws⟩ := List.forall_mem_cons.mp h
      cases ws with
      | nil => rw [List.intercalate_singleton, words_of_forall hne hw]
      | cons v ws =>
          rw [List.intercalate_cons_cons, List.append_assoc,
            words_append hne hw (List.cons_ne_nil _ _) (by decide), ih hws]

/-- A text that is not blank has a word. -/
theorem words_ne_nil {cs : List Char} (h : cs.any (!isBlank ·) = true) : words cs ≠ [] := by
  intro hnil
  obtain ⟨c, hc, hblank⟩ := List.any_eq_true.mp h
  rw [of_partsBy_eq_nil hnil c hc] at hblank
  cases hblank

end Cardfolio.Text
