import Cardfolio.Proofs.Pattern.Occurrence
import Cardfolio.Proofs.Pattern.Phrases
import Cardfolio.Proofs.Text.Blanks

/-!
# Where words begin in a match

A phrase is matched between two edges, so its match begins where a word of the text begins.
Suppose two phrases have overlapping matches. The later one begins where a word of the text
begins that lies in the earlier match, and hence a word of the earlier phrase stands there
as well as the first word of the later phrase. Both are read from the same letters, so one
of the two words begins with the other. Phrases none of whose words begin with each other
therefore never overlap (`overlaps_eq_false`).

The words of a phrase are given by a list that is long enough: `HasWords` says that
wherever a word begins in what the pattern spells, one of the list is read there.
-/

namespace Cardfolio

open Text

theorem Text.isWordChar_of_latinLetter? {c d : Char} (h : latinLetter? c = some d) :
    isWordChar c = true := by
  unfold latinLetter? at h
  split at h
  · next halpha =>
      have hlt : c.toNat < 128 := by
        have := isAlpha_iff.mp halpha
        omega
      rw [isWordChar, if_pos hlt, Char.isAlphanum, halpha]
      rfl
  · split at h
    · next hs => exact hs ▸ by decide +kernel
    · split at h
      · next hi =>
          rw [Bool.or_eq_true, decide_eq_true_eq, decide_eq_true_eq] at hi
          rcases hi with rfl | rfl <;> decide +kernel
      · split at h
        · next hk => exact hk ▸ by decide +kernel
        · cases h

namespace Pattern

/-- A word is spelled by the characters that stand for its letters. -/
theorem spells_lit_iff_map {w : String} (hw : ∀ c ∈ w.toList, c.isLower = true)
    {s : List Char} : (lit w).Spells s ↔ s.map latinLetter? = w.toList.map some := by
  have hletters : (w.toList.map fun c => one (caseless c)) =
      w.toList.map fun c => one (.letter c) :=
    List.map_congr_left fun c hc => by rw [caseless, if_pos (hw c hc)]
  rw [lit, hletters, spells_ones_iff, ← List.forall₂_eq_eq_eq, List.forall₂_map_left_iff,
    List.forall₂_map_right_iff]
  simp only [CharClass.accepts, beq_iff_eq]

theorem isWordChar_of_spells_lit {w : String} (hw : ∀ c ∈ w.toList, c.isLower = true)
    {s : List Char} (h : (lit w).Spells s) : ∀ c ∈ s, isWordChar c = true := by
  intro c hc
  have hmem := List.mem_map_of_mem (f := latinLetter?) hc
  rw [(spells_lit_iff_map hw).mp h] at hmem
  obtain ⟨d, _, hd⟩ := List.mem_map.mp hmem
  exact isWordChar_of_latinLetter? hd.symm

/-- Wherever a word begins in what the pattern spells, one of these words is read. -/
def HasWords (ws : List String) (p : Pattern) : Prop :=
  ∀ a b, p.Spells (a ++ b) → (∀ c ∈ a.getLast?, isWordChar c = false) →
    (∃ c ∈ b.head?, isWordChar c = true) → ∃ w ∈ ws, ∃ s, (lit w).Spells s ∧ s <+: b

namespace HasWords

variable {ws : List String} {p q : Pattern}

theorem lit {w : String} (hws : ∀ w ∈ ws, ∀ c ∈ w.toList, c.isLower = true) (hw : w ∈ ws) :
    HasWords ws (lit w) := by
  intro a b h ha _
  have hchars := isWordChar_of_spells_lit (hws w hw) h
  cases hlast : a.getLast? with
  | none =>
      rw [List.getLast?_eq_none_iff.mp hlast] at h
      exact ⟨w, hw, b, h, List.prefix_refl b⟩
  | some c =>
      have hc := hchars c (List.mem_append_left b (List.mem_of_getLast? hlast))
      rw [ha c hlast] at hc
      cases hc

theorem gap : HasWords ws gap := by
  rintro a b ⟨_, hblank⟩ _ ⟨c, hc, hword⟩
  have hc := hblank c (List.mem_append_right a (List.mem_of_mem_head? hc))
  rw [(isPlainBlank_of_isBlank hc).isWordChar_eq] at hword
  cases hword

theorem seq (hp : HasWords ws p) (hq : HasWords ws q) : HasWords ws (seq p q) := by
  rintro a b ⟨s, r, hs, hr, heq⟩ ha ⟨c, hc, hword⟩
  rcases List.append_eq_append_iff.mp heq with ⟨t, rfl, rfl⟩ | ⟨t, rfl, rfl⟩
  · -- The word begins in what `p` spells, or right behind it.
    cases t with
    | nil => exact hq [] r hr nofun ⟨c, hc, hword⟩
    | cons d t =>
        obtain ⟨w, hw, x, hx, hprefix⟩ := hp a (d :: t) hs ha ⟨c, hc, hword⟩
        exact ⟨w, hw, x, hx, hprefix.trans (List.prefix_append _ r)⟩
  · refine hq t b hr (fun d hd => ha d ?_) ⟨c, hc, hword⟩
    rw [List.getLast?_append, Option.mem_def.mp hd]
    rfl

theorem alt (hp : HasWords ws p) (hq : HasWords ws q) : HasWords ws (alt p q) :=
  fun a b h => h.elim (hp a b) (hq a b)

theorem maybe (hp : HasWords ws p) : HasWords ws (maybe p) := by
  refine hp.alt fun a b h _ => ?_
  rintro ⟨c, hc, _⟩
  rw [(List.append_eq_nil_iff.mp h).2] at hc
  cases hc

end HasWords

/-- Whether what a pattern spells begins with a letter. -/
def beginsWithLetter : Pattern → Bool
  | one (.letter _) => true
  | seq p _ => p.beginsWithLetter
  | alt p q => p.beginsWithLetter && q.beginsWithLetter
  | _ => false

theorem head?_of_spells {p : Pattern} (hp : p.beginsWithLetter = true) {s : List Char}
    (h : p.Spells s) : ∃ c ∈ s.head?, isWordChar c = true := by
  induction p generalizing s with
  | one k =>
      cases k with
      | letter d =>
          obtain ⟨c, hc, rfl⟩ := h
          exact ⟨c, rfl, isWordChar_of_latinLetter? (beq_iff_eq.mp hc)⟩
      | _ => cases hp
  | seq p q ihp _ =>
      obtain ⟨a, b, ha, _, rfl⟩ := h
      obtain ⟨c, hc, hword⟩ := ihp hp ha
      refine ⟨c, ?_, hword⟩
      rw [List.head?_append, Option.mem_def.mp hc]
      rfl
  | alt p q ihp ihq =>
      obtain ⟨hp, hq⟩ := Bool.and_eq_true_iff.mp hp
      exact h.elim (ihp hp) (ihq hq)
  | _ => cases hp

variable {p q : Pattern} {text : List Char} {m m' : Match}

/-- The match of a phrase begins where a word begins. -/
theorem Occurs.exists_wordStart (hp : p.beginsWithLetter = true) (h : (whole p).Occurs text m) :
    ∃ left right, text = left ++ (m.text ++ right) ∧ p.Spells m.text ∧
      m.span = ⟨left.length, left.length + m.text.length⟩ ∧
      ∀ c ∈ left.getLast?, isWordChar c = false := by
  obtain ⟨left, right, htext, hmatch⟩ := id h
  rw [List.append_nil] at hmatch
  obtain ⟨u, hu, rfl⟩ := matchAt_eq_some_iff.mp hmatch
  have hmem := List.mem_of_mem_head? hu
  obtain ⟨⟨s, ⟨_, _, rfl, ⟨r, _, hs, rfl, rfl⟩, rfl⟩, hpast⟩, _⟩ := reading_of_mem_runs hmem
  rw [List.append_nil, List.nil_append] at hpast
  have hmtext : Match.text ⟨⟨left.reverse, right⟩, u.cursor, u.pieces⟩ = r := hpast.upTo_eq
  have hright : right = r ++ u.cursor.after := hpast.after
  rw [hmtext]
  refine ⟨left, u.cursor.after, by rw [htext, hright], hs, ?_, ?_⟩
  · unfold Match.span Match.length Cursor.position
    rw [hpast.length_eq, List.length_reverse]
  · intro c hc
    obtain ⟨v, hv, _⟩ := List.mem_flatMap.mp hmem
    obtain ⟨d, hd, hword⟩ := head?_of_spells hp hs
    have hedge : Cursor.isEdge ⟨left.reverse, right⟩ = true := by
      rw [runs] at hv
      split at hv
      · next hedge => exact hedge
      · cases hv
    unfold Cursor.isEdge at hedge
    rw [hright, List.head?_append, Option.mem_def.mp hd, List.head?_reverse,
      Option.mem_def.mp hc] at hedge
    simpa [hword] using hedge

/-- Neither word begins with the other. -/
def Apart (v w : String) : Prop :=
  ¬ v.toList <+: w.toList ∧ ¬ w.toList <+: v.toList

instance (v w : String) : Decidable (Apart v w) :=
  inferInstanceAs (Decidable (_ ∧ _))

variable {ws ws' : List String}

/-- A word of the one and a word of the other cannot be read at the same place. -/
theorem not_both_read (hws : ∀ w ∈ ws, ∀ c ∈ w.toList, c.isLower = true)
    (hws' : ∀ w ∈ ws', ∀ c ∈ w.toList, c.isLower = true)
    (hapart : ∀ w ∈ ws, ∀ w' ∈ ws', Apart w w') {rest : List Char}
    (h : ∃ w ∈ ws, ∃ s, (lit w).Spells s ∧ s <+: rest)
    (h' : ∃ w ∈ ws', ∃ s, (lit w).Spells s ∧ s <+: rest) : False := by
  obtain ⟨w, hw, s, hs, hprefix⟩ := h
  obtain ⟨w', hw', s', hs', hprefix'⟩ := h'
  have hletters := (spells_lit_iff_map (hws w hw)).mp hs
  have hletters' := (spells_lit_iff_map (hws' w' hw')).mp hs'
  have hinj : Function.Injective (some : Char → Option Char) := fun _ _ => Option.some.inj
  rcases List.prefix_or_prefix_of_prefix hprefix hprefix' with hss | hss
  · have := hss.map latinLetter?
    rw [hletters, hletters'] at this
    exact (hapart w hw w' hw').1 ((List.prefix_map_iff_of_injective hinj).mp this)
  · have := hss.map latinLetter?
    rw [hletters, hletters'] at this
    exact (hapart w hw w' hw').2 ((List.prefix_map_iff_of_injective hinj).mp this)

/-- A pattern between two edges that begins with a letter and has no other words than these. -/
def IsWorded (ws : List String) (p : Pattern) : Prop :=
  ∃ q, p = whole q ∧ q.beginsWithLetter = true ∧ HasWords ws q

/-- The second phrase does not begin within the match of the first. -/
theorem stop_le_start_of_apart (hws : ∀ w ∈ ws, ∀ c ∈ w.toList, c.isLower = true)
    (hws' : ∀ w ∈ ws', ∀ c ∈ w.toList, c.isLower = true)
    (hapart : ∀ w ∈ ws, ∀ w' ∈ ws', Apart w w') (hp : IsWorded ws p) (hq : IsWorded ws' q)
    (hm : p.Occurs text m) (hm' : q.Occurs text m') (hle : m.span.start ≤ m'.span.start) :
    m.span.stop ≤ m'.span.start := by
  obtain ⟨p, rfl, hletter, hwords⟩ := hp
  obtain ⟨q, rfl, hletter', hwords'⟩ := hq
  obtain ⟨left, right, htext, hs, hspan, hbefore⟩ := hm.exists_wordStart hletter
  obtain ⟨left', right', htext', hs', hspan', hbefore'⟩ := hm'.exists_wordStart hletter'
  rw [hspan, hspan'] at hle ⊢
  refine Nat.le_of_not_lt fun (hlt : left'.length < left.length + m.text.length) => ?_
  generalize m.text = s at *
  generalize m'.text = s' at *
  -- The later match begins between `a` and `b`, two parts of the earlier one.
  obtain ⟨a, rfl⟩ : left <+: left' := List.prefix_of_prefix_length_le
    (htext ▸ List.prefix_append _ _) (htext' ▸ List.prefix_append _ _) hle
  rw [htext, List.append_assoc, List.append_cancel_left_eq] at htext'
  rw [List.length_append] at hlt
  obtain ⟨b, rfl⟩ : a <+: s := List.prefix_of_prefix_length_le
    (htext' ▸ List.prefix_append _ _) (List.prefix_append _ right) (by omega)
  rw [List.append_assoc, List.append_cancel_left_eq] at htext'
  obtain ⟨c, hc, hword⟩ := head?_of_spells hletter' hs'
  have hb : c ∈ b.head? := by
    have hne : b ≠ [] := by
      rintro rfl
      rw [List.append_nil] at hlt
      exact Nat.lt_irrefl _ hlt
    obtain ⟨d, b, rfl⟩ := List.exists_cons_of_ne_nil hne
    obtain ⟨t, rfl⟩ := List.head?_eq_some_iff.mp hc
    exact congrArg some (List.cons.inj htext').1
  have ha : ∀ d ∈ a.getLast?, isWordChar d = false := by
    intro d hd
    refine hbefore' d ?_
    rw [List.getLast?_append, Option.mem_def.mp hd]
    rfl
  obtain ⟨w, hw, x, hx, hprefix⟩ := hwords a b hs ha ⟨c, hb, hword⟩
  obtain ⟨w', hw', x', hx', hprefix'⟩ := hwords' [] s' hs' nofun ⟨c, hc, hword⟩
  exact not_both_read hws hws' hapart
    ⟨w, hw, x, hx, hprefix.trans (List.prefix_append b right)⟩
    ⟨w', hw', x', hx', htext' ▸ hprefix'.trans (List.prefix_append s' right')⟩

theorem Apart.symm {v w : String} (h : Apart v w) : Apart w v :=
  ⟨h.2, h.1⟩

/-- Phrases none of whose words begin with each other have no overlapping matches. -/
theorem overlaps_eq_false (hws : ∀ w ∈ ws, ∀ c ∈ w.toList, c.isLower = true)
    (hws' : ∀ w ∈ ws', ∀ c ∈ w.toList, c.isLower = true)
    (hapart : ∀ w ∈ ws, ∀ w' ∈ ws', Apart w w') (hp : IsWorded ws p) (hq : IsWorded ws' q)
    (hm : p.Occurs text m) (hm' : q.Occurs text m') : m.span.overlaps m'.span = false := by
  rw [Span.overlaps, Bool.and_eq_false_iff, decide_eq_false_iff_not, decide_eq_false_iff_not,
    Nat.not_lt, Nat.not_lt]
  rcases Nat.le_total m.span.start m'.span.start with hle | hle
  · exact Or.inr (stop_le_start_of_apart hws hws' hapart hp hq hm hm' hle)
  · exact Or.inl (stop_le_start_of_apart hws' hws (fun w hw w' hw' => (hapart w' hw' w hw).symm)
      hq hp hm' hm hle)

end Pattern

end Cardfolio
