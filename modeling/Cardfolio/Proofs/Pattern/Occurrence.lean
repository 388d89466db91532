import Cardfolio.Proofs.Pattern.Spelling

/-!
# Where a pattern occurs

A search carries the text on its left along, turned round, and a match knows its two
places as cursors. `Occurs` forgets how the match was found: the match is the
preferred reading at some place of the text. All searches agree on that, and what
one needs later follows from it alone: a match cuts the text in three, the middle is
what the pattern spells, its span is where the middle stands, and a named piece is a
part of the middle, spelled by the part of the pattern of that name.

The other direction says where a search ends. It takes the first place at which the
pattern can be read, so it is enough to know that it cannot be read at any place
before. A search for all matches finds one exactly when the pattern occurs, and goes on
behind each, so that they follow one another.
-/

namespace Cardfolio.Pattern

variable {p : Pattern} {text : List Char} {m : Match}

theorem matchAt_eq_some_iff {c : Cursor} :
    p.matchAt c = some m ↔
      ∃ u, (p.runs ⟨c, []⟩).head? = some u ∧ m = ⟨c, u.cursor, u.pieces⟩ := by
  unfold matchAt
  rw [Option.map_eq_some_iff]
  exact exists_congr fun u => and_congr_right fun _ => eq_comm

theorem matchAt_eq_none_iff {c : Cursor} : p.matchAt c = none ↔ p.runs ⟨c, []⟩ = [] := by
  unfold matchAt
  rw [Option.map_eq_none_iff, List.head?_eq_none_iff]

/-- A match is the preferred reading at some place of `after`, the text that follows
`before`. -/
def OccursFrom (p : Pattern) (before after : List Char) (m : Match) : Prop :=
  ∃ s rest, after = s ++ rest ∧ p.matchAt ⟨s.reverse ++ before, rest⟩ = some m

theorem OccursFrom.here {before after : List Char} (h : p.matchAt ⟨before, after⟩ = some m) :
    p.OccursFrom before after m :=
  ⟨[], after, rfl, h⟩

theorem OccursFrom.later {c : Char} {before after : List Char}
    (h : p.OccursFrom (c :: before) after m) : p.OccursFrom before (c :: after) m := by
  obtain ⟨s, rest, rfl, hmatch⟩ := h
  refine ⟨c :: s, rest, rfl, ?_⟩
  rw [List.reverse_cons, List.append_assoc]
  exact hmatch

/-- A match is the preferred reading at some place of a text. -/
def Occurs (p : Pattern) (text : List Char) (m : Match) : Prop :=
  p.OccursFrom [] text m

/-- A match cuts a text in three, and the pattern spells the middle. -/
theorem Occurs.exists_parts (h : p.Occurs text m) :
    ∃ left right, text = left ++ m.text ++ right ∧ p.Spells m.text ∧
      m.span = ⟨left.length, left.length + m.text.length⟩ := by
  obtain ⟨left, right, rfl, hmatch⟩ := h
  rw [List.append_nil] at hmatch
  obtain ⟨u, hu, rfl⟩ := matchAt_eq_some_iff.mp hmatch
  obtain ⟨⟨s, hs, hpast⟩, _⟩ := reading_of_mem_runs (List.mem_of_mem_head? hu)
  have htext : Match.text ⟨⟨left.reverse, right⟩, u.cursor, u.pieces⟩ = s := hpast.upTo_eq
  have hright : right = s ++ u.cursor.after := hpast.after
  refine ⟨left, u.cursor.after, ?_, ?_, ?_⟩
  · rw [htext, List.append_assoc, ← hright]
  · rw [htext]
    exact hs
  · rw [htext]
    unfold Match.span Match.length Cursor.position
    rw [hpast.length_eq, List.length_reverse]

theorem Occurs.spells (h : p.Occurs text m) : p.Spells m.text := by
  obtain ⟨_, _, _, hs, _⟩ := h.exists_parts
  exact hs

theorem Occurs.isInfix_text (h : p.Occurs text m) : m.text <:+: text := by
  obtain ⟨left, right, rfl, _⟩ := h.exists_parts
  exact ⟨left, right, rfl⟩

theorem Occurs.stop_eq (h : p.Occurs text m) :
    m.span.stop = m.span.start + m.text.length := by
  obtain ⟨_, _, _, _, hspan⟩ := h.exists_parts
  rw [hspan]

theorem Occurs.stop_le (h : p.Occurs text m) : m.span.stop ≤ text.length := by
  obtain ⟨left, right, rfl, _, hspan⟩ := h.exists_parts
  rw [hspan]
  simp only [List.length_append]
  omega

/-- A pattern that may not follow characters of a class does not. -/
theorem Occurs.not_accepts_before {k : CharClass} (h : (seq (notBehind [k]) p).Occurs text m) :
    ∀ c ∈ (text.take m.span.start).getLast?, k.accepts c = false := by
  obtain ⟨left, right, rfl, hmatch⟩ := h
  rw [List.append_nil] at hmatch
  obtain ⟨u, hu, rfl⟩ := matchAt_eq_some_iff.mp hmatch
  obtain ⟨v, hv, _⟩ := List.mem_flatMap.mp (List.mem_of_mem_head? hu)
  intro c hc
  unfold Match.span Cursor.position at hc
  rw [List.length_reverse, List.take_left, List.getLast?_eq_head?_reverse] at hc
  obtain ⟨front, hfront⟩ := List.head?_eq_some_iff.mp hc
  rw [runs, hfront] at hv
  split at hv
  · cases hv
  · next hfollows => simpa [follows] using hfollows

/-- A piece that every reading has is spelled by a part of the pattern of its name, and
lies within the match. -/
theorem Occurs.exists_part (h : p.Occurs text m) {name : String} (hname : name ∈ p.sureNames) :
    ∃ q, (name, q) ∈ p.parts ∧ q.Spells (m.pieceText name) ∧ m.pieceText name <:+: m.text := by
  obtain ⟨left, right, rfl, hmatch⟩ := h
  rw [List.append_nil] at hmatch
  obtain ⟨u, hu, rfl⟩ := matchAt_eq_some_iff.mp hmatch
  obtain ⟨⟨s, _, hpast⟩, read, hread, hpieces, hsure⟩ :=
    reading_of_mem_runs (List.mem_of_mem_head? hu)
  rw [List.append_nil] at hread
  unfold Match.pieceText
  cases hlookup : u.pieces.lookup name with
  | none =>
      obtain ⟨x, hx, hxname⟩ := List.mem_map.mp (hsure name hname)
      rw [List.lookup_eq_none_iff, hread] at hlookup
      have := hlookup x hx
      rw [hxname, bne_self_eq_false] at this
      cases this
  | some x =>
      obtain ⟨before, after, hpiecesEq, _⟩ := List.lookup_eq_some_iff.mp hlookup
      have hx : (name, x) ∈ read := by
        rw [← hread, hpiecesEq]
        exact List.mem_append_right _ List.mem_cons_self
      obtain ⟨q, a, r, b, hq, hr, hstart, hpiece, hstop⟩ := hpieces _ hx
      refine ⟨q, hq, ?_, ?_⟩
      · show q.Spells (x.1.upTo x.2)
        rw [hpiece.upTo_eq]
        exact hr
      · show x.1.upTo x.2 <:+: Match.text ⟨⟨left.reverse, right⟩, u.cursor, u.pieces⟩
        have hwhole := (hstart.trans hpiece).trans hstop
        rw [show Match.text ⟨⟨left.reverse, right⟩, u.cursor, u.pieces⟩ = a ++ r ++ b from
          hwhole.upTo_eq, hpiece.upTo_eq]
        exact ⟨a, b, rfl⟩

/-- The text of the piece that was read last. -/
theorem pieceText_cons {start stop c d : Cursor} {name : String} {s : List Char}
    {pieces : List (String × Cursor × Cursor)} (h : c.Past s d) :
    Match.pieceText ⟨start, stop, (name, c, d) :: pieces⟩ name = s := by
  simp only [Match.pieceText, List.lookup_cons_self]
  exact h.upTo_eq

theorem occursFrom_of_findFrom {before after : List Char}
    (h : p.findFrom before after = some m) : p.OccursFrom before after m := by
  induction after generalizing before with
  | nil => exact OccursFrom.here h
  | cons c after ih =>
      rw [findFrom] at h
      split at h
      · next hmatch => exact OccursFrom.here (hmatch.trans h)
      · exact (ih h).later

theorem occurs_of_find? (h : p.find? text = some m) : p.Occurs text m :=
  occursFrom_of_findFrom h

theorem occursFrom_of_mem_findAllFrom {skip : Nat} {before after : List Char}
    (h : m ∈ p.findAllFrom skip before after) : p.OccursFrom before after m := by
  induction after generalizing skip before with
  | nil =>
      rw [findAllFrom] at h
      cases h
  | cons c after ih =>
      cases skip with
      | succ skip =>
          rw [findAllFrom] at h
          exact (ih h).later
      | zero =>
          rw [findAllFrom] at h
          split at h
          · next hmatch =>
              rcases List.mem_cons.mp h with rfl | h
              · exact OccursFrom.here hmatch
              · exact (ih h).later
          · exact (ih h).later

theorem occurs_of_mem_findAll (h : m ∈ p.findAll text) : p.Occurs text m :=
  occursFrom_of_mem_findAllFrom h

/-! ## The first place -/

/-- What goes on behind each character at which a pattern cannot be read goes on behind `s` when
the pattern cannot be read at any place of it. -/
theorem eq_of_skips {β : Type _} {search : List Char → List Char → β}
    (hskip : ∀ {before c rest}, p.matchAt ⟨before, c :: rest⟩ = none →
      search before (c :: rest) = search (c :: before) rest)
    {before s rest : List Char}
    (h : ∀ a c b, s = a ++ c :: b → p.matchAt ⟨a.reverse ++ before, c :: b ++ rest⟩ = none) :
    search before (s ++ rest) = search (s.reverse ++ before) rest := by
  induction s generalizing before with
  | nil => rfl
  | cons c s ih =>
      have hhere : p.matchAt ⟨before, c :: (s ++ rest)⟩ = none := h [] c s rfl
      rw [List.cons_append, hskip hhere, ih, List.reverse_cons, List.append_assoc]
      · rfl
      · rintro a d b rfl
        have := h (c :: a) d b rfl
        rw [List.reverse_cons, List.append_assoc] at this
        exact this

theorem findFrom_append {before s rest : List Char}
    (h : ∀ a c b, s = a ++ c :: b → p.matchAt ⟨a.reverse ++ before, c :: b ++ rest⟩ = none) :
    p.findFrom before (s ++ rest) = p.findFrom (s.reverse ++ before) rest :=
  eq_of_skips (fun hnone => by rw [findFrom, hnone]) h

theorem findFrom_of_matchAt {before rest : List Char} (h : p.matchAt ⟨before, rest⟩ = some m) :
    p.findFrom before rest = some m := by
  cases rest with
  | nil => exact h
  | cons c rest =>
      rw [findFrom, h]

theorem find?_eq_some {s rest : List Char}
    (hskip : ∀ a c b, s = a ++ c :: b → p.matchAt ⟨a.reverse, c :: b ++ rest⟩ = none)
    (hm : p.matchAt ⟨s.reverse, rest⟩ = some m) : p.find? (s ++ rest) = some m := by
  unfold find?
  rw [findFrom_append fun a c b h => by rw [List.append_nil]; exact hskip a c b h,
    List.append_nil]
  exact findFrom_of_matchAt hm

theorem findAllFrom_append {before s rest : List Char}
    (h : ∀ a c b, s = a ++ c :: b → p.matchAt ⟨a.reverse ++ before, c :: b ++ rest⟩ = none) :
    p.findAllFrom 0 before (s ++ rest) = p.findAllFrom 0 (s.reverse ++ before) rest :=
  eq_of_skips (fun hnone => by rw [findAllFrom, hnone]) h

theorem exists_findAll_eq_cons {s rest : List Char} {c : Char}
    (hskip : ∀ a d b, s = a ++ d :: b → p.matchAt ⟨a.reverse, d :: b ++ (c :: rest)⟩ = none)
    (hm : p.matchAt ⟨s.reverse, c :: rest⟩ = some m) :
    ∃ ms, p.findAll (s ++ c :: rest) = m :: ms := by
  unfold findAll
  rw [findAllFrom_append fun a d b h => by rw [List.append_nil]; exact hskip a d b h,
    List.append_nil, findAllFrom, hm]
  exact ⟨_, rfl⟩

/-! ## All matches -/

/-- A match of a whole text is the only one. -/
theorem findAll_eq_singleton {text : List Char} (h : p.matchAt (.start text) = some m)
    (hne : text ≠ []) (hlength : m.length = text.length) : p.findAll text = [m] := by
  obtain ⟨c, after, rfl⟩ := List.exists_cons_of_ne_nil hne
  have hskip : ∀ cs before : List Char, p.findAllFrom cs.length before cs = [] := by
    intro cs
    induction cs with
    | nil => exact fun _ => rfl
    | cons d cs ih => exact fun before => ih (d :: before)
  have hmatch : p.matchAt ⟨[], c :: after⟩ = some m := h
  rw [findAll, findAllFrom, hmatch]
  show m :: p.findAllFrom (m.length - 1) [c] after = [m]
  rw [hlength, List.length_cons, Nat.add_sub_cancel, hskip]

theorem not_matchAt_end (hp : p.mayBeEmpty = false) (before : List Char) :
    p.matchAt ⟨before, []⟩ = none := by
  rw [Option.eq_none_iff_forall_ne_some]
  intro m hm
  obtain ⟨u, hu, rfl⟩ := matchAt_eq_some_iff.mp hm
  obtain ⟨⟨s, hs, hpast⟩, _⟩ := reading_of_mem_runs (List.mem_of_mem_head? hu)
  have hnil : [] = s ++ u.cursor.after := hpast.after
  exact ne_nil_of_spells hp hs (List.append_eq_nil_iff.mp hnil.symm).1

theorem findAllFrom_eq_nil_iff (hp : p.mayBeEmpty = false) {before after : List Char} :
    p.findAllFrom 0 before after = [] ↔ p.findFrom before after = none := by
  induction after generalizing before with
  | nil =>
      rw [findAllFrom, findFrom]
      exact ⟨fun _ => not_matchAt_end hp before, fun _ => rfl⟩
  | cons c after ih =>
      rw [findAllFrom, findFrom]
      split
      · exact ⟨nofun, nofun⟩
      · exact ih

/-- A pattern occurs in a text when it has a match there. -/
theorem occursIn_iff (hp : p.mayBeEmpty = false) :
    p.occursIn text = true ↔ ∃ m, m ∈ p.findAll text := by
  rw [occursIn, Option.isSome_iff_ne_none, Ne, find?, ← findAllFrom_eq_nil_iff hp]
  exact ⟨List.exists_mem_of_ne_nil _, fun ⟨_, hm⟩ => List.ne_nil_of_mem hm⟩

theorem start_eq_of_matchAt {before after : List Char} (h : p.matchAt ⟨before, after⟩ = some m) :
    m.span = ⟨before.length, before.length + m.length⟩ := by
  obtain ⟨u, _, rfl⟩ := matchAt_eq_some_iff.mp h
  rfl

theorem le_start_of_mem_findAllFrom {skip : Nat} {before after : List Char}
    (h : m ∈ p.findAllFrom skip before after) : before.length + skip ≤ m.span.start := by
  induction after generalizing skip before with
  | nil =>
      rw [findAllFrom] at h
      cases h
  | cons c after ih =>
      cases skip with
      | succ skip =>
          rw [findAllFrom] at h
          have := ih h
          rw [List.length_cons] at this
          omega
      | zero =>
          rw [findAllFrom] at h
          split at h
          · next hmatch =>
              rcases List.mem_cons.mp h with rfl | h
              · rw [start_eq_of_matchAt hmatch]
                exact Nat.le_refl _
              · have := ih h
                rw [List.length_cons] at this
                omega
          · have := ih h
            rw [List.length_cons] at this
            omega

theorem findAllFrom_pairwise (skip : Nat) (before after : List Char) :
    (p.findAllFrom skip before after).Pairwise fun m m' => m.span.stop ≤ m'.span.start := by
  induction after generalizing skip before with
  | nil =>
      rw [findAllFrom]
      exact .nil
  | cons c after ih =>
      cases skip with
      | succ skip =>
          rw [findAllFrom]
          exact ih _ _
      | zero =>
          rw [findAllFrom]
          split
          · next m hmatch =>
              refine List.pairwise_cons.mpr ⟨fun m' hm' => ?_, ih _ _⟩
              have hle := le_start_of_mem_findAllFrom hm'
              rw [List.length_cons] at hle
              have hstop : m.span.stop = before.length + m.length :=
                congrArg Span.stop (start_eq_of_matchAt hmatch)
              omega
          · exact ih _ _

/-- Each match ends before the later ones begin. -/
theorem findAll_pairwise (p : Pattern) (text : List Char) :
    (p.findAll text).Pairwise fun m m' => m.span.stop ≤ m'.span.start :=
  findAllFrom_pairwise 0 [] text

end Cardfolio.Pattern
