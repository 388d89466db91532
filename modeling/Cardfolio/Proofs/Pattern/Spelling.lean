import Cardfolio.Pattern.Phrase

/-!
# What a pattern spells

`Pattern.runs` lists ways of reading a pattern at a place of a text. Much of what
one wants to know about a match does not depend on the place or on the order of
preference: only on the characters between its beginning and its end. `Spells` is
this part of the meaning, by recursion on the pattern. Edges, both ends of the text
and looking around spell nothing; they only rule readings out.

`reading_of_mem_runs` is the one fact about readings here: each leads past a
stretch of the text that the pattern spells. It says the same of the named pieces,
because these have been read by the patterns inside. What holds of all spellings of
a pattern therefore holds of its matches, and is proved by taking the pattern
apart, without a text.
-/

namespace Cardfolio

/-- The second place is reached from the first by going past `s`. -/
structure Cursor.Past (c : Cursor) (s : List Char) (d : Cursor) : Prop where
  before : d.before = s.reverse ++ c.before
  after : c.after = s ++ d.after

namespace Cursor.Past

variable {c d e : Cursor} {s r : List Char}

theorem refl (c : Cursor) : c.Past [] c :=
  ⟨rfl, rfl⟩

theorem trans (h : c.Past s d) (h' : d.Past r e) : c.Past (s ++ r) e := by
  constructor
  · rw [h'.before, h.before, List.reverse_append, List.append_assoc]
  · rw [h.after, h'.after, List.append_assoc]

theorem upTo_eq (h : c.Past s d) : c.upTo d = s := by
  unfold Cursor.upTo
  rw [h.after, List.length_append, Nat.add_sub_cancel, List.take_left]

theorem length_eq (h : c.Past s d) : c.after.length - d.after.length = s.length := by
  rw [h.after, List.length_append, Nat.add_sub_cancel]

end Cursor.Past

namespace Pattern

theorem mem_runEnds {k : CharClass} {before after : List Char} {found : List Cursor}
    {d : Cursor} (h : d ∈ runEnds k before found after) :
    d ∈ found ∨ ∃ s, s ≠ [] ∧ (∀ c ∈ s, k.accepts c = true) ∧
      Cursor.Past ⟨before, after⟩ s d := by
  induction after generalizing before found with
  | nil => exact Or.inl h
  | cons c after ih =>
      rw [runEnds] at h
      split at h
      · next hc =>
          rcases ih h with hfound | ⟨s, _, hs, hpast⟩
          · rcases List.mem_cons.mp hfound with rfl | hfound
            · exact Or.inr ⟨[c], List.cons_ne_nil _ _, by simpa using hc, rfl, rfl⟩
            · exact Or.inl hfound
          · refine Or.inr ⟨c :: s, List.cons_ne_nil _ _, List.forall_mem_cons.mpr ⟨hc, hs⟩, ?_⟩
            refine ⟨by rw [hpast.before]; simp, ?_⟩
            have hafter : after = s ++ d.after := hpast.after
            rw [hafter]
            rfl
      · exact Or.inl h

/-- The texts that a pattern spells, wherever they stand. -/
def Spells : Pattern → List Char → Prop
  | here, s => s = []
  | one k, s => ∃ c, k.accepts c = true ∧ s = [c]
  | run k, s => s ≠ [] ∧ ∀ c ∈ s, k.accepts c = true
  | seq p q, s => ∃ a b, p.Spells a ∧ q.Spells b ∧ s = a ++ b
  | alt p q, s => p.Spells s ∨ q.Spells s
  | edge, s => s = []
  | atStart, s => s = []
  | atEnd, s => s = []
  | notAhead _, s => s = []
  | notBehind _, s => s = []
  | piece _ p, s => p.Spells s

/-- Whether a pattern may spell the empty text. -/
def mayBeEmpty : Pattern → Bool
  | one _ | run _ => false
  | seq p q => p.mayBeEmpty && q.mayBeEmpty
  | alt p q => p.mayBeEmpty || q.mayBeEmpty
  | piece _ p => p.mayBeEmpty
  | here | edge | atStart | atEnd | notAhead _ | notBehind _ => true

theorem ne_nil_of_spells {p : Pattern} (hp : p.mayBeEmpty = false) {s : List Char}
    (h : p.Spells s) : s ≠ [] := by
  induction p generalizing s with
  | one k =>
      obtain ⟨c, _, rfl⟩ := h
      exact List.cons_ne_nil _ _
  | run k => exact h.1
  | seq p q ihp ihq =>
      obtain ⟨a, b, ha, hb, rfl⟩ := h
      rw [mayBeEmpty, Bool.and_eq_false_iff] at hp
      rcases hp with hp | hq
      · exact List.append_ne_nil_of_left_ne_nil (ihp hp ha) b
      · exact List.append_ne_nil_of_right_ne_nil a (ihq hq hb)
  | alt p q ihp ihq =>
      rw [mayBeEmpty, Bool.or_eq_false_iff] at hp
      exact h.elim (ihp hp.1) (ihq hp.2)
  | piece name p ih => exact ih hp h
  | here | edge | atStart | atEnd | notAhead | notBehind => cases hp

/-- The named pieces of a pattern, each with the pattern that reads it. -/
def parts : Pattern → List (String × Pattern)
  | seq p q => p.parts ++ q.parts
  | alt p q => p.parts ++ q.parts
  | piece name p => (name, p) :: p.parts
  | _ => []

/-- The names of pieces that every way of reading a pattern has. -/
def sureNames : Pattern → List String
  | seq p q => p.sureNames ++ q.sureNames
  | piece name p => name :: p.sureNames
  | _ => []

/-- A named piece between two places has been read by a part of the pattern of this
name. -/
def IsPiece (p : Pattern) (start stop : Cursor) (x : String × Cursor × Cursor) : Prop :=
  ∃ q a s b, (x.1, q) ∈ p.parts ∧ q.Spells s ∧
    start.Past a x.2.1 ∧ x.2.1.Past s x.2.2 ∧ x.2.2.Past b stop

theorem IsPiece.mono {p q : Pattern} {c c' d d' : Cursor} {x : String × Cursor × Cursor}
    {a b : List Char} (h : p.IsPiece c d x) (hparts : p.parts ⊆ q.parts)
    (hstart : c'.Past a c) (hstop : d.Past b d') : q.IsPiece c' d' x := by
  obtain ⟨r, a', s, b', hr, hs, hbefore, hpast, hafter⟩ := h
  exact ⟨r, _, s, _, hparts hr, hs, hstart.trans hbefore, hpast, hafter.trans hstop⟩

/-- What one way of reading a pattern has done: it has gone past a text that the pattern
spells, and read its pieces on the way. -/
structure Reading (p : Pattern) (t u : Thread) : Prop where
  past : ∃ s, p.Spells s ∧ t.cursor.Past s u.cursor
  pieces : ∃ read, u.pieces = read ++ t.pieces ∧
    (∀ x ∈ read, p.IsPiece t.cursor u.cursor x) ∧ ∀ name ∈ p.sureNames, name ∈ read.map (·.1)

namespace Reading

variable {p q : Pattern} {t u v : Thread}

theorem of_past {s : List Char} {d : Cursor} (hs : p.Spells s) (hd : t.cursor.Past s d)
    (hsure : p.sureNames = []) : p.Reading t { t with cursor := d } :=
  ⟨⟨s, hs, hd⟩, [], rfl, fun _ hx => (List.not_mem_nil hx).elim, by simp [hsure]⟩

theorem of_eq (hs : p.Spells []) (hsure : p.sureNames = []) (h : u = t) : p.Reading t u :=
  h ▸ of_past hs (Cursor.Past.refl _) hsure

theorem seq (h : p.Reading t u) (h' : q.Reading u v) : (Pattern.seq p q).Reading t v := by
  obtain ⟨⟨s, hs, hpast⟩, read, hread, hpieces, hsure⟩ := h
  obtain ⟨⟨r, hr, hpast'⟩, read', hread', hpieces', hsure'⟩ := h'
  refine ⟨⟨s ++ r, ⟨s, r, hs, hr, rfl⟩, hpast.trans hpast'⟩, read' ++ read, ?_, ?_, ?_⟩
  · rw [hread', hread, List.append_assoc]
  · intro x hx
    rcases List.mem_append.mp hx with hx | hx
    · exact (hpieces' x hx).mono (List.subset_append_right _ _) hpast (Cursor.Past.refl _)
    · exact (hpieces x hx).mono (List.subset_append_left _ _) (Cursor.Past.refl _) hpast'
  · intro name hname
    rw [List.map_append, List.mem_append]
    exact (List.mem_append.mp hname).elim (fun h => Or.inr (hsure _ h))
      fun h => Or.inl (hsure' _ h)

theorem alt_left (h : p.Reading t u) : (Pattern.alt p q).Reading t u := by
  obtain ⟨⟨s, hs, hpast⟩, read, hread, hpieces, _⟩ := h
  refine ⟨⟨s, Or.inl hs, hpast⟩, read, hread, fun x hx => ?_, fun _ h => (List.not_mem_nil h).elim⟩
  exact (hpieces x hx).mono (List.subset_append_left _ _) (Cursor.Past.refl _)
    (Cursor.Past.refl _)

theorem alt_right (h : q.Reading t u) : (Pattern.alt p q).Reading t u := by
  obtain ⟨⟨s, hs, hpast⟩, read, hread, hpieces, _⟩ := h
  refine ⟨⟨s, Or.inr hs, hpast⟩, read, hread, fun x hx => ?_, fun _ h => (List.not_mem_nil h).elim⟩
  exact (hpieces x hx).mono (List.subset_append_right _ _) (Cursor.Past.refl _)
    (Cursor.Past.refl _)

theorem piece (name : String) (h : p.Reading t u) :
    (Pattern.piece name p).Reading t
      { u with pieces := (name, t.cursor, u.cursor) :: u.pieces } := by
  obtain ⟨⟨s, hs, hpast⟩, read, hread, hpieces, hsure⟩ := h
  refine ⟨⟨s, hs, hpast⟩, (name, t.cursor, u.cursor) :: read, ?_, ?_, ?_⟩
  · rw [hread, List.cons_append]
  · intro x hx
    rcases List.mem_cons.mp hx with rfl | hx
    · exact ⟨p, [], s, [], List.mem_cons_self, hs, Cursor.Past.refl _, hpast,
        Cursor.Past.refl _⟩
    · exact (hpieces x hx).mono (List.subset_cons_self _ _) (Cursor.Past.refl _)
        (Cursor.Past.refl _)
  · intro other hother
    rcases List.mem_cons.mp hother with rfl | hother
    · exact List.mem_cons_self
    · exact List.mem_cons_of_mem _ (hsure _ hother)

end Reading

theorem reading_of_mem_runs {p : Pattern} {t u : Thread} (h : u ∈ p.runs t) :
    p.Reading t u := by
  induction p generalizing t u with
  | here => exact Reading.of_eq rfl rfl (List.mem_singleton.mp h)
  | one k =>
      rw [runs] at h
      split at h
      · cases h
      · next c after hafter =>
          split at h
          · next hc =>
              rw [List.mem_singleton.mp h]
              exact Reading.of_past ⟨c, hc, rfl⟩ ⟨rfl, hafter⟩ rfl
          · cases h
  | run k =>
      rw [runs] at h
      obtain ⟨d, hd, rfl⟩ := List.mem_map.mp h
      rcases mem_runEnds hd with hd | ⟨s, hne, hs, hpast⟩
      · cases hd
      · exact Reading.of_past ⟨hne, hs⟩ hpast rfl
  | seq p q ihp ihq =>
      rw [runs] at h
      obtain ⟨v, hv, hu⟩ := List.mem_flatMap.mp h
      exact (ihp hv).seq (ihq hu)
  | alt p q ihp ihq =>
      rw [runs] at h
      rcases List.mem_append.mp h with h | h
      · exact (ihp h).alt_left
      · exact (ihq h).alt_right
  | edge | atStart | atEnd | notAhead =>
      rw [runs] at h
      split at h
      · exact Reading.of_eq rfl rfl (List.mem_singleton.mp h)
      · cases h
  | notBehind ks =>
      rw [runs] at h
      split at h
      · cases h
      · exact Reading.of_eq rfl rfl (List.mem_singleton.mp h)
  | piece name p ih =>
      rw [runs] at h
      obtain ⟨v, hv, rfl⟩ := List.mem_map.mp h
      exact (ih hv).piece name

/-- Whether a pattern can be read from the beginning of a text to its end. -/
def fills (p : Pattern) (text : List Char) : Bool :=
  (p.runs ⟨.start text, []⟩).any fun u => u.cursor.after.isEmpty

theorem spells_of_fills {p : Pattern} {text : List Char} (h : p.fills text = true) :
    p.Spells text := by
  obtain ⟨u, hu, hend⟩ := List.any_eq_true.mp h
  obtain ⟨s, hs, hpast⟩ := (reading_of_mem_runs hu).past
  have htext : text = s ++ u.cursor.after := hpast.after
  rw [List.isEmpty_iff.mp hend, List.append_nil] at htext
  exact htext ▸ hs

end Pattern

end Cardfolio
