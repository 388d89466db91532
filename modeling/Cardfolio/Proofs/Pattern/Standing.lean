import Cardfolio.Proofs.Pattern.Preferred

/-!
# Where a pattern stands

What a pattern spells says nothing about the text around it, so it knows no edges of words, no
ends of the text and nothing that is looked for ahead or behind. `Stands` has all of this: a
pattern stands between the text in front of a place, nearest first, and the text behind
another one. Only the order of preference and the named pieces are left out.

So nothing is lost as long as one asks whether, and not how, a pattern can be read
(`exists_mem_runs_iff`, by recursion on the pattern). A search finds a pattern exactly when it
stands somewhere in the text, and a text in which it stands nowhere keeps all it has.
-/

namespace Cardfolio.Pattern

variable {p q : Pattern} {before after text s : List Char} {m : Match}

/-- The pattern can be read behind `before`, which is given nearest first, up to `after`, and `s`
is what it goes past. -/
def Stands : Pattern → List Char → List Char → List Char → Prop
  | here, _, s, _ => s = []
  | one k, _, s, _ => ∃ c, k.accepts c = true ∧ s = [c]
  | run k, _, s, _ => s ≠ [] ∧ ∀ c ∈ s, k.accepts c = true
  | seq p q, before, s, after =>
    ∃ a b, s = a ++ b ∧ p.Stands before a (b ++ after) ∧ q.Stands (a.reverse ++ before) b after
  | alt p q, before, s, after => p.Stands before s after ∨ q.Stands before s after
  | edge, before, s, after => s = [] ∧ Cursor.isEdge ⟨before, after⟩ = true
  | atStart, before, s, _ => s = [] ∧ before = []
  | atEnd, before, s, after => s = [] ∧ Cursor.isEnd ⟨before, after⟩ = true
  | notAhead p, before, s, after => s = [] ∧ ∀ r rest, after = r ++ rest → ¬ p.Stands before r rest
  | notBehind ks, before, s, _ => s = [] ∧ follows ks.reverse before = false
  | piece _ p, before, s, after => p.Stands before s after

theorem Stands.spells (h : p.Stands before s after) : p.Spells s := by
  induction p generalizing before s after with
  | here => exact h
  | one | run => exact h
  | seq p q ihp ihq =>
      obtain ⟨a, b, rfl, hp, hq⟩ := h
      exact ⟨a, b, ihp hp, ihq hq, rfl⟩
  | alt p q ihp ihq => exact h.imp ihp ihq
  | edge | atStart | atEnd | notAhead | notBehind => exact h.1
  | piece _ p ih => exact ih h

theorem stands_sequence_cons {ps : List Pattern} :
    (sequence (p :: ps)).Stands before s after ↔ ∃ a b, s = a ++ b ∧
      p.Stands before a (b ++ after) ∧ (sequence ps).Stands (a.reverse ++ before) b after := by
  cases ps with
  | nil =>
      constructor
      · intro h
        exact ⟨s, [], (List.append_nil s).symm, h, rfl⟩
      · rintro ⟨a, _, rfl, h, rfl⟩
        rw [List.append_nil]
        exact h
  | cons q ps => exact Iff.rfl

theorem stands_sequence_append {ps qs : List Pattern} :
    (sequence (ps ++ qs)).Stands before s after ↔ ∃ a b, s = a ++ b ∧
      (sequence ps).Stands before a (b ++ after) ∧
        (sequence qs).Stands (a.reverse ++ before) b after := by
  induction ps generalizing before s with
  | nil =>
      constructor
      · exact fun h => ⟨[], s, rfl, rfl, h⟩
      · rintro ⟨_, b, rfl, rfl, h⟩
        exact h
  | cons p ps ih =>
      rw [List.cons_append, stands_sequence_cons]
      simp only [stands_sequence_cons, ih]
      constructor
      · rintro ⟨a, _, rfl, hp, b, c, rfl, hps, hqs⟩
        refine ⟨a ++ b, c, (List.append_assoc a b c).symm, ⟨a, b, rfl, ?_, hps⟩, ?_⟩
        · rwa [← List.append_assoc]
        · rwa [List.reverse_append, List.append_assoc]
      · rintro ⟨_, c, rfl, ⟨a, b, rfl, hp, hps⟩, hqs⟩
        refine ⟨a, b ++ c, List.append_assoc a b c, ?_, b, c, rfl, hps, ?_⟩
        · rwa [List.append_assoc]
        · rwa [List.reverse_append, List.append_assoc] at hqs

theorem runEnds_subset {k : CharClass} {found : List Cursor} :
    found ⊆ runEnds k before found after := by
  induction after generalizing before found with
  | nil => exact fun _ h => h
  | cons c after ih =>
      rw [runEnds]
      split
      · exact fun d hd => ih (List.mem_cons_of_mem _ hd)
      · exact fun _ h => h

/-- A run can end behind each of its characters. -/
theorem mem_runEnds_of_past {k : CharClass} {found : List Cursor} {d : Cursor} (hne : s ≠ [])
    (hs : ∀ c ∈ s, k.accepts c = true) (hpast : Cursor.Past ⟨before, after⟩ s d) :
    d ∈ runEnds k before found after := by
  obtain ⟨hbefore, hafter⟩ := hpast
  dsimp only at hbefore hafter
  induction s generalizing before after found with
  | nil => exact (hne rfl).elim
  | cons c s ih =>
      obtain ⟨hc, hs⟩ := List.forall_mem_cons.mp hs
      rw [hafter, List.cons_append, runEnds, if_pos hc]
      rw [List.reverse_cons, List.append_assoc, List.singleton_append] at hbefore
      cases s with
      | nil =>
          refine runEnds_subset ?_
          rw [List.nil_append, List.mem_cons]
          left
          cases d
          cases hbefore
          rfl
      | cons c' s => exact ih (List.cons_ne_nil c' s) hs hbefore rfl

theorem past_nil_iff {c d : Cursor} : c.Past [] d ↔ c = d := by
  constructor
  · rintro ⟨hbefore, hafter⟩
    cases c
    cases d
    simp only [List.reverse_nil, List.nil_append] at hbefore hafter
    rw [hbefore, hafter]
  · rintro rfl
    exact .refl c

/-- A condition on the place alone is read without going on. -/
theorem exists_mem_ite_iff {P : Prop} [Decidable P] {Q : List Char → List Char → Prop} {t : Thread}
    {d : Cursor} (hPQ : P ↔ Q t.cursor.before t.cursor.after) :
    (∃ u ∈ (if P then [t] else []), u.cursor = d) ↔
      ∃ s, t.cursor.Past s d ∧ s = [] ∧ Q t.cursor.before d.after := by
  constructor
  · rintro ⟨u, hu, rfl⟩
    split at hu
    · next h =>
        rw [List.mem_singleton.mp hu]
        exact ⟨[], .refl _, rfl, hPQ.mp h⟩
    · cases hu
  · rintro ⟨_, hpast, rfl, hQ⟩
    obtain rfl := past_nil_iff.mp hpast
    rw [if_pos (hPQ.mpr hQ)]
    exact ⟨t, List.mem_singleton_self t, rfl⟩

theorem exists_mem_runs_one_iff {k : CharClass} {t : Thread} {d : Cursor} :
    (∃ u ∈ (one k).runs t, u.cursor = d) ↔
      ∃ s, t.cursor.Past s d ∧ (one k).Stands t.cursor.before s d.after := by
  rw [runs]
  cases hafter : t.cursor.after with
  | nil =>
      constructor
      · rintro ⟨_, hu, _⟩
        cases hu
      · rintro ⟨_, hpast, c, _, rfl⟩
        rw [hpast.after] at hafter
        cases hafter
  | cons c after =>
      dsimp only
      constructor
      · rintro ⟨u, hu, rfl⟩
        split at hu
        · next hc =>
            rw [List.mem_singleton.mp hu]
            exact ⟨[c], ⟨rfl, hafter⟩, c, hc, rfl⟩
        · cases hu
      · rintro ⟨_, hpast, c', hc', rfl⟩
        have heq := hafter.symm.trans hpast.after
        rw [List.singleton_append] at heq
        obtain ⟨rfl, hrest⟩ := List.cons.inj heq
        rw [if_pos hc']
        refine ⟨_, List.mem_singleton_self _, ?_⟩
        cases d
        rw [hrest]
        exact congrArg (fun before => Cursor.mk before _) hpast.before.symm

theorem exists_mem_runs_run_iff {k : CharClass} {t : Thread} {d : Cursor} :
    (∃ u ∈ (run k).runs t, u.cursor = d) ↔
      ∃ s, t.cursor.Past s d ∧ (run k).Stands t.cursor.before s d.after := by
  rw [runs]
  constructor
  · rintro ⟨u, hu, rfl⟩
    obtain ⟨d, hd, rfl⟩ := List.mem_map.mp hu
    rcases mem_runEnds hd with hd | ⟨s, hne, hs, hpast⟩
    · cases hd
    · exact ⟨s, hpast, hne, hs⟩
  · rintro ⟨s, hpast, hne, hs⟩
    exact ⟨_, List.mem_map_of_mem (mem_runEnds_of_past hne hs hpast), rfl⟩

/-- A pattern can be read past just the stretches where it stands. -/
theorem exists_mem_runs_iff {t : Thread} {d : Cursor} : (∃ u ∈ p.runs t, u.cursor = d) ↔
    ∃ s, t.cursor.Past s d ∧ p.Stands t.cursor.before s d.after := by
  induction p generalizing t d with
  | here =>
      have h := exists_mem_ite_iff (P := True) (Q := fun _ _ => True) (t := t) (d := d) Iff.rfl
      rw [if_pos trivial] at h
      rw [runs, h]
      simp only [and_true, Stands]
  | one k => exact exists_mem_runs_one_iff
  | run k => exact exists_mem_runs_run_iff
  | seq p q ihp ihq =>
      rw [runs]
      constructor
      · rintro ⟨u, hu, rfl⟩
        obtain ⟨v, hv, hu⟩ := List.mem_flatMap.mp hu
        obtain ⟨a, ha, hp⟩ := ihp.mp ⟨v, hv, rfl⟩
        obtain ⟨b, hb, hq⟩ := ihq.mp ⟨u, hu, rfl⟩
        rw [hb.after] at hp
        rw [ha.before] at hq
        exact ⟨a ++ b, ha.trans hb, a, b, rfl, hp, hq⟩
      · rintro ⟨_, hpast, a, b, rfl, hp, hq⟩
        have ha : t.cursor.Past a ⟨a.reverse ++ t.cursor.before, b ++ d.after⟩ :=
          ⟨rfl, by rw [hpast.after, List.append_assoc]⟩
        obtain ⟨v, hv, hcursor⟩ := ihp.mpr ⟨a, ha, hp⟩
        have hb : v.cursor.Past b d := by
          rw [hcursor]
          exact ⟨by rw [hpast.before, List.reverse_append, List.append_assoc], rfl⟩
        obtain ⟨u, hu, hd⟩ := ihq.mpr ⟨b, hb, by rw [hcursor]; exact hq⟩
        exact ⟨u, List.mem_flatMap.mpr ⟨v, hv, hu⟩, hd⟩
  | alt p q ihp ihq =>
      rw [runs]
      simp only [List.mem_append, or_and_right, exists_or, ihp, ihq, Stands, and_or_left]
  | edge =>
      rw [runs]
      exact exists_mem_ite_iff
        (Q := fun before after => Cursor.isEdge ⟨before, after⟩ = true) Iff.rfl
  | atStart =>
      rw [runs]
      exact exists_mem_ite_iff (Q := fun before _ => before = []) List.isEmpty_iff
  | atEnd =>
      rw [runs]
      exact exists_mem_ite_iff
        (Q := fun before after => Cursor.isEnd ⟨before, after⟩ = true) Iff.rfl
  | notAhead p ih =>
      rw [runs]
      refine exists_mem_ite_iff
        (Q := fun before after => ∀ r rest, after = r ++ rest → ¬ p.Stands before r rest) ?_
      -- No way of reading it, to whatever place, is no stretch where it stands.
      rw [List.isEmpty_iff, List.eq_nil_iff_forall_not_mem]
      constructor
      · intro hnone r rest hafter hstands
        obtain ⟨u, hu, _⟩ := (ih (d := ⟨r.reverse ++ t.cursor.before, rest⟩)).mpr
          ⟨r, ⟨rfl, hafter⟩, hstands⟩
        exact hnone u hu
      · intro hnone u hu
        obtain ⟨r, hpast, hstands⟩ := ih.mp ⟨u, hu, rfl⟩
        exact hnone r _ hpast.after hstands
  | notBehind ks =>
      rw [runs, ← ite_not]
      exact exists_mem_ite_iff (Q := fun before _ => follows ks.reverse before = false)
        (by rw [Bool.not_eq_true])
  | piece name p ih =>
      rw [runs]
      constructor
      · rintro ⟨_, hu, rfl⟩
        obtain ⟨v, hv, rfl⟩ := List.mem_map.mp hu
        exact ih.mp ⟨v, hv, rfl⟩
      · intro h
        obtain ⟨v, hv, hd⟩ := ih.mpr h
        exact ⟨_, List.mem_map_of_mem hv, hd⟩

/-! ## Searches -/

theorem matchAt_eq_none_iff_stands : p.matchAt ⟨before, after⟩ = none ↔
    ∀ s rest, after = s ++ rest → ¬ p.Stands before s rest := by
  rw [matchAt_eq_none_iff, List.eq_nil_iff_forall_not_mem]
  constructor
  · intro hnone s rest hafter hstands
    obtain ⟨u, hu, _⟩ := (exists_mem_runs_iff (t := ⟨⟨before, after⟩, []⟩)
      (d := ⟨s.reverse ++ before, rest⟩)).mpr ⟨s, ⟨rfl, hafter⟩, hstands⟩
    exact hnone u hu
  · intro hnone u hu
    obtain ⟨s, hpast, hstands⟩ := exists_mem_runs_iff.mp ⟨u, hu, rfl⟩
    exact hnone s _ hpast.after hstands

theorem findFrom_eq_none_iff : p.findFrom before after = none ↔
    ∀ left rest, after = left ++ rest → p.matchAt ⟨left.reverse ++ before, rest⟩ = none := by
  induction after generalizing before with
  | nil =>
      constructor
      · intro h left rest hnil
        obtain ⟨rfl, rfl⟩ := List.append_eq_nil_iff.mp hnil.symm
        exact h
      · exact fun h => h [] [] rfl
  | cons c after ih =>
      rw [findFrom]
      cases hmatch : p.matchAt ⟨before, c :: after⟩ with
      | some m =>
          constructor
          · intro hnone
            cases hnone
          · intro h
            cases hmatch.symm.trans (h [] _ rfl)
      | none =>
          refine ih.trans ⟨fun h left rest hafter => ?_, fun h left rest hafter => ?_⟩
          · cases left with
            | nil =>
                rw [List.nil_append] at hafter
                rw [← hafter]
                exact hmatch
            | cons d left =>
                obtain ⟨rfl, hrest⟩ := List.cons.inj hafter
                rw [List.reverse_cons, List.append_assoc]
                exact h left rest hrest
          · have := h (c :: left) rest (by rw [hafter]; rfl)
            rw [List.reverse_cons, List.append_assoc] at this
            exact this

/-- The pattern stands somewhere in the text. -/
def StandsIn (p : Pattern) (text : List Char) : Prop :=
  ∃ left s right, text = left ++ (s ++ right) ∧ p.Stands left.reverse s right

theorem find?_eq_none_iff : p.find? text = none ↔ ¬ p.StandsIn text := by
  rw [find?, findFrom_eq_none_iff]
  constructor
  · rintro h ⟨left, s, right, htext, hstands⟩
    have hnone := h left (s ++ right) htext
    rw [List.append_nil, matchAt_eq_none_iff_stands] at hnone
    exact hnone s right rfl hstands
  · intro h left rest htext
    rw [List.append_nil, matchAt_eq_none_iff_stands]
    rintro s right rfl hstands
    exact h ⟨left, s, right, htext, hstands⟩

/-- A pattern is found in just the texts in which it stands somewhere. -/
theorem occursIn_iff_standsIn : p.occursIn text = true ↔ p.StandsIn text := by
  rw [occursIn, Option.isSome_iff_ne_none, Ne, find?_eq_none_iff, Classical.not_not]

theorem exists_stands_of_matchAt (h : p.matchAt ⟨before, after⟩ = some m) :
    ∃ s, after = s ++ m.stop.after ∧ m.length = s.length ∧ p.Stands before s m.stop.after := by
  obtain ⟨u, hu, rfl⟩ := matchAt_eq_some_iff.mp h
  obtain ⟨s, hpast, hstands⟩ := exists_mem_runs_iff.mp ⟨u, List.mem_of_mem_head? hu, rfl⟩
  exact ⟨s, hpast.after, hpast.length_eq, hstands⟩

/-- A match is where the pattern stands. -/
theorem Occurs.exists_stands_at (h : p.Occurs text m) : ∃ left s,
    text = left ++ (s ++ m.stop.after) ∧ p.Stands left.reverse s m.stop.after ∧
      m.span = ⟨left.length, left.length + s.length⟩ := by
  obtain ⟨left, right, rfl, hmatch⟩ := h
  rw [List.append_nil] at hmatch
  obtain ⟨s, hright, hlength, hstands⟩ := exists_stands_of_matchAt hmatch
  refine ⟨left, s, congrArg (left ++ ·) hright, hstands, ?_⟩
  rw [start_eq_of_matchAt hmatch, List.length_reverse, hlength]

theorem Occurs.exists_stands (h : p.Occurs text m) : ∃ left s,
    text = left ++ (s ++ m.stop.after) ∧ p.Stands left.reverse s m.stop.after := by
  obtain ⟨left, s, htext, hstands, _⟩ := h.exists_stands_at
  exact ⟨left, s, htext, hstands⟩

theorem Occurs.standsIn (h : p.Occurs text m) : p.StandsIn text := by
  obtain ⟨left, s, htext, hstands⟩ := h.exists_stands
  exact ⟨left, s, _, htext, hstands⟩

theorem findAll_eq_nil (h : ¬ p.StandsIn text) : p.findAll text = [] := by
  rw [List.eq_nil_iff_forall_not_mem]
  exact fun m hm => h (occurs_of_mem_findAll hm).standsIn

/-- Where a pattern stands nowhere, nothing is taken away. -/
theorem remove_eq_self (h : ¬ p.StandsIn text) : p.remove text = text := by
  rw [← find?_eq_none_iff] at h
  unfold remove
  unfold find? at h
  generalize ([] : List Char) = before at h ⊢
  induction text generalizing before with
  | nil => rfl
  | cons c text ih =>
      rw [findFrom] at h
      rw [removeFrom]
      cases hmatch : p.matchAt ⟨before, c :: text⟩ with
      | some m =>
          rw [hmatch] at h
          cases h
      | none =>
          rw [hmatch] at h
          exact congrArg (c :: ·) (ih (c :: before) h)

/-! ## Edges -/

/-- An edge looks the same from both sides. -/
theorem isEdge_swap : Cursor.isEdge ⟨before, after⟩ = Cursor.isEdge ⟨after, before⟩ :=
  bne_comm

/-- In front of a character of a word there is an edge only behind what is none. -/
theorem stops_of_isEdge_ahead {c : Char} {rest : List Char} (hc : Text.isWordChar c = true)
    (h : Cursor.isEdge ⟨before, c :: rest⟩ = true) : Stops .word before := by
  intro d hd
  unfold Cursor.isEdge at h
  rw [List.head?_cons, Option.any_some, hc, Option.mem_def.mp hd, Option.any_some] at h
  show Text.isWordChar d = false
  simpa using h

/-- Behind a character of a word there is an edge only in front of what is none. -/
theorem stops_of_isEdge_behind {c : Char} (hc : Text.isWordChar c = true)
    (h : Cursor.isEdge ⟨c :: before, after⟩ = true) : Stops .word after :=
  stops_of_isEdge_ahead hc (isEdge_swap.symm.trans h)

theorem stops_of_isEdge_behind_word {w : List Char} (hne : w ≠ [])
    (hw : ∀ c ∈ w, Text.isWordChar c = true)
    (h : Cursor.isEdge ⟨w.reverse ++ before, after⟩ = true) : Stops .word after := by
  obtain ⟨c, cs, hcs⟩ := List.exists_cons_of_ne_nil (List.reverse_ne_nil_iff.mpr hne)
  have hc : c ∈ w := List.mem_reverse.mp (hcs ▸ List.mem_cons_self)
  rw [hcs] at h
  exact stops_of_isEdge_behind (hw c hc) h

/-- Whether the last thing that a pattern asks for is an edge. -/
def endsAtEdge : Pattern → Bool
  | edge => true
  | seq _ q => q.endsAtEdge
  | _ => false

theorem Stands.isEdge_behind (hp : p.endsAtEdge = true) (h : p.Stands before s after) :
    Cursor.isEdge ⟨s.reverse ++ before, after⟩ = true := by
  induction p generalizing before s with
  | edge =>
      obtain ⟨rfl, hedge⟩ := h
      exact hedge
  | seq p q _ ihq =>
      obtain ⟨a, b, rfl, _, hq⟩ := h
      rw [List.reverse_append, List.append_assoc]
      exact ihq hp hq
  | _ => cases hp

/-- Whether the first thing that a pattern asks for is the beginning of the text. -/
def beginsAtStart : Pattern → Bool
  | atStart => true
  | seq p _ => p.beginsAtStart
  | _ => false

theorem Stands.before_eq_nil (hp : p.beginsAtStart = true) (h : p.Stands before s after) :
    before = [] := by
  induction p generalizing s after with
  | atStart => exact h.2
  | seq p q ihp _ =>
      obtain ⟨a, b, rfl, hfirst, _⟩ := h
      exact ihp hp hfirst
  | _ => cases hp

end Cardfolio.Pattern
