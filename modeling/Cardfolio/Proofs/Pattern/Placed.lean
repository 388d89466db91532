import Cardfolio.Proofs.Pattern.Occurrence

/-!
# Where a match stands

A pattern has one preferred reading at each place, so a match is determined by where it begins,
and two matches of one search are the same when they have a character in common. The first match
of a search for all is the one that is found when a single one is wanted.

Where a named piece stands within its match can be told for a piece with which the pattern
begins or ends: the text is cut in front of it and behind it, and the rest of the pattern spells
what lies between there and the ends of the match.
-/

namespace Cardfolio

/-- Of two different members of a list, one stands in front of the other. -/
theorem eq_or_of_pairwise {α : Type _} {R : α → α → Prop} {xs : List α} (h : xs.Pairwise R)
    {x y : α} (hx : x ∈ xs) (hy : y ∈ xs) : x = y ∨ R x y ∨ R y x := by
  have hplaces := List.pairwise_iff_getElem.mp h
  obtain ⟨i, hi, rfl⟩ := List.getElem_of_mem hx
  obtain ⟨j, hj, rfl⟩ := List.getElem_of_mem hy
  rcases Nat.lt_trichotomy i j with hij | rfl | hji
  · exact Or.inr (Or.inl (hplaces i j hi hj hij))
  · exact Or.inl rfl
  · exact Or.inr (Or.inr (hplaces j i hj hi hji))

namespace Pattern

variable {p q r : Pattern} {name : String} {text before after : List Char} {m m' : Match}

theorem Occurs.eq_of_start (h : p.Occurs text m) (h' : p.Occurs text m')
    (hstart : m.span.start = m'.span.start) : m = m' := by
  obtain ⟨left, right, rfl, hmatch⟩ := h
  obtain ⟨left', right', htext, hmatch'⟩ := h'
  rw [start_eq_of_matchAt hmatch, start_eq_of_matchAt hmatch'] at hstart
  simp only [List.append_nil, List.length_reverse] at hstart
  obtain ⟨rfl, rfl⟩ := List.append_inj htext hstart
  exact Option.some.inj (hmatch.symm.trans hmatch')

theorem eq_of_mem_findAll (h : m ∈ p.findAll text) (h' : m' ∈ p.findAll text)
    (hbefore : m'.span.start < m.span.stop) (hafter : m.span.start < m'.span.stop) : m = m' := by
  rcases eq_or_of_pairwise (findAll_pairwise p text) h h' with heq | hle | hle
  · exact heq
  · omega
  · omega

theorem head?_findAllFrom (hp : p.mayBeEmpty = false) :
    (p.findAllFrom 0 before after).head? = p.findFrom before after := by
  induction after generalizing before with
  | nil => exact (not_matchAt_end hp before).symm
  | cons c after ih =>
      rw [findAllFrom, findFrom]
      split
      · rfl
      · exact ih

theorem head?_findAll (hp : p.mayBeEmpty = false) : (p.findAll text).head? = p.find? text :=
  head?_findAllFrom hp

theorem mem_findAll_of_find? (hp : p.mayBeEmpty = false) (h : p.find? text = some m) :
    m ∈ p.findAll text :=
  List.mem_of_mem_head? ((head?_findAll hp).trans h)

theorem Occurs.exists_run (h : p.Occurs text m) : ∃ left right u, text = left ++ right ∧
    u ∈ p.runs ⟨⟨left.reverse, right⟩, []⟩ ∧
      m = ⟨⟨left.reverse, right⟩, u.cursor, u.pieces⟩ := by
  obtain ⟨left, right, htext, hmatch⟩ := h
  rw [List.append_nil] at hmatch
  obtain ⟨u, hu, hm⟩ := matchAt_eq_some_iff.mp hmatch
  exact ⟨left, right, u, htext, List.mem_of_mem_head? hu, hm⟩

/-- A pattern without pieces reads none. -/
theorem pieces_eq_of_mem_runs (hp : p.parts = []) {t u : Thread} (h : u ∈ p.runs t) :
    u.pieces = t.pieces := by
  obtain ⟨_, read, hread, hpieces, _⟩ := reading_of_mem_runs h
  cases read with
  | nil => exact hread
  | cons x read =>
      obtain ⟨q, _, _, _, hq, _⟩ := hpieces x List.mem_cons_self
      rw [hp] at hq
      cases hq

/-- A match that begins with a piece. -/
theorem Occurs.exists_first_piece (hq : q.parts = [])
    (h : (seq (piece name p) q).Occurs text m) : ∃ left b right,
      text = left ++ (m.pieceText name ++ (b ++ right)) ∧ p.Spells (m.pieceText name) ∧
        q.Spells b ∧
          m.span = ⟨left.length, left.length + ((m.pieceText name).length + b.length)⟩ := by
  obtain ⟨left, right, u, rfl, hu, rfl⟩ := h.exists_run
  obtain ⟨v, hv, hu⟩ := List.mem_flatMap.mp hu
  obtain ⟨w, hw, rfl⟩ := List.mem_map.mp hv
  obtain ⟨⟨s, hs, hpast⟩, _⟩ := reading_of_mem_runs hw
  obtain ⟨⟨b, hb, hpast'⟩, _⟩ := reading_of_mem_runs hu
  have hpiece : Match.pieceText ⟨⟨left.reverse, right⟩, u.cursor, u.pieces⟩ name = s := by
    rw [pieces_eq_of_mem_runs hq hu]
    exact pieceText_cons hpast
  have hright : right = (s ++ b) ++ u.cursor.after := (hpast.trans hpast').after
  have hlength := (hpast.trans hpast').length_eq
  refine ⟨left, b, u.cursor.after, ?_, ?_, hb, ?_⟩
  · rw [hpiece, ← List.append_assoc s, ← hright]
  · rw [hpiece]
    exact hs
  · rw [hpiece, ← List.length_append, ← hlength]
    unfold Match.span Cursor.position
    rw [List.length_reverse]
    rfl

/-- A match that ends with a piece. -/
theorem Occurs.exists_last_piece (h : (seq p (seq q (piece name r))).Occurs text m) :
    ∃ left a b right, text = left ++ (a ++ (b ++ (m.pieceText name ++ right))) ∧
      p.Spells a ∧ q.Spells b ∧ r.Spells (m.pieceText name) ∧ m.span.start = left.length := by
  obtain ⟨left, right, u, rfl, hu, rfl⟩ := h.exists_run
  obtain ⟨v, hv, hu⟩ := List.mem_flatMap.mp hu
  obtain ⟨w, hw, hu⟩ := List.mem_flatMap.mp hu
  obtain ⟨x, hx, rfl⟩ := List.mem_map.mp hu
  obtain ⟨⟨a, ha, hpast⟩, _⟩ := reading_of_mem_runs hv
  obtain ⟨⟨b, hb, hpast'⟩, _⟩ := reading_of_mem_runs hw
  obtain ⟨⟨s, hs, hpast''⟩, _⟩ := reading_of_mem_runs hx
  have hpiece : Match.pieceText ⟨⟨left.reverse, right⟩, x.cursor,
      (name, w.cursor, x.cursor) :: x.pieces⟩ name = s := pieceText_cons hpast''
  have hright : right = a ++ (b ++ s) ++ x.cursor.after :=
    (hpast.trans (hpast'.trans hpast'')).after
  refine ⟨left, a, b, x.cursor.after, ?_, ha, hb, ?_, List.length_reverse⟩
  · rw [hpiece, hright, List.append_assoc, List.append_assoc]
  · rw [hpiece]
    exact hs

/-- A match that is a piece between two edges. -/
theorem Occurs.exists_edged_piece (h : (seq edge (seq (piece name p) edge)).Occurs text m) :
    ∃ left right, text = left ++ (m.pieceText name ++ right) ∧ p.Spells (m.pieceText name) ∧
      Cursor.isEdge ⟨left.reverse, m.pieceText name ++ right⟩ = true ∧
      Cursor.isEdge ⟨(m.pieceText name).reverse ++ left.reverse, right⟩ = true := by
  obtain ⟨left, right, u, rfl, hu, rfl⟩ := h.exists_run
  obtain ⟨v, hv, hu⟩ := List.mem_flatMap.mp hu
  obtain ⟨w, hw, hu⟩ := List.mem_flatMap.mp hu
  obtain ⟨hedge, hv⟩ := List.mem_ite_nil_right.mp hv
  obtain rfl := List.mem_singleton.mp hv
  obtain ⟨x, hx, rfl⟩ := List.mem_map.mp hw
  obtain ⟨hedge', hu⟩ := List.mem_ite_nil_right.mp hu
  obtain rfl := List.mem_singleton.mp hu
  obtain ⟨⟨s, hs, hpast⟩, _⟩ := reading_of_mem_runs hx
  have hpiece : Match.pieceText ⟨⟨left.reverse, right⟩, x.cursor,
      (name, ⟨left.reverse, right⟩, x.cursor) :: x.pieces⟩ name = s := pieceText_cons hpast
  have hright : right = s ++ x.cursor.after := hpast.after
  have hbefore : x.cursor.before = s.reverse ++ left.reverse := hpast.before
  refine ⟨left, x.cursor.after, ?_, ?_, ?_, ?_⟩
  · rw [hpiece, ← hright]
  · rw [hpiece]
    exact hs
  · rw [hpiece, ← hright]
    exact hedge
  · rw [hpiece, ← hbefore]
    exact hedge'

end Pattern

end Cardfolio
