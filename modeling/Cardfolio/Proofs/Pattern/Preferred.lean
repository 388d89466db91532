import Cardfolio.Proofs.Pattern.Occurrence

/-!
# Which way of reading is preferred

The match of a pattern is the first of its readings, and where a pattern is followed by
another one, the first that the other one can go on from. `firstThat` says this with a
continuation: it is the first way of reading a pattern that `f` can go on from, with what
`f` makes of it. A sequence hands the second pattern to the first as part of its
continuation, an alternative tries its branches in turn, and a run tries its lengths from
the longest to the shortest. So the preferred reading of a given pattern in a given text is
found by rewriting, and the places where it has to fall back are the places where a
continuation is `none`.
-/

namespace Cardfolio.Pattern

variable {α : Type _} {p q : Pattern} {k : CharClass} {f : Thread → Option α}
  {before rest : List Char} {pieces : List (String × Cursor × Cursor)}

/-- The first way of reading a pattern that `f` can go on from, and how it goes on. -/
def firstThat (p : Pattern) (f : Thread → Option α) (t : Thread) : Option α :=
  (p.runs t).findSome? f

/-- What is asked of the match at a place, asked of the readings there. -/
theorem exists_matchAt_of_firstThat {g : Match → α} {c : Cursor} {x : α}
    (h : p.firstThat (fun u => some (g ⟨c, u.cursor, u.pieces⟩)) ⟨c, []⟩ = some x) :
    ∃ m, p.matchAt c = some m ∧ g m = x := by
  unfold firstThat at h
  cases hruns : p.runs ⟨c, []⟩ with
  | nil =>
      rw [hruns] at h
      cases h
  | cons u us =>
      rw [hruns] at h
      refine ⟨⟨c, u.cursor, u.pieces⟩, ?_, Option.some.inj h⟩
      rw [matchAt, hruns]
      rfl

theorem matchAt_eq_none_of_firstThat {c : Cursor}
    (h : ∀ f : Thread → Option Thread, p.firstThat f ⟨c, []⟩ = none) : p.matchAt c = none := by
  have hsome := h some
  unfold firstThat at hsome
  rw [matchAt_eq_none_iff, List.eq_nil_iff_forall_not_mem]
  intro u hu
  have := List.findSome?_eq_none_iff.mp hsome u hu
  cases this

/-- A pattern that cannot be read at any place of `left` is found behind it. -/
theorem exists_find?_of_firstThat {g : Match → α} {left : List Char} {x : α}
    (hskip : ∀ a c b, left = a ++ c :: b → ∀ f : Thread → Option Thread,
      p.firstThat f ⟨⟨a.reverse, c :: b ++ rest⟩, []⟩ = none)
    (hread : p.firstThat (fun u => some (g ⟨⟨left.reverse, rest⟩, u.cursor, u.pieces⟩))
      ⟨⟨left.reverse, rest⟩, []⟩ = some x) :
    ∃ m, p.find? (left ++ rest) = some m ∧ g m = x := by
  obtain ⟨m, hm, hx⟩ := exists_matchAt_of_firstThat hread
  exact ⟨m, find?_eq_some (fun a c b h => matchAt_eq_none_of_firstThat (hskip a c b h)) hm, hx⟩

theorem firstThat_here (t : Thread) : here.firstThat f t = f t := by
  unfold firstThat
  rw [runs, List.findSome?_singleton]

theorem firstThat_seq (t : Thread) :
    (seq p q).firstThat f t = p.firstThat (q.firstThat f) t := by
  unfold firstThat
  rw [runs]
  induction p.runs t with
  | nil => rfl
  | cons u us ih =>
      rw [List.flatMap_cons, List.findSome?_append, ih, List.findSome?_cons]
      cases (q.runs u).findSome? f with
      | none => rfl
      | some x => rfl

theorem firstThat_alt (t : Thread) :
    (alt p q).firstThat f t = (p.firstThat f t).or (q.firstThat f t) := by
  unfold firstThat
  rw [runs, List.findSome?_append]

theorem firstThat_piece (name : String) (t : Thread) :
    (piece name p).firstThat f t
      = p.firstThat (fun u => f ⟨u.cursor, (name, t.cursor, u.cursor) :: u.pieces⟩) t := by
  unfold firstThat
  rw [runs, List.findSome?_map]
  rfl

theorem firstThat_edge {t : Thread} (h : t.cursor.isEdge = true) : edge.firstThat f t = f t := by
  unfold firstThat
  rw [runs, if_pos h, List.findSome?_singleton]

theorem firstThat_edge_eq_none {t : Thread} (h : t.cursor.isEdge = false) :
    edge.firstThat f t = none := by
  unfold firstThat
  rw [runs, if_neg (by rw [h]; exact Bool.false_ne_true)]
  rfl

theorem firstThat_atStart :
    atStart.firstThat f ⟨⟨[], rest⟩, pieces⟩ = f ⟨⟨[], rest⟩, pieces⟩ :=
  List.findSome?_singleton

theorem firstThat_atEnd :
    atEnd.firstThat f ⟨⟨before, []⟩, pieces⟩ = f ⟨⟨before, []⟩, pieces⟩ :=
  List.findSome?_singleton

theorem firstThat_one {c : Char} (h : k.accepts c = true) :
    (one k).firstThat f ⟨⟨before, c :: rest⟩, pieces⟩ = f ⟨⟨c :: before, rest⟩, pieces⟩ := by
  unfold firstThat
  rw [runs]
  dsimp only
  rw [if_pos h, List.findSome?_singleton]

/-- A text that does not go on with a character of a class. -/
def Stops (k : CharClass) (rest : List Char) : Prop :=
  ∀ c ∈ rest.head?, k.accepts c = false

theorem stops_of_cons {c : Char} (h : k.accepts c = false) : Stops k (c :: rest) := by
  intro d hd
  rw [← Option.some.inj hd]
  exact h

theorem firstThat_one_eq_none (h : Stops k rest) :
    (one k).firstThat f ⟨⟨before, rest⟩, pieces⟩ = none := by
  unfold firstThat
  rw [runs]
  cases rest with
  | nil => rfl
  | cons c rest =>
      dsimp only
      rw [if_neg (by rw [h c rfl]; exact Bool.false_ne_true)]
      rfl

theorem any_isWordChar_of_stops (h : Stops .word rest) :
    rest.head?.any Text.isWordChar = false := by
  cases rest with
  | nil => rfl
  | cons c rest => exact h c rfl

theorem isEdge_behind {c : Char} (hc : Text.isWordChar c = true) (hrest : Stops .word rest) :
    Cursor.isEdge ⟨c :: before, rest⟩ = true := by
  unfold Cursor.isEdge
  rw [any_isWordChar_of_stops hrest, List.head?_cons, Option.any_some, hc]
  rfl

theorem isEdge_ahead {c : Char} (hbefore : Stops .word before) (hc : Text.isWordChar c = true) :
    Cursor.isEdge ⟨before, c :: rest⟩ = true := by
  unfold Cursor.isEdge
  rw [any_isWordChar_of_stops hbefore, List.head?_cons, Option.any_some, hc]
  rfl

theorem isEdge_eq_false (hbefore : Stops .word before) (hrest : Stops .word rest) :
    Cursor.isEdge ⟨before, rest⟩ = false := by
  unfold Cursor.isEdge
  rw [any_isWordChar_of_stops hbefore, any_isWordChar_of_stops hrest]
  rfl

theorem runEnds_of_stops {found : List Cursor} (h : Stops k rest) :
    runEnds k before found rest = found := by
  cases rest with
  | nil => rfl
  | cons c rest => rw [runEnds, if_neg (by rw [h c rfl]; exact Bool.false_ne_true)]

/-- Behind the place that is taken, a run goes on and has to come back. -/
theorem findSome?_runEnds_back {g : Cursor → Option α} {x : α} {b : List Char}
    (hb : ∀ c ∈ b, k.accepts c = true) (hrest : Stops k rest) {found : List Cursor}
    (hfound : found.findSome? g = some x)
    (hback : ∀ b₁ b₂, b = b₁ ++ b₂ → b₁ ≠ [] → g ⟨b₁.reverse ++ before, b₂ ++ rest⟩ = none) :
    (runEnds k before found (b ++ rest)).findSome? g = some x := by
  induction b generalizing before found with
  | nil =>
      rw [List.nil_append, runEnds_of_stops hrest]
      exact hfound
  | cons c b ih =>
      obtain ⟨hc, hb⟩ := List.forall_mem_cons.mp hb
      rw [List.cons_append, runEnds, if_pos hc]
      refine ih hb ?_ fun b₁ b₂ heq hne => ?_
      · have hnone : g ⟨c :: before, b ++ rest⟩ = none := hback [c] b rfl (List.cons_ne_nil c [])
        rw [List.findSome?_cons, hnone]
        exact hfound
      · have := hback (c :: b₁) b₂ (by rw [heq]; rfl) (List.cons_ne_nil c b₁)
        rwa [List.reverse_cons, List.append_assoc] at this

theorem findSome?_runEnds {g : Cursor → Option α} {x : α} {a b : List Char} (hne : a ≠ [])
    (ha : ∀ c ∈ a, k.accepts c = true) (hb : ∀ c ∈ b, k.accepts c = true) (hrest : Stops k rest)
    {found : List Cursor} (hx : g ⟨a.reverse ++ before, b ++ rest⟩ = some x)
    (hback : ∀ b₁ b₂, b = b₁ ++ b₂ → b₁ ≠ [] →
      g ⟨(a ++ b₁).reverse ++ before, b₂ ++ rest⟩ = none) :
    (runEnds k before found (a ++ (b ++ rest))).findSome? g = some x := by
  induction a generalizing before found with
  | nil => exact (hne rfl).elim
  | cons c a ih =>
      obtain ⟨hc, ha⟩ := List.forall_mem_cons.mp ha
      rw [List.cons_append, runEnds, if_pos hc]
      by_cases hnil : a = []
      · subst hnil
        refine findSome?_runEnds_back hb hrest ?_ fun b₁ b₂ heq hne => ?_
        · rw [List.findSome?_cons]
          have hx : g ⟨c :: before, b ++ rest⟩ = some x := hx
          rw [List.nil_append, hx]
        · have := hback b₁ b₂ heq hne
          rwa [List.singleton_append, List.reverse_cons, List.append_assoc] at this
      · refine ih hnil ha ?_ fun b₁ b₂ heq hne => ?_
        · rw [List.reverse_cons, List.append_assoc] at hx
          exact hx
        · have := hback b₁ b₂ heq hne
          rwa [List.cons_append, List.reverse_cons, List.append_assoc] at this

/-- A run that goes past `a` and `b` but can be gone on from behind `a` only. -/
theorem firstThat_run_back {x : α} {a b : List Char} (hne : a ≠ [])
    (ha : ∀ c ∈ a, k.accepts c = true) (hb : ∀ c ∈ b, k.accepts c = true) (hrest : Stops k rest)
    (hx : f ⟨⟨a.reverse ++ before, b ++ rest⟩, pieces⟩ = some x)
    (hback : ∀ b₁ b₂, b = b₁ ++ b₂ → b₁ ≠ [] →
      f ⟨⟨(a ++ b₁).reverse ++ before, b₂ ++ rest⟩, pieces⟩ = none) :
    (run k).firstThat f ⟨⟨before, a ++ (b ++ rest)⟩, pieces⟩ = some x := by
  unfold firstThat
  rw [runs, List.findSome?_map]
  exact findSome?_runEnds hne ha hb hrest hx hback

theorem firstThat_run {x : α} {a : List Char} (hne : a ≠ []) (ha : ∀ c ∈ a, k.accepts c = true)
    (hrest : Stops k rest) (hx : f ⟨⟨a.reverse ++ before, rest⟩, pieces⟩ = some x) :
    (run k).firstThat f ⟨⟨before, a ++ rest⟩, pieces⟩ = some x :=
  firstThat_run_back (b := []) hne ha (fun _ h => (List.not_mem_nil h).elim) hrest hx
    fun _ _ heq hne => (hne (List.append_eq_nil_iff.mp heq.symm).1).elim

theorem firstThat_run_eq_none (h : Stops k rest) :
    (run k).firstThat f ⟨⟨before, rest⟩, pieces⟩ = none := by
  unfold firstThat
  rw [runs, runEnds_of_stops h]
  rfl

theorem firstThat_maybe (t : Thread) : (maybe p).firstThat f t = (p.firstThat f t).or (f t) := by
  rw [maybe, firstThat_alt, firstThat_here]

theorem firstThat_maybe_of_some {t : Thread} {x : α} (h : p.firstThat f t = some x) :
    (maybe p).firstThat f t = some x := by
  rw [firstThat_maybe, h]
  rfl

theorem firstThat_maybe_of_none {t : Thread} (h : p.firstThat f t = none) :
    (maybe p).firstThat f t = f t := by
  rw [firstThat_maybe, h]
  rfl

/-- Any number of characters, when the continuation can go on behind all of them. -/
theorem firstThat_many {x : α} {a : List Char} (ha : ∀ c ∈ a, k.accepts c = true)
    (hrest : Stops k rest) (hx : f ⟨⟨a.reverse ++ before, rest⟩, pieces⟩ = some x) :
    (many k).firstThat f ⟨⟨before, a ++ rest⟩, pieces⟩ = some x := by
  by_cases hnil : a = []
  · subst hnil
    rw [many, List.nil_append, firstThat_maybe_of_none (firstThat_run_eq_none hrest)]
    exact hx
  · exact firstThat_maybe_of_some (firstThat_run hnil ha hrest hx)

theorem stops_nil : Stops k [] := nofun

theorem firstThat_many_of_stops (h : Stops k rest) :
    (many k).firstThat f ⟨⟨before, rest⟩, pieces⟩ = f ⟨⟨before, rest⟩, pieces⟩ :=
  firstThat_maybe_of_none (firstThat_run_eq_none h)

theorem firstThat_maybe_one_of_stops (h : Stops k rest) :
    (maybe (one k)).firstThat f ⟨⟨before, rest⟩, pieces⟩ = f ⟨⟨before, rest⟩, pieces⟩ :=
  firstThat_maybe_of_none (firstThat_one_eq_none h)

/-- At the end of a text, what needs a character is left out. -/
theorem firstThat_maybe_at_end (hp : p.mayBeEmpty = false) :
    (maybe p).firstThat f ⟨⟨before, []⟩, pieces⟩ = f ⟨⟨before, []⟩, pieces⟩ := by
  refine firstThat_maybe_of_none (List.findSome?_eq_none_iff.mpr fun u hu => ?_)
  obtain ⟨⟨s, hs, hpast⟩, _⟩ := reading_of_mem_runs hu
  have hafter : [] = s ++ u.cursor.after := hpast.after
  exact (ne_nil_of_spells hp hs (List.append_eq_nil_iff.mp hafter.symm).1).elim

theorem firstThat_few_of_some {n : Nat} {t : Thread} {x : α} (h : f t = some x) :
    (few p n).firstThat f t = some x := by
  cases n with
  | zero => exact (firstThat_here t).trans h
  | succ n =>
      rw [few, firstThat_alt, firstThat_here, h]
      rfl

/-- A single space where blanks may stand. -/
theorem firstThat_room_space {x : α} (hrest : Stops .blank rest)
    (hx : f ⟨⟨' ' :: before, rest⟩, pieces⟩ = some x) :
    room.firstThat f ⟨⟨before, ' ' :: rest⟩, pieces⟩ = some x := by
  have hspace : ∀ c ∈ [' '], CharClass.accepts .blank c = true :=
    List.forall_mem_singleton.mpr (by decide)
  exact firstThat_many hspace hrest hx

/-- Nothing stands in front of the beginning of a text. -/
theorem firstThat_notBehind_start {ks : List CharClass} (h : ks ≠ []) :
    (notBehind ks).firstThat f ⟨⟨[], rest⟩, pieces⟩ = f ⟨⟨[], rest⟩, pieces⟩ := by
  obtain ⟨k, others, hreverse⟩ := List.exists_cons_of_ne_nil (List.reverse_ne_nil_iff.mpr h)
  unfold firstThat
  rw [runs, hreverse, follows, if_neg Bool.false_ne_true, List.findSome?_singleton]

end Cardfolio.Pattern
