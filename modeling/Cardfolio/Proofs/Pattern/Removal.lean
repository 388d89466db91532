import Cardfolio.Proofs.Pattern.Placed
import Cardfolio.Proofs.Pattern.Standing

/-!
# What is left when matches are taken away

Two kinds of pattern leave a stretch of the text as it is. One that is read up to the end of the
text wherever it is read leaves what stands in front of its first match, and that holds no place
where the pattern could be read (`exists_remove_eq_front`). One that is read at the beginning only
leaves what stands behind its only match (`exists_remove_eq_back`).

A match that ends with a named piece leaves its text in place as well: in front of the piece the
rest of the pattern stands, and not only what it spells.
-/

namespace Cardfolio.Pattern

variable {p : Pattern} {before after text s : List Char} {m : Match}

theorem removeFrom_eq_nil (skip : Nat) (hskip : after.length ≤ skip) :
    p.removeFrom skip before after = [] := by
  induction after generalizing skip before with
  | nil => rw [removeFrom]
  | cons c after ih =>
      cases skip with
      | zero => cases hskip
      | succ skip =>
          rw [removeFrom]
          exact ih skip (Nat.le_of_succ_le_succ hskip)

/-- A match up to the end is taken away, and nothing is left. -/
theorem removeFrom_of_match {c : Char} (h : p.matchAt ⟨before, c :: after⟩ = some m)
    (hlength : m.length = (c :: after).length) : p.removeFrom 0 before (c :: after) = [] := by
  have hpositive : m.length ≠ 0 := by
    rw [hlength]
    exact Nat.succ_ne_zero _
  rw [removeFrom, h]
  dsimp only
  rw [if_neg hpositive]
  refine removeFrom_eq_nil _ ?_
  rw [hlength, List.length_cons]
  omega

theorem exists_removeFrom_eq
    (hend : ∀ a s r, after = a ++ (s ++ r) → p.Stands (a.reverse ++ before) s r → r = []) :
    ∃ rest, after = p.removeFrom 0 before after ++ rest ∧
      (∀ a c b, p.removeFrom 0 before after = a ++ c :: b →
        p.matchAt ⟨a.reverse ++ before, c :: b ++ rest⟩ = none) ∧
      (rest ≠ [] → p.Stands ((p.removeFrom 0 before after).reverse ++ before) rest []) := by
  induction after generalizing before with
  | nil =>
      refine ⟨[], rfl, fun a c b h => ?_, fun h => (h rfl).elim⟩
      exact (List.append_ne_nil_of_right_ne_nil a (List.cons_ne_nil c b) h.symm).elim
  | cons c after ih =>
      cases hmatch : p.matchAt ⟨before, c :: after⟩ with
      | some m =>
          obtain ⟨s, hs, hlength, hstands⟩ := exists_stands_of_matchAt hmatch
          have hstop := hend [] s m.stop.after hs hstands
          rw [hstop, List.append_nil] at hs
          rw [hstop] at hstands
          subst hs
          rw [removeFrom_of_match hmatch hlength]
          refine ⟨c :: after, rfl, fun a d b h => ?_, fun _ => hstands⟩
          exact (List.append_ne_nil_of_right_ne_nil a (List.cons_ne_nil d b) h.symm).elim
      | none =>
          have hend : ∀ a s r, after = a ++ (s ++ r) →
              p.Stands (a.reverse ++ c :: before) s r → r = [] := by
            intro a s r h hs
            refine hend (c :: a) s r (by rw [h]; rfl) ?_
            rw [List.reverse_cons, List.append_assoc]
            exact hs
          obtain ⟨rest, hrest, hnone, hstands⟩ := ih hend
          rw [removeFrom, hmatch]
          dsimp only
          refine ⟨rest, congrArg (c :: ·) hrest, fun a d b h => ?_, fun hne => ?_⟩
          · cases a with
            | nil =>
                obtain ⟨rfl, hb⟩ := List.cons.inj h
                rw [← hb, List.cons_append, ← hrest]
                exact hmatch
            | cons e a =>
                obtain ⟨rfl, hb⟩ := List.cons.inj h
                rw [List.reverse_cons, List.append_assoc]
                exact hnone a d b hb
          · rw [List.reverse_cons, List.append_assoc]
            exact hstands hne

/-- Of a pattern that is read up to the end only, what stands in front of its first match is
left. -/
theorem exists_remove_eq_front
    (hend : ∀ a s r, text = a ++ (s ++ r) → p.Stands a.reverse s r → r = []) :
    ∃ rest, text = p.remove text ++ rest ∧
      (∀ a b s r, b ≠ [] → p.remove text = a ++ b → b ++ rest = s ++ r →
        ¬ p.Stands a.reverse s r) ∧
      (rest ≠ [] → p.Stands (p.remove text).reverse rest []) := by
  have hend : ∀ a s r, text = a ++ (s ++ r) → p.Stands (a.reverse ++ []) s r → r = [] :=
    fun a s r h hs => hend a s r h (by rwa [List.append_nil] at hs)
  obtain ⟨rest, hrest, hnone, hstands⟩ := exists_removeFrom_eq hend
  refine ⟨rest, hrest, fun a b s r hne h hsplit => ?_, fun hne => ?_⟩
  · obtain ⟨c, b, rfl⟩ := List.exists_cons_of_ne_nil hne
    have hat := hnone a c b h
    rw [List.append_nil, matchAt_eq_none_iff_stands] at hat
    exact hat s r hsplit
  · have := hstands hne
    rwa [List.append_nil] at this

/-- Behind the first character nothing is taken away. -/
theorem removeFrom_eq_drop (hp : p.beginsAtStart = true) (hbefore : before ≠ []) (skip : Nat) :
    p.removeFrom skip before after = after.drop skip := by
  induction after generalizing skip before with
  | nil => rw [removeFrom, List.drop_nil]
  | cons c after ih =>
      have hnone : p.matchAt ⟨before, c :: after⟩ = none :=
        matchAt_eq_none_iff_stands.mpr fun s r _ hs => hbefore (hs.before_eq_nil hp)
      cases skip with
      | zero =>
          rw [removeFrom, hnone]
          exact congrArg (c :: ·) (ih (List.cons_ne_nil c before) 0)
      | succ skip =>
          rw [removeFrom]
          exact ih (List.cons_ne_nil c before) skip

/-- Of a pattern that is read at the beginning only, what stands behind its match is left. -/
theorem exists_remove_eq_back (hp : p.beginsAtStart = true) (text : List Char) :
    ∃ s, text = s ++ p.remove text ∧ (s = [] ∨ p.Stands [] s (p.remove text)) := by
  unfold remove
  cases text with
  | nil => exact ⟨[], rfl, .inl rfl⟩
  | cons c after =>
      have hbehind : ∀ skip, p.removeFrom skip [c] after = after.drop skip :=
        removeFrom_eq_drop hp (List.cons_ne_nil c [])
      rw [removeFrom]
      split
      · next m hmatch =>
          obtain ⟨s, hs, hlength, hstands⟩ := exists_stands_of_matchAt hmatch
          split
          · rw [hbehind]
            exact ⟨[], rfl, .inl rfl⟩
          · next hpositive =>
              have hdrop : after.drop (m.length - 1) = m.stop.after := by
                rw [← List.drop_succ_cons (a := c), hs, hlength, Nat.sub_add_cancel,
                  List.drop_left]
                omega
              rw [hbehind, hdrop]
              exact ⟨s, hs, .inr hstands⟩
      · rw [hbehind]
        exact ⟨[], rfl, .inl rfl⟩

theorem exists_of_mem_runs_sequence {ps : List Pattern} {name : String} {q : Pattern}
    {t u : Thread} (h : u ∈ (sequence (ps ++ [piece name q])).runs t) :
    ∃ v ∈ (sequence ps).runs t, ∃ w ∈ q.runs v,
      u = ⟨w.cursor, (name, v.cursor, w.cursor) :: w.pieces⟩ := by
  induction ps generalizing t with
  | nil =>
      obtain ⟨w, hw, rfl⟩ := List.mem_map.mp h
      exact ⟨t, List.mem_singleton_self t, w, hw, rfl⟩
  | cons p ps ih =>
      have hseq : sequence (p :: ps ++ [piece name q])
          = seq p (sequence (ps ++ [piece name q])) := by
        cases ps <;> rfl
      rw [hseq] at h
      obtain ⟨x, hx, h⟩ := List.mem_flatMap.mp h
      obtain ⟨v, hv, hrest⟩ := ih h
      refine ⟨v, ?_, hrest⟩
      cases ps with
      | nil =>
          rw [List.mem_singleton.mp hv]
          exact hx
      | cons p' ps => exact List.mem_flatMap.mpr ⟨x, hx, hv⟩

/-- In front of a piece with which a match ends, the rest of the pattern stands. -/
theorem Occurs.exists_stands_piece {ps : List Pattern} {name : String} {q : Pattern}
    (h : (sequence (ps ++ [piece name q])).Occurs text m) : ∃ left s right,
      text = left ++ (s ++ (m.pieceText name ++ right)) ∧
        (sequence ps).Stands left.reverse s (m.pieceText name ++ right) := by
  obtain ⟨left, right, u, rfl, hu, rfl⟩ := h.exists_run
  obtain ⟨v, hv, w, hw, rfl⟩ := exists_of_mem_runs_sequence hu
  obtain ⟨s, hpast, hstands⟩ := exists_mem_runs_iff.mp ⟨v, hv, rfl⟩
  obtain ⟨⟨r, _, hpast'⟩, _⟩ := reading_of_mem_runs hw
  have hpiece : Match.pieceText ⟨⟨left.reverse, right⟩, w.cursor,
      (name, v.cursor, w.cursor) :: w.pieces⟩ name = r := pieceText_cons hpast'
  have hafter : right = s ++ v.cursor.after := hpast.after
  refine ⟨left, s, w.cursor.after, ?_, ?_⟩
  · rw [hpiece, ← hpast'.after, hafter]
  · rw [hpiece, ← hpast'.after]
    exact hstands

end Cardfolio.Pattern
