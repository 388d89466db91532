import Cardfolio.Proofs.Pattern.Phrases
import Cardfolio.Proofs.Pattern.Preferred
import Cardfolio.Proofs.Text.Spaced

/-!
# The longest phrase

In a text of small letters with single spaces a phrase is read letter by letter: where the text
goes on with it, and nowhere else. Of several phrases the longer ones are tried first. So it is
the longest one that is taken among those the text goes on with, if the rest can be read behind
it.
-/

namespace Cardfolio.Pattern

open Text

variable {α : Type _} {f : Thread → Option α} {before rest : List Char}
  {pieces : List (String × Cursor × Cursor)} {x : α}

theorem firstThat_sequence_cons (p : Pattern) (ps : List Pattern) (t : Thread) :
    (sequence (p :: ps)).firstThat f t = p.firstThat ((sequence ps).firstThat f) t := by
  cases ps with
  | nil => exact congrArg (p.firstThat · t) (funext fun u => (firstThat_here u).symm)
  | cons q ps => exact firstThat_seq t

theorem firstThat_anyOf (ps : List Pattern) (t : Thread) :
    (anyOf ps).firstThat f t = ps.findSome? (·.firstThat f t) := by
  match ps with
  | [] => rfl
  | [p] => rw [List.findSome?_singleton, anyOf]
  | p :: q :: ps =>
      show (alt p (anyOf (q :: ps))).firstThat f t = _
      rw [firstThat_alt, firstThat_anyOf (q :: ps), List.findSome?_cons (a := p)]
      cases p.firstThat f t <;> rfl

theorem toLower_of_isLower {c : Char} (h : c.isLower = true) : c.toLower = c := by
  unfold Char.toLower
  rw [dif_neg]
  rw [ge_iff_le, UInt32.le_iff_toNat_le, UInt32.le_iff_toNat_le]
  have hcode : 97 ≤ c.val.toNat ∧ c.val.toNat ≤ 122 := isLower_iff.mp h
  have hZ : 'Z'.val.toNat = 90 := rfl
  omega

theorem accepts_caseless (c : Char) : (caseless c).accepts c = true := by
  unfold caseless
  split
  · next hlower =>
      have halpha : c.isAlpha = true := isAlpha_iff.mpr (Or.inr (isLower_iff.mp hlower))
      show (latinLetter? c == some c) = true
      rw [latinLetter?, if_pos halpha, toLower_of_isLower hlower]
      exact beq_self_eq_true _
  · exact beq_self_eq_true c

/-- Character by character, each by a class of its own. -/
theorem firstThat_each {k : Char → CharClass} (hk : ∀ c, (k c).accepts c = true) (cs : List Char)
    (f : Thread → Option α) (before : List Char) :
    (sequence (cs.map fun c => one (k c))).firstThat f ⟨⟨before, cs ++ rest⟩, pieces⟩
      = f ⟨⟨cs.reverse ++ before, rest⟩, pieces⟩ := by
  induction cs generalizing before with
  | nil => exact firstThat_here _
  | cons c cs ih =>
      rw [List.map_cons, firstThat_sequence_cons, List.cons_append, firstThat_one (hk c), ih,
        List.reverse_cons, List.append_assoc]
      rfl

theorem firstThat_letters (cs : List Char) (f : Thread → Option α) (before : List Char) :
    (sequence (cs.map fun c => one (caseless c))).firstThat f ⟨⟨before, cs ++ rest⟩, pieces⟩
      = f ⟨⟨cs.reverse ++ before, rest⟩, pieces⟩ :=
  firstThat_each accepts_caseless cs f before

theorem firstThat_spelled (w : String) (f : Thread → Option α) (before : List Char) :
    (spelled w).firstThat f ⟨⟨before, w.toList ++ rest⟩, pieces⟩
      = f ⟨⟨w.toList.reverse ++ before, rest⟩, pieces⟩ :=
  firstThat_each (k := .exactly) (fun c => beq_self_eq_true c) w.toList f before

theorem firstThat_gap (h : Stops .blank rest) :
    gap.firstThat f ⟨⟨before, ' ' :: rest⟩, pieces⟩ = f ⟨⟨' ' :: before, rest⟩, pieces⟩ := by
  unfold firstThat
  rw [gap, runs, runEnds, if_pos (by decide), runEnds_of_stops h, List.map_singleton,
    List.findSome?_singleton]

/-- Words with single spaces between them. -/
def joined (words : List String) : List Char :=
  [' '].intercalate (words.map String.toList)

theorem joined_cons_cons (w v : String) (ws : List String) :
    joined (w :: v :: ws) = w.toList ++ ' ' :: joined (v :: ws) := by
  simp [joined, List.intercalate]

theorem head_joined {v : String} {ws : List String}
    (hv : v.toList ≠ [] ∧ ∀ c ∈ v.toList, isBlank c = false) :
    Stops .blank (joined (v :: ws) ++ rest) := by
  obtain ⟨c, cs, hcs⟩ := List.exists_cons_of_ne_nil hv.1
  have hjoined : ∃ more, joined (v :: ws) ++ rest = c :: more := by
    cases ws with
    | nil => exact ⟨cs ++ rest, by simp [joined, hcs]⟩
    | cons w ws => exact ⟨_, by rw [joined_cons_cons, hcs]; rfl⟩
  obtain ⟨more, hmore⟩ := hjoined
  rw [hmore]
  exact stops_of_cons (hv.2 c (hcs ▸ List.mem_cons_self))

/-- A phrase that stands there is read. -/
theorem firstThat_phrase {ws : List String} (hne : ws ≠ [])
    (hws : ∀ w ∈ ws, w.toList ≠ [] ∧ ∀ c ∈ w.toList, isBlank c = false) (before : List Char)
    (f : Thread → Option α) :
    (spaced (ws.map lit)).firstThat f ⟨⟨before, joined ws ++ rest⟩, pieces⟩
      = f ⟨⟨(joined ws).reverse ++ before, rest⟩, pieces⟩ := by
  induction ws generalizing before with
  | nil => exact (hne rfl).elim
  | cons w ws ih =>
      obtain ⟨hw, hws⟩ := List.forall_mem_cons.mp hws
      cases ws with
      | nil =>
          have hjoined : joined [w] = w.toList := by simp [joined]
          rw [hjoined]
          exact firstThat_letters w.toList f before
      | cons v ws =>
          have hstops : Stops .blank (joined (v :: ws) ++ rest) :=
            head_joined (hws v List.mem_cons_self)
          show (seq (lit w) (seq gap (spaced ((v :: ws).map lit)))).firstThat f _ = _
          rw [joined_cons_cons, firstThat_seq, List.append_assoc, lit, firstThat_letters,
            firstThat_seq, List.cons_append, firstThat_gap hstops,
            ih (List.cons_ne_nil v ws) hws]
          simp

/-- In a text with single spaces a phrase spells itself only. -/
theorem eq_of_spells_phrase {ws : List String} (hne : ws ≠ []) {s : List Char} (hplain : IsPlain s)
    (hspaced : isSpaced s = true) (h : (spaced (ws.map lit)).Spells s) : s = joined ws := by
  induction ws generalizing s with
  | nil => exact (hne rfl).elim
  | cons w ws ih =>
      cases ws with
      | nil =>
          have hjoined : joined [w] = w.toList := by simp [joined]
          rw [hjoined]
          exact eq_of_spells_lit hplain h
      | cons v ws =>
          rw [List.map_cons, List.map_cons, spells_spaced_cons_cons] at h
          obtain ⟨a, g, b, ha, hgne, hg, hb, rfl⟩ := h
          have hbehind := isSpaced_of_append_right hspaced
          obtain ⟨rfl, _⟩ := eq_space_of_isSpaced hgne hg hbehind
          have hfirst := eq_of_spells_lit (hplain.of_subset (List.subset_append_left _ _)) ha
          rw [joined_cons_cons, hfirst,
            ih (List.cons_ne_nil v ws) (hplain.of_subset fun c hc => by simp [hc])
              (isSpaced_of_append_right hbehind) hb]
          rfl

theorem firstThat_phrase_eq_none {ws : List String} (hne : ws ≠ []) {after : List Char}
    (hplain : IsPlain after) (hspaced : isSpaced after = true) (hnot : ¬ joined ws <+: after) :
    (spaced (ws.map lit)).firstThat f ⟨⟨before, after⟩, pieces⟩ = none := by
  refine List.findSome?_eq_none_iff.mpr fun u hu => ?_
  obtain ⟨⟨s, hs, hpast⟩, _⟩ := reading_of_mem_runs hu
  have hafter : after = s ++ u.cursor.after := hpast.after
  have hprefix : s <+: after := ⟨_, hafter.symm⟩
  have hsame : s = joined ws := eq_of_spells_phrase hne (hplain.of_subset hprefix.subset)
    (isSpaced_of_append_left (hafter ▸ hspaced)) hs
  exact (hnot (hsame ▸ hprefix)).elim

theorem joined_keywordWords {s : String} (h : IsPhrase s) : joined (keywordWords s) = s.toList := by
  have hwords := congrArg String.toList h.2.2
  rw [String.toList_intercalate] at hwords
  exact hwords

end Cardfolio.Pattern

namespace Cardfolio.Vocabulary

open Pattern Text

variable {α : Type _} {f : Thread → Option α} {before rest : List Char}
  {pieces : List (String × Cursor × Cursor)} {x : α}

theorem pairwise_longestFirst {β : Type _} (text : β → String) (xs : List β) :
    (longestFirst text xs).Pairwise fun a b => (text b).length ≤ (text a).length :=
  Stable.pairwise_sort decide_eq_true_iff (fun hab hbc => Nat.le_trans hbc hab)
    fun _ _ => Nat.le_total _ _

/-- Of the phrases that the text goes on with, the longest one is read. -/
theorem firstThat_phraseOf {phrases : List String} (hphrases : ∀ s ∈ phrases, IsPhrase s)
    {w : String} (hw : w ∈ phrases) (hplain : IsPlain (w.toList ++ rest))
    (hspaced : isSpaced (w.toList ++ rest) = true)
    (hlongest : ∀ v ∈ phrases, v.toList <+: w.toList ++ rest → v ≠ w → v.length < w.length)
    (hx : f ⟨⟨w.toList.reverse ++ before, rest⟩, pieces⟩ = some x) :
    (phraseOf phrases).firstThat f ⟨⟨before, w.toList ++ rest⟩, pieces⟩ = some x := by
  have hin : w ∈ longestFirst id phrases := mem_longestFirst.mpr hw
  obtain ⟨longer, others, hsplit, hnew⟩ := List.eq_append_cons_of_mem hin
  have hsorted := pairwise_longestFirst id phrases
  rw [hsplit, List.pairwise_append] at hsorted
  have hmem : ∀ v ∈ longer, v ∈ phrases := by
    intro v hv
    have hin : v ∈ longestFirst id phrases := hsplit ▸ List.mem_append_left _ hv
    exact mem_longestFirst.mp hin
  -- The phrases in front are no shorter, so the text does not go on with them.
  have hnone : ∀ v ∈ longer, (spaced ((keywordWords v).map lit)).firstThat f
      ⟨⟨before, w.toList ++ rest⟩, pieces⟩ = none := by
    intro v hv
    have hphrase := hphrases v (hmem v hv)
    refine firstThat_phrase_eq_none hphrase.2.1 hplain hspaced ?_
    rw [joined_keywordWords hphrase]
    intro hprefix
    have hshorter := hlongest v (hmem v hv) hprefix fun h => hnew (h ▸ hv)
    have hlonger : w.length ≤ v.length := hsorted.2.2 v hv w List.mem_cons_self
    omega
  have hphrase := hphrases w hw
  have hread : (spaced ((keywordWords w).map lit)).firstThat f
      ⟨⟨before, w.toList ++ rest⟩, pieces⟩ = some x := by
    rw [← joined_keywordWords hphrase, firstThat_phrase hphrase.2.1 hphrase.1,
      joined_keywordWords hphrase, hx]
  rw [phraseOf, firstThat_anyOf, hsplit, List.map_append, List.map_cons, List.findSome?_append,
    List.findSome?_cons, hread, List.findSome?_eq_none_iff.mpr (by simpa using hnone)]
  rfl

end Cardfolio.Vocabulary
