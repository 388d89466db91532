import Cardfolio.Proofs.Pattern.Phrases
import Cardfolio.Proofs.Text.Spaced

/-!
# Patterns with few spellings

The patterns of the vocabulary are written in letters and blanks. In a text of small letters
with single spaces a letter spells itself only, and blanks spell a space, so all that such a
pattern can spell there is a list, unless it asks for a run of something else. `spellings?`
makes the list, by recursion on the pattern, and what holds of the words of a pattern is then
decided by going through it.
-/

namespace Cardfolio

open Text

/-- The characters of a class in a text of small letters with single spaces, if they can be
listed. -/
def CharClass.choices? : CharClass → Option (List Char)
  | exactly c => some [c]
  | letter c => some [c]
  | blank => some [' ']
  | either a b => do
    let cs ← a.choices?
    let ds ← b.choices?
    return cs ++ ds
  | _ => none

theorem CharClass.mem_choices {k : CharClass} {cs : List Char} (h : k.choices? = some cs) {c : Char}
    (hsmall : IsSmall c) (hstray : c ∉ strayLetters) (hspace : isBlank c = true → c = ' ')
    (hc : k.accepts c = true) : c ∈ cs := by
  induction k generalizing cs with
  | exactly d =>
      rw [← Option.some.inj h, List.mem_singleton]
      exact beq_iff_eq.mp hc
  | letter d =>
      rw [← Option.some.inj h, List.mem_singleton]
      exact Pattern.eq_of_latinLetter? hsmall hstray (beq_iff_eq.mp hc)
  | blank =>
      rw [← Option.some.inj h, List.mem_singleton]
      exact hspace hc
  | either a b iha ihb =>
      obtain ⟨as, ha, h⟩ := Option.bind_eq_some_iff.mp h
      obtain ⟨bs, hb, h⟩ := Option.bind_eq_some_iff.mp h
      rw [← Option.some.inj h, List.mem_append]
      exact (Bool.or_eq_true_iff.mp hc).imp (iha ha) (ihb hb)
  | _ => cases h

namespace Pattern

/-- All that a pattern spells in a text of small letters with single spaces, if it can be
listed. -/
def spellings? : Pattern → Option (List (List Char))
  | one k => k.choices?.map (·.map ([·]))
  | run .blank => some [[' ']]
  | run _ => none
  | seq p q => do
    let as ← p.spellings?
    let bs ← q.spellings?
    return as.flatMap fun a => bs.map (a ++ ·)
  | alt p q => do
    let as ← p.spellings?
    let bs ← q.spellings?
    return as ++ bs
  | piece _ p => p.spellings?
  | _ => some [[]]

variable {p : Pattern} {forms : List (List Char)} {s : List Char}

theorem mem_of_spells (h : p.spellings? = some forms) (hplain : IsPlain s)
    (hspaced : isSpaced s = true) (hs : p.Spells s) : s ∈ forms := by
  induction p generalizing forms s with
  | one k =>
      obtain ⟨cs, hcs, rfl⟩ := Option.map_eq_some_iff.mp h
      obtain ⟨c, hc, rfl⟩ := hs
      obtain ⟨hsmall, hstray⟩ := hplain c (List.mem_singleton_self c)
      have hspace : isBlank c = true → c = ' ' := fun hblank =>
        ((isSpaced_cons_iff.mp hspaced).1 hblank).1
      exact List.mem_map_of_mem (CharClass.mem_choices hcs hsmall hstray hspace hc)
  | run k =>
      cases k with
      | blank =>
          rw [← Option.some.inj h, List.mem_singleton]
          rw [← List.append_nil s] at hspaced
          exact (eq_space_of_isSpaced hs.1 hs.2 hspaced).1
      | _ => cases h
  | seq p q ihp ihq =>
      obtain ⟨as, has, h⟩ := Option.bind_eq_some_iff.mp h
      obtain ⟨bs, hbs, h⟩ := Option.bind_eq_some_iff.mp h
      obtain ⟨a, b, ha, hb, rfl⟩ := hs
      rw [← Option.some.inj h, List.mem_flatMap]
      refine ⟨a, ihp has (hplain.of_subset (List.subset_append_left _ _))
        (isSpaced_of_append_left hspaced) ha, List.mem_map_of_mem ?_⟩
      exact ihq hbs (hplain.of_subset (List.subset_append_right _ _))
        (isSpaced_of_append_right hspaced) hb
  | alt p q ihp ihq =>
      obtain ⟨as, has, h⟩ := Option.bind_eq_some_iff.mp h
      obtain ⟨bs, hbs, h⟩ := Option.bind_eq_some_iff.mp h
      rw [← Option.some.inj h, List.mem_append]
      exact hs.imp (ihp has hplain hspaced) (ihq hbs hplain hspaced)
  | piece _ p ih => exact ih h hplain hspaced hs
  | here | edge | atStart | atEnd | notAhead _ | notBehind _ =>
      rw [← Option.some.inj h, List.mem_singleton]
      exact hs

/-- Whether the pattern has few spellings, and each of them has the character. -/
def needs (p : Pattern) (c : Char) : Bool :=
  p.spellings?.any fun forms => forms.all (·.contains c)

end Pattern

end Cardfolio
