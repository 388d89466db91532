import Cardfolio.Card.Alias

/-!
# Which alias counts

An alias that is put into a table replaces the one of the same name. So in a table that a list
of aliases has been put into, a name stands for what the last alias of this name says, and
without any for what it stood for before. The usual aliases are put into the table of the
canonical names, one after the other.
-/

namespace Cardfolio

theorem mem_of_lookup {α : Type _} {name : String} {value : α} {entries : List (String × α)}
    (h : entries.lookup name = some value) : (name, value) ∈ entries := by
  obtain ⟨_, _, rfl, _⟩ := List.lookup_eq_some_iff.mp h
  exact List.mem_append_right _ List.mem_cons_self

namespace AliasTable

variable (table : AliasTable) (name : List Char)

theorem lookup?_insert (key : String) (f : Field) : (table.insert key f).lookup? name
    = if String.ofList name = key then some f else table.lookup? name := by
  unfold lookup? insert
  rw [List.lookup_append]
  split
  · next h =>
      have hnone : (table.entries.filter (·.1 != key)).lookup (String.ofList name) = none := by
        rw [List.lookup_eq_none_iff]
        intro entry hentry
        rw [h, bne_comm]
        exact (List.mem_filter.mp hentry).2
      rw [hnone, h, Option.none_or, List.lookup_cons_self]
  · next h =>
      have hne : (String.ofList name == key) = false := beq_eq_false_iff_ne.mpr h
      rw [List.lookup_cons, hne, List.lookup_nil, Option.or_none]
      -- An entry that is left out is one for the alias, under which the name is not looked up.
      induction table.entries with
      | nil => rfl
      | cons entry entries ih =>
          by_cases hentry : entry.1 = key
          · rw [List.filter_cons_of_neg (by simp [hentry]), ih, List.lookup_cons, hentry, hne]
          · rw [List.filter_cons_of_pos (by simp [hentry]), List.lookup_cons, List.lookup_cons, ih]

theorem lookup?_foldl_insert (aliases : List (String × Field)) :
    (aliases.foldl (fun t entry => t.insert entry.1 entry.2) table).lookup? name
      = (aliases.reverse.lookup (String.ofList name)).or (table.lookup? name) := by
  induction aliases generalizing table with
  | nil => rfl
  | cons entry aliases ih =>
      rw [List.foldl_cons, ih, lookup?_insert, List.reverse_cons, List.lookup_append,
        Option.or_assoc]
      congr 1
      by_cases h : String.ofList name = entry.1
      · rw [if_pos h, h, List.lookup_cons_self, Option.some_or]
      · have hne : (String.ofList name == entry.1) = false := beq_eq_false_iff_ne.mpr h
        rw [if_neg h, List.lookup_cons, hne, List.lookup_nil, Option.none_or]

/-- The last of the usual aliases of a name says what it stands for, and otherwise the name is a
canonical one. -/
theorem lookup?_standard : standard.lookup? name
    = (usual.reverse.lookup (String.ofList name)).or (canonical.lookup? name) :=
  lookup?_foldl_insert canonical name usual

end AliasTable

end Cardfolio
