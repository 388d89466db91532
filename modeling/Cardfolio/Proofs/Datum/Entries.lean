import Cardfolio.Datum.Basic
import Mathlib.Data.List.Nodup

/-!
# Named entries

An object, a row and a reward table are lists of named entries, and `putEntry` is the
only way in which they grow. It replaces an entry of the same name where there is one,
so looking a name up gives what was put there last, and no other name is touched.
-/

namespace Cardfolio.Datum

variable {α : Type _}

/-- Entries made from things with different names are found under these names. -/
theorem lookup_map_of_injective {κ : Type _} [BEq κ] [LawfulBEq κ] {β : Type _} {name : α → κ}
    (hname : ∀ x y, name x = name y → x = y) {value : α → β} {xs : List α} {x : α} (hx : x ∈ xs) :
    (xs.map fun y => (name y, value y)).lookup (name x) = some (value x) := by
  induction xs with
  | nil => cases hx
  | cons y xs ih =>
      rw [List.map_cons, List.lookup_cons]
      by_cases hxy : name x = name y
      · rw [hname x y hxy, beq_self_eq_true]
      · rw [beq_eq_false_iff_ne.mpr hxy]
        exact ih ((List.mem_cons.mp hx).resolve_left fun heq => hxy (heq ▸ rfl))

theorem lookup_putEntry_self (name : String) (value : α) (entries : List (String × α)) :
    (putEntry name value entries).lookup name = some value := by
  induction entries with
  | nil => rw [putEntry, List.lookup_cons_self]
  | cons e rest ih =>
      obtain ⟨other, old⟩ := e
      rw [putEntry]
      split
      · next heq => rw [heq, List.lookup_cons_self]
      · next hne =>
          rw [List.lookup_cons, beq_eq_false_iff_ne.mpr (Ne.symm hne)]
          exact ih

theorem lookup_putEntry_of_ne {name other : String} (h : other ≠ name) (value : α)
    (entries : List (String × α)) :
    (putEntry name value entries).lookup other = entries.lookup other := by
  induction entries with
  | nil =>
      rw [putEntry, List.lookup_cons, beq_eq_false_iff_ne.mpr h]
  | cons e rest ih =>
      obtain ⟨first, old⟩ := e
      rw [putEntry]
      split
      · next heq => rw [List.lookup_cons, List.lookup_cons, heq, beq_eq_false_iff_ne.mpr h]
      · rw [List.lookup_cons, List.lookup_cons, ih]

/-- What is put is there, and what is there was put or had been there. -/
theorem mem_putEntry {name : String} {value : α} {entries : List (String × α)} {e : String × α}
    (h : e ∈ putEntry name value entries) : e = (name, value) ∨ e ∈ entries := by
  induction entries with
  | nil => exact Or.inl (List.mem_singleton.mp h)
  | cons first rest ih =>
      obtain ⟨other, old⟩ := first
      rw [putEntry] at h
      split at h
      · next heq =>
          rcases List.mem_cons.mp h with rfl | h
          · exact Or.inl (by rw [heq])
          · exact Or.inr (List.mem_cons_of_mem _ h)
      · rcases List.mem_cons.mp h with rfl | h
        · exact Or.inr List.mem_cons_self
        · exact (ih h).imp_right (List.mem_cons_of_mem _)

theorem putEntry_eq_append {name : String} {entries : List (String × α)}
    (h : name ∉ entries.map Prod.fst) (value : α) :
    putEntry name value entries = entries ++ [(name, value)] := by
  induction entries with
  | nil => rfl
  | cons first rest ih =>
      obtain ⟨other, old⟩ := first
      rw [List.map_cons, List.mem_cons, not_or] at h
      rw [putEntry, if_neg (Ne.symm h.1), ih h.2, List.cons_append]

theorem names_putEntry_of_mem {name : String} {entries : List (String × α)}
    (h : name ∈ entries.map Prod.fst) (value : α) :
    (putEntry name value entries).map Prod.fst = entries.map Prod.fst := by
  induction entries with
  | nil => cases h
  | cons first rest ih =>
      obtain ⟨other, old⟩ := first
      rw [putEntry]
      split
      · rfl
      · next hne =>
          rw [List.map_cons, List.mem_cons] at h
          rw [List.map_cons, List.map_cons, ih (h.resolve_left (Ne.symm hne))]

/-- Entries have different names, and putting one more keeps them different. -/
theorem nodup_putEntry {name : String} {entries : List (String × α)}
    (h : (entries.map Prod.fst).Nodup) (value : α) :
    ((putEntry name value entries).map Prod.fst).Nodup := by
  by_cases hname : name ∈ entries.map Prod.fst
  · rw [names_putEntry_of_mem hname]
    exact h
  · rw [putEntry_eq_append hname, List.map_append]
    exact h.append (List.nodup_singleton name) (List.disjoint_singleton.mpr hname)

theorem mem_names_putEntry {name other : String} {value : α} {entries : List (String × α)} :
    other ∈ (putEntry name value entries).map Prod.fst ↔
      other ∈ entries.map Prod.fst ∨ name = other := by
  by_cases hname : name ∈ entries.map Prod.fst
  · rw [names_putEntry_of_mem hname]
    exact (or_iff_left_of_imp fun heq => heq ▸ hname).symm
  · rw [putEntry_eq_append hname, List.map_append, List.mem_append]
    exact or_congr_right (List.mem_singleton.trans eq_comm)

end Cardfolio.Datum
