import Cardfolio.Proofs.Card.Names

/-!
# Canonical names that are overridden

A table of aliases starts from the canonical names, each for its own field. But an alias that is
a canonical name in normal form takes its place, like any other alias of the same name, and
nothing asks whether it is for the same field. So a canonical name always stands for some field,
and this is its own unless the last alias of this name is for another one.

A list of aliases is put into the table one by one, and the step that matters for a name is the
last one for it: `lookup?_foldlM` says so by induction from the first alias.
-/

namespace Cardfolio.AliasTable

/-- The last one of some aliases with this normal form. -/
def lastFor? (aliases : List (String × String)) (name : List Char) : Option (String × String) :=
  aliases.reverse.find? fun entry => Alias.normalize entry.1.toList == name

variable {aliases : List (String × String)} {table result : AliasTable} {name : List Char}
  {f : Field}

theorem lastFor?_cons (entry : String × String) :
    lastFor? (entry :: aliases) name = (lastFor? aliases name).or
      (if Alias.normalize entry.1.toList = name then some entry else none) := by
  unfold lastFor?
  rw [List.reverse_cons, List.find?_append, List.find?_singleton]
  simp only [beq_iff_eq]

theorem mem_of_lastFor? {entry : String × String} (h : lastFor? aliases name = some entry) :
    entry ∈ aliases :=
  List.mem_reverse.mp (List.mem_of_find?_eq_some h)

/-- In a table that aliases have been put into, a name stands for what the last one for it says,
and without any for what it stood for before. -/
theorem lookup?_foldlM (hresult : aliases.foldlM add table = .ok result) (name : List Char) :
    result.lookup? name = (lastFor? aliases name).elim (table.lookup? name)
      fun entry => Field.ofName? entry.2 := by
  induction aliases generalizing table with
  | nil => exact pure_eq_ok.mp hresult ▸ rfl
  | cons entry aliases ih =>
      rw [List.foldlM_cons] at hresult
      obtain ⟨next, hnext, hresult⟩ := bind_eq_ok.mp hresult
      obtain ⟨f, hf, rfl⟩ := add_eq_ok hnext
      rw [ih hresult, lastFor?_cons, lookup?_insert]
      cases lastFor? aliases name with
      | some last => rw [Option.some_or, Option.elim_some, Option.elim_some]
      | none =>
          rw [Option.none_or, Option.elim_none]
          by_cases hname : Alias.normalize entry.1.toList = name
          · rw [if_pos hname, if_pos (hname ▸ rfl), Option.elim_some, hf]
          · have hkey : String.ofList name ≠ String.ofList (Alias.normalize entry.1.toList) :=
              fun h => hname (String.ofList_injective h).symm
            rw [if_neg hname, if_neg hkey, Option.elim_none]

/-- Every alias that is accepted is for some field. -/
theorem exists_field_of_mem (hresult : aliases.foldlM add table = .ok result)
    {entry : String × String} (hentry : entry ∈ aliases) :
    ∃ f, Field.ofName? entry.2 = some f := by
  induction aliases generalizing table with
  | nil => cases hentry
  | cons first aliases ih =>
      rw [List.foldlM_cons] at hresult
      obtain ⟨next, hnext, hresult⟩ := bind_eq_ok.mp hresult
      rcases List.mem_cons.mp hentry with rfl | hentry
      · obtain ⟨f, hf, _⟩ := add_eq_ok hnext
        exact ⟨f, hf⟩
      · exact ih hresult hentry

theorem lookup?_canonical (f : Field) : canonical.lookup? f.name.toList = some f := by
  rw [isKeyed_canonical.lookup?_eq_some_iff, String.ofList_toList]
  exact List.mem_map_of_mem (Field.mem_all f)

/-- A canonical name is looked up as it is. -/
theorem resolve?_of_lookup? {g : Field} (h : table.lookup? f.name.toList = some g) :
    table.resolve? f.name = some g := by
  have hnormal : Alias.normalize f.name.toList = f.name.toList :=
    isKeyed_canonical.normal (f.name, f) (List.mem_map_of_mem (Field.mem_all f))
  have hblank : ¬(Text.strip f.name.toList).isEmpty = true := by
    cases f <;> decide +kernel
  rw [resolve?, if_neg hblank, hnormal]
  show (table.lookup? f.name.toList).or _ = some g
  rw [h, Option.some_or]

/-- A canonical name stands for some field in every table that can be made: for the one of the
last alias with this normal form, and for its own without any. -/
theorem resolve?_canonical (htable : ofList aliases = .ok table) (f : Field) :
    ∃ g, table.resolve? f.name = some g ∧
      g.name = ((lastFor? aliases f.name.toList).map (·.2)).getD f.name ∧
      (g = f ↔ ∀ entry, lastFor? aliases f.name.toList = some entry → entry.2 = f.name) := by
  have hlookup := lookup?_foldlM htable f.name.toList
  rw [lookup?_canonical] at hlookup
  cases hlast : lastFor? aliases f.name.toList with
  | none =>
      rw [hlast] at hlookup
      exact ⟨f, resolve?_of_lookup? hlookup, rfl, fun _ => nofun, fun _ => rfl⟩
  | some entry =>
      rw [hlast, Option.elim_some] at hlookup
      obtain ⟨g, hg⟩ := exists_field_of_mem htable (mem_of_lastFor? hlast)
      have hname : g.name = entry.2 := Field.name_of_ofName? hg
      refine ⟨g, resolve?_of_lookup? (hlookup.trans hg), hname, ?_, ?_⟩
      · rintro rfl _ h
        exact Option.some.inj h ▸ hname.symm
      · intro h
        exact Field.name_injective (hname.trans (h entry rfl))

theorem resolve?_canonical_creditLimit : ∃ table, ofList [("Credit-Limit", "apr")] = .ok table ∧
    ∃ g, table.resolve? Field.creditLimit.name = some g ∧ g.name = "apr" ∧
      ¬ g = Field.creditLimit := by
  have hlast : lastFor? [("Credit-Limit", "apr")] Field.creditLimit.name.toList
      = some ("Credit-Limit", "apr") := by decide +kernel
  have htable : ofList [("Credit-Limit", "apr")] = .ok (canonical.insert
      (String.ofList (Alias.normalize "Credit-Limit".toList)) .apr) := rfl
  obtain ⟨g, hg, hname, hself⟩ := resolve?_canonical htable .creditLimit
  rw [hlast] at hname hself
  refine ⟨_, htable, g, hg, hname, fun h => ?_⟩
  exact absurd (hself.mp h _ rfl) (by decide)

/-- A canonical name that does not stand for its own field. -/
theorem resolve?_apr_overridden :
    ∃ table, ofList [("apr", "issuer")] = .ok table ∧ table.resolve? "apr" = some .issuer :=
  ⟨_, rfl, by decide +kernel⟩

end Cardfolio.AliasTable
