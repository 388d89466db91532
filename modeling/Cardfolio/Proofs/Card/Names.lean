import Cardfolio.Proofs.Card.Aliases
import Cardfolio.Proofs.Success
import Cardfolio.Proofs.Text.Ends
import Cardfolio.Proofs.Text.Words
import Mathlib.Data.List.Nodup

/-!
# The names for a field

An alias table is read in two directions. A name leads to the field it stands for, as it is or
without its plural, and a field to the list of the names for it. The two directions agree
because the table holds names in normal form, none of them empty and each of them once: an
alias that is put into it is normalised first, and replaces the one of the same name.

So a name of the list is found as it is, and its plural never comes into play. Here it matters
that a normal form is its own normal form, also where lower-casing makes two letters of one.
-/

namespace Cardfolio

open Text

namespace Alias

variable {name : List Char}

theorem mem_normalize {c : Char} (h : c ∈ normalize name) :
    IsSmall c ∧ isSeparator c = false := by
  rcases mem_of_mem_joinRunsFrom (mem_of_mem_trim h) with rfl | ⟨h, hc⟩
  · exact ⟨⟨by decide, by decide, by decide +kernel⟩, by decide⟩
  · exact ⟨(mem_lowerAfter h).1, hc⟩

theorem isBlank_of_mem_normalize {c : Char} (h : c ∈ normalize name) : isBlank c = false :=
  (Bool.or_eq_false_iff.mp (mem_normalize h).2).1

theorem normalize_normalize (name : List Char) : normalize (normalize name) = normalize name := by
  have hstrip : strip (normalize name) = normalize name :=
    (isTrimmed_of_forall fun _ hc => isBlank_of_mem_normalize hc).trim_eq_self
  have hlower : lower (normalize name) = normalize name :=
    lower_eq_self fun _ hc => (mem_normalize hc).1
  have hjoin : joinRuns isSeparator '_' (normalize name) = normalize name :=
    joinRunsFrom_eq_self fun _ hc => (mem_normalize hc).2
  have htrim : trim (· == '_') (normalize name) = normalize name :=
    (isTrimmed_trim (· == '_') _).trim_eq_self
  rw [normalize, hstrip, hlower, hjoin, htrim]

/-- A text of blanks has an empty normal form. -/
theorem normalize_of_strip_eq_nil (h : strip name = []) : normalize name = [] := by
  rw [normalize, h]
  rfl

/-- What stands between the parts of a name. -/
def isJoint (c : Char) : Bool :=
  isSeparator c || c == '_'

theorem partsBy_joinRunsFrom (inRun : Bool) (cs : List Char) :
    partsBy (· == '_') (joinRunsFrom isSeparator '_' inRun cs) = partsBy isJoint cs := by
  have hpart : ∀ w, (∀ c ∈ w, isJoint c = false) →
      (∀ c ∈ w, isSeparator c = false) ∧ partsBy (· == '_') w = partsBy isJoint w := by
    intro w hw
    refine ⟨fun c hc => (Bool.or_eq_false_iff.mp (hw c hc)).1, ?_⟩
    cases w with
    | nil => rfl
    | cons c w =>
        have hne := List.cons_ne_nil c w
        rw [partsBy_of_forall hne hw,
          partsBy_of_forall hne fun d hd => (Bool.or_eq_false_iff.mp (hw d hd)).2]
  induction cs using induction_on_parts isJoint generalizing inRun with
  | part w hw =>
      obtain ⟨hsep, hparts⟩ := hpart w hw
      rw [joinRunsFrom_eq_self hsep, hparts]
  | gap w c rest hw hc ih =>
      obtain ⟨hsep, hparts⟩ := hpart w hw
      rw [joinRunsFrom_append hsep, partsBy_append_cons hc, joinRunsFrom]
      split
      · split
        · next hrun =>
            -- A joint stands here already, so the name has no other part in front of it.
            obtain rfl : w = [] := List.isEmpty_iff.mp (Bool.and_eq_true_iff.mp hrun).1
            exact ih true
        · rw [partsBy_append_cons rfl, ih true, hparts]
      · next hnot =>
          obtain rfl : c = '_' := beq_iff_eq.mp ((Bool.or_eq_true_iff.mp hc).resolve_left hnot)
          rw [partsBy_append_cons rfl, ih false, hparts]

/-- The normal form has the parts of the name. -/
theorem partsBy_normalize (name : List Char) :
    partsBy (· == '_') (normalize name) = partsBy isJoint (lower (strip name)) := by
  rw [normalize, partsBy_trim, joinRuns, partsBy_joinRunsFrom]

/-- The names that have a name for their singular. -/
def plurals (name : List Char) : List (List Char) :=
  [name, name ++ "s".toList, name ++ "es".toList, name.dropLast ++ "ies".toList]

theorem mem_plurals_singular (name : List Char) : name ∈ plurals (singular name) := by
  have hends : ∀ s : String, s.toList.isSuffixOf name = true → ∃ stem, name = stem ++ s.toList := by
    intro s hs
    obtain ⟨stem, rfl⟩ := List.isSuffixOf_iff_suffix.mp hs
    exact ⟨stem, rfl⟩
  unfold singular plurals
  dsimp only
  split
  · next h =>
      obtain ⟨stem, rfl⟩ := hends "ies" (Bool.and_eq_true_iff.mp h).1
      have hstem : (stem ++ "ies".toList).dropLast.dropLast.dropLast = stem := by
        simp
      rw [hstem, List.dropLast_concat]
      simp
  · split
    · next h =>
        obtain ⟨stem, rfl⟩ := hends "sses" h
        have hstem : (stem ++ "sses".toList).dropLast.dropLast ++ "es".toList
            = stem ++ "sses".toList := by
          simp
        rw [hstem]
        simp
    · split
      · next h =>
          obtain ⟨stem, rfl⟩ := hends "s" (Bool.and_eq_true_iff.mp (Bool.and_eq_true_iff.mp h).1).1
          have hstem : (stem ++ "s".toList).dropLast = stem := List.dropLast_concat
          rw [hstem]
          exact List.mem_cons_of_mem _ List.mem_cons_self
      · exact List.mem_cons_self

end Alias

namespace AliasTable

/-! ## Tables -/

/-- A table of normal forms, none of them empty and each of them once. -/
structure IsKeyed (table : AliasTable) : Prop where
  nodup : (table.entries.map (·.1)).Nodup
  normal : ∀ entry ∈ table.entries, Alias.normalize entry.1.toList = entry.1.toList
  notEmpty : ∀ entry ∈ table.entries, entry.1.toList ≠ []

variable {table : AliasTable} {f : Field}

theorem isKeyed_canonical : canonical.IsKeyed where
  nodup := by decide +kernel
  normal := by decide +kernel
  notEmpty := by decide +kernel

theorem mem_insert {key : String} {entry : String × Field}
    (h : entry ∈ (table.insert key f).entries) : entry ∈ table.entries ∨ entry = (key, f) := by
  rcases List.mem_append.mp h with h | h
  · exact Or.inl (List.mem_of_mem_filter h)
  · exact Or.inr (List.mem_singleton.mp h)

theorem IsKeyed.insert (h : table.IsKeyed) {name : List Char} (hname : Alias.normalize name ≠ []) :
    (table.insert (String.ofList (Alias.normalize name)) f).IsKeyed where
  nodup := by
    -- What has the same name leaves the table before the alias is put at its end.
    rw [AliasTable.insert, List.map_append]
    refine (h.nodup.sublist (List.filter_sublist.map _)).append (List.nodup_singleton _) ?_
    rw [List.map_singleton, List.disjoint_singleton]
    intro hmem
    obtain ⟨entry, hentry, heq⟩ := List.mem_map.mp hmem
    exact bne_iff_ne.mp (List.mem_filter.mp hentry).2 heq
  normal := by
    intro entry hentry
    rcases mem_insert hentry with hentry | rfl
    · exact h.normal entry hentry
    · rw [String.toList_ofList, Alias.normalize_normalize]
  notEmpty := by
    intro entry hentry
    rcases mem_insert hentry with hentry | rfl
    · exact h.notEmpty entry hentry
    · rwa [String.toList_ofList]

theorem add_eq_ok {entry : String × String} {result : AliasTable}
    (h : table.add entry = .ok result) :
    ∃ f, Field.ofName? entry.2 = some f ∧
      result = table.insert (String.ofList (Alias.normalize entry.1.toList)) f := by
  unfold add at h
  split at h
  · next f hf => exact ⟨f, hf, (Except.ok.inj h).symm⟩
  · cases h

theorem IsKeyed.foldlM {aliases : List (String × String)} {result : AliasTable}
    (h : table.IsKeyed) (hnames : ∀ entry ∈ aliases, Alias.normalize entry.1.toList ≠ [])
    (hresult : aliases.foldlM add table = .ok result) : result.IsKeyed := by
  induction aliases generalizing table with
  | nil => exact pure_eq_ok.mp hresult ▸ h
  | cons entry aliases ih =>
      obtain ⟨hentry, hrest⟩ := List.forall_mem_cons.mp hnames
      rw [List.foldlM_cons] at hresult
      obtain ⟨next, hnext, hresult⟩ := bind_eq_ok.mp hresult
      obtain ⟨f, _, rfl⟩ := add_eq_ok hnext
      exact ih (h.insert hentry) hrest hresult

/-- The usual aliases are the ones a table is made of when none are given. -/
theorem ofList_usual :
    ofList (usual.map fun entry => (entry.1, entry.2.name)) = .ok standard := by
  have hnormal : ∀ entry ∈ usual, Alias.normalize entry.1.toList = entry.1.toList := by
    decide +kernel
  unfold ofList standard
  generalize canonical = table
  revert hnormal
  induction usual generalizing table with
  | nil => exact fun _ => rfl
  | cons entry aliases ih =>
      intro hnormal
      obtain ⟨hentry, hrest⟩ := List.forall_mem_cons.mp hnormal
      have hadd : table.add (entry.1, entry.2.name) = .ok (table.insert entry.1 entry.2) := by
        rw [add, Field.ofName?_name, hentry, String.ofList_toList]
      rw [List.map_cons, List.foldlM_cons, hadd, List.foldl_cons]
      exact ih _ hrest

/-! ## Both directions -/

theorem mem_namesOf {name : String} : name ∈ table.namesOf f ↔ (name, f) ∈ table.entries := by
  rw [namesOf, Stable.sort_eq_mergeSort, (List.mergeSort_perm _ _).mem_iff, List.mem_map]
  constructor
  · rintro ⟨⟨name', f'⟩, hentry, rfl⟩
    obtain ⟨hmem, hf⟩ := List.mem_filter.mp hentry
    exact beq_iff_eq.mp hf ▸ hmem
  · intro hmem
    exact ⟨(name, f), List.mem_filter.mpr ⟨hmem, beq_self_eq_true f⟩, rfl⟩

/-- In a table with each name once, a lookup finds an entry wherever it stands. -/
theorem IsKeyed.lookup?_eq_some_iff (h : table.IsKeyed) {name : List Char} :
    table.lookup? name = some f ↔ (String.ofList name, f) ∈ table.entries := by
  rw [lookup?, List.lookup_eq_some_iff]
  constructor
  · rintro ⟨before, after, hentries, _⟩
    rw [hentries]
    exact List.mem_append_right before List.mem_cons_self
  · intro hmem
    obtain ⟨before, after, hentries⟩ := List.append_of_mem hmem
    refine ⟨before, after, hentries, fun entry hentry => ?_⟩
    have hnodup := h.nodup
    rw [hentries, List.map_append] at hnodup
    have hapart := (List.nodup_append'.mp hnodup).2.2 (List.mem_map_of_mem hentry)
    rw [bne_iff_ne]
    rintro heq
    exact hapart (heq ▸ List.mem_cons_self)

theorem IsKeyed.mem_namesOf_iff (h : table.IsKeyed) {name : List Char} :
    String.ofList name ∈ table.namesOf f ↔ table.lookup? name = some f := by
  rw [mem_namesOf, h.lookup?_eq_some_iff]

/-- A name for a field is found as it is. -/
theorem IsKeyed.resolve?_eq (h : table.IsKeyed) {name : String} (hname : name ∈ table.namesOf f) :
    table.resolve? name = some f := by
  have hentry := mem_namesOf.mp hname
  have hnormal : Alias.normalize name.toList = name.toList := h.normal (name, f) hentry
  have hfound : table.lookup? name.toList = some f := by
    rwa [h.lookup?_eq_some_iff, String.ofList_toList]
  have hblank : strip name.toList ≠ [] := by
    intro hstrip
    rw [Alias.normalize_of_strip_eq_nil hstrip] at hnormal
    exact h.notEmpty (name, f) hentry hnormal.symm
  have hnotBlank : ¬(strip name.toList).isEmpty = true := mt List.isEmpty_iff.mp hblank
  rw [resolve?, if_neg hnotBlank, hnormal]
  show (table.lookup? name.toList).or _ = some f
  rw [hfound, Option.some_or]

theorem IsKeyed.exists_name (h : table.IsKeyed) {text : String}
    (hf : table.resolve? text = some f) :
    String.ofList (Alias.normalize text.toList) ∈ table.namesOf f ∨
      String.ofList (Alias.singular (Alias.normalize text.toList)) ∈ table.namesOf f := by
  unfold resolve? at hf
  split at hf
  · cases hf
  · rw [h.mem_namesOf_iff, h.mem_namesOf_iff]
    exact (Option.or_eq_some_iff.mp hf).imp id And.right

theorem IsKeyed.namesOf_increasing (h : table.IsKeyed) (f : Field) :
    (table.namesOf f).Pairwise (· < ·) := by
  have hnodup : (table.namesOf f).Nodup := by
    rw [namesOf, Stable.sort_eq_mergeSort, (List.mergeSort_perm _ _).nodup_iff]
    exact h.nodup.sublist (List.filter_sublist.map _)
  have hsorted : (table.namesOf f).Pairwise (· ≤ ·) := by
    refine Stable.pairwise_sort (fun {a b} => ?_) String.le_trans String.le_total
    rw [Bool.not_eq_true', decide_eq_false_iff_not, String.not_lt]
  refine (hsorted.and hnodup).imp fun {a b} hab => ?_
  obtain ⟨hle, hne⟩ := hab
  exact String.not_le.mp fun hge => hne (String.le_antisymm hle hge)

/-- A name that the usual aliases know is one of them or a canonical name, or a plural. -/
theorem exists_entry_of_resolve? {name : String} (h : standard.resolve? name = some f) :
    ∃ entry ∈ usual ++ canonical.entries,
      entry.2 = f ∧ Alias.normalize name.toList ∈ Alias.plurals entry.1.toList := by
  have hentry : ∀ name : List Char, standard.lookup? name = some f →
      (String.ofList name, f) ∈ usual ++ canonical.entries := by
    intro name hname
    rw [lookup?_standard] at hname
    rcases Option.or_eq_some_iff.mp hname with hname | ⟨_, hname⟩
    · exact List.mem_append_left _ (List.mem_reverse.mp (mem_of_lookup hname))
    · exact List.mem_append_right _ (mem_of_lookup hname)
  unfold resolve? at h
  split at h
  · cases h
  · rcases Option.or_eq_some_iff.mp h with h | ⟨_, h⟩
    · refine ⟨_, hentry _ h, rfl, ?_⟩
      rw [String.toList_ofList]
      exact List.mem_cons_self
    · refine ⟨_, hentry _ h, rfl, ?_⟩
      rw [String.toList_ofList]
      exact Alias.mem_plurals_singular _

/-- What a value stands for and what the names of the fields are, put together. -/
structure IsConsistent (table : AliasTable) : Prop where
  canonical : ∀ value, table.resolveDatum? value = none ∨
    ∃ f ∈ Field.all, table.resolveDatum? value = some f
  found : ∀ f, ∀ name ∈ table.namesOf f, table.resolveDatum? (.text name) = some f
  listed : ∀ text f, table.resolveDatum? (.text text) = some f →
    String.ofList (Alias.normalize text.toList) ∈ table.namesOf f ∨
      String.ofList (Alias.singular (Alias.normalize text.toList)) ∈ table.namesOf f
  increasing : ∀ f, (table.namesOf f).Pairwise (· < ·)
  apart : ∀ f g, f ≠ g → (table.namesOf f).Disjoint (table.namesOf g)

/-- A table that was made of aliases, whichever they are, agrees with itself as long as no alias
is empty in normal form. -/
theorem isConsistent_of_ofList {aliases : List (String × String)}
    (htable : ofList aliases = .ok table)
    (hnames : ∀ entry ∈ aliases, Alias.normalize entry.1.toList ≠ []) : table.IsConsistent := by
  have hkeyed : table.IsKeyed := isKeyed_canonical.foldlM hnames htable
  refine ⟨fun value => ?_, fun f name hname => hkeyed.resolve?_eq hname,
    fun text f hf => hkeyed.exists_name hf, hkeyed.namesOf_increasing, fun f g hne name hf hg => ?_⟩
  · cases hvalue : table.resolveDatum? value with
    | none => exact Or.inl rfl
    | some f => exact Or.inr ⟨f, Field.mem_all f, rfl⟩
  · have hf := hkeyed.lookup?_eq_some_iff.mpr
      ((String.ofList_toList (s := name)).symm ▸ mem_namesOf.mp hf)
    have hg := hkeyed.lookup?_eq_some_iff.mpr
      ((String.ofList_toList (s := name)).symm ▸ mem_namesOf.mp hg)
    exact hne (Option.some.inj (hf.symm.trans hg))

theorem standard_isConsistent : standard.IsConsistent :=
  isConsistent_of_ofList ofList_usual (by decide +kernel)

end AliasTable

end Cardfolio
