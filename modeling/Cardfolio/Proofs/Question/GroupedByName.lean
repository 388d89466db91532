import Cardfolio.Proofs.Card.Names
import Cardfolio.Proofs.Question.GroupingPhrase
import Cardfolio.Proofs.Question.Nodes

/-!
# Grouping by the name of a field

Whatever is a name for a field can be grouped by: between the question and the table of names
stand the stop words and articles that a phrase loses, and the patterns that take the beginning of
a phrase for an issuer, a network or a card type. Neither gets in the way. The names that the
table knows are its entries and their plurals, so the parts of a name are among finitely many
lists, and these are gone through once: no part is an article or a stop word other than
`limit`, and where a name begins with what a pattern spells, it is a name for the field of the
pattern.

The exception is a name with the word `limit` behind its first one. A phrase ends there, so
`credit limit` is cut down to `credit`, which is no name.
-/

namespace Cardfolio

open Dictionary Pattern Text

namespace AliasTable

/-- No name has a part that a phrase ends at or begins with, but for the limit. -/
theorem reserved_not_mem_parts : ∀ entry ∈ usual ++ canonical.entries,
    ∀ name ∈ Alias.plurals entry.1.toList,
      ∀ w ∈ "by" :: "per" :: (GroupingPhrase.stopWords ++ GroupingPhrase.articles), w ≠ "limit" →
        w.toList ∉ partsBy (· == '_') name := by
  decide +kernel

/-- A name that begins like a phrase for one of the fields to group by is a name for this field. -/
theorem eq_name_of_groupField : ∀ entry ∈ usual ++ canonical.entries,
    ∀ name ∈ Alias.plurals entry.1.toList, ∀ group ∈ Vocabulary.groupFields,
      ∀ form ∈ group.2.spellings?.getD [],
        partsBy Alias.isJoint form <+: partsBy (· == '_') name → group.1 = entry.2.name := by
  decide +kernel

end AliasTable

theorem Vocabulary.groupFields_anchored : ∀ group ∈ groupFields,
    group.2.beginsAtStart = true ∧ group.2.endsAtEdge = true ∧ group.2.spellings?.isSome = true ∧
      ∀ form ∈ group.2.spellings?.getD [], form.reverse.head?.any isWordChar = true := by
  decide +kernel

theorem Vocabulary.field?_groupFields : ∀ group ∈ groupFields,
    ({} : Dictionary).field? group.1 = some group.1 := by
  simp only [Dictionary.field?, AliasTable.resolve?, AliasTable.lookup?_standard]
  decide

/-! ## The parts of a phrase -/

theorem Alias.mem_partsBy_isJoint {text w : List Char} (hw : w ∈ words text)
    (hjoint : ∀ c ∈ w, isJoint c = false) : w ∈ partsBy isJoint text := by
  have hwider : ∀ c, isBlank c = true → isJoint c = true := by
    intro c hc
    rw [isJoint, isSeparator, hc]
    rfl
  rw [partsBy_eq_flatMap hwider, List.mem_flatMap]
  refine ⟨w, hw, ?_⟩
  rw [partsBy_of_forall (ne_nil_of_mem_words hw) hjoint]
  exact List.mem_singleton_self w

namespace GroupingPhrase.IsWordy

variable {phrase : List Char} {f : Field}

theorem partsBy_normalize (h : IsWordy phrase) :
    partsBy (· == '_') (Alias.normalize phrase) = partsBy Alias.isJoint phrase := by
  have hstrip : strip phrase = phrase := h.trimmed.trim_eq_self
  rw [Alias.partsBy_normalize, hstrip, lower_eq_self fun c hc => (h.plain c hc).1]

/-- A phrase that a pattern for a field occurs in begins with the parts of one of its spellings. -/
theorem exists_form (h : IsWordy phrase) {group : String × Pattern}
    (hgroup : group ∈ Vocabulary.groupFields) (hoccurs : group.2.occursIn phrase = true) :
    ∃ form ∈ group.2.spellings?.getD [],
      partsBy Alias.isJoint form <+: partsBy Alias.isJoint phrase := by
  obtain ⟨hstart, hedge, hsome, hlast⟩ := Vocabulary.groupFields_anchored group hgroup
  obtain ⟨forms, hforms⟩ := Option.isSome_iff_exists.mp hsome
  rw [hforms, Option.getD_some] at hlast ⊢
  obtain ⟨left, s, right, htext, hstands⟩ := occursIn_iff_standsIn.mp hoccurs
  have hs : s ∈ forms := h.mem_spellings htext hforms hstands
  obtain ⟨c, hc, hword⟩ := (Option.any_eq_true ..).mp (hlast s hs)
  obtain ⟨rest, hreverse⟩ := List.head?_eq_some_iff.mp hc
  have hbehind := hstands.isEdge_behind hedge
  rw [hreverse] at hbehind
  have hright : ∀ d ∈ right.head?, Alias.isJoint d = true := by
    intro d hd
    have hblank := h.isBlank_of_stops (fun c hc => by simp [htext, hc])
      (stops_of_isEdge_behind hword hbehind) d hd
    rw [Alias.isJoint, Alias.isSeparator, hblank]
    rfl
  obtain rfl : left = [] := List.reverse_eq_nil_iff.mp (hstands.before_eq_nil hstart)
  refine ⟨s, hs, ?_⟩
  rw [htext, List.nil_append, partsBy_append_stop hright]
  exact List.prefix_append _ _

/-- The parts of a phrase that is a name are those of an entry or of its plural. -/
theorem exists_entry (h : IsWordy phrase)
    (hf : AliasTable.standard.resolve? (String.ofList phrase) = some f) :
    ∃ entry ∈ AliasTable.usual ++ AliasTable.canonical.entries, entry.2 = f ∧
      ∃ name ∈ Alias.plurals entry.1.toList,
        partsBy (· == '_') name = partsBy Alias.isJoint phrase := by
  obtain ⟨entry, hentry, heq, hname⟩ := AliasTable.exists_entry_of_resolve? hf
  rw [String.toList_ofList] at hname
  exact ⟨entry, hentry, heq, _, hname, h.partsBy_normalize⟩

theorem not_mem_words (h : IsWordy phrase)
    (hf : AliasTable.standard.resolve? (String.ofList phrase) = some f) :
    ∀ w ∈ "by" :: "per" :: (stopWords ++ articles), w ≠ "limit" → w.toList ∉ words phrase := by
  obtain ⟨entry, hentry, _, name, hname, hparts⟩ := h.exists_entry hf
  have hjoint : ∀ w ∈ "by" :: "per" :: (stopWords ++ articles),
      ∀ c ∈ w.toList, Alias.isJoint c = false := by
    decide
  intro w hw hne hmem
  refine AliasTable.reserved_not_mem_parts entry hentry name hname w hw hne ?_
  rw [hparts]
  exact Alias.mem_partsBy_isJoint hmem (hjoint w hw)

/-- A phrase that is a name is taken for the field that it is a name for. -/
theorem field?_grouping (h : IsWordy phrase) {text : List Char} (hphrase : find? text = some phrase)
    (hf : AliasTable.standard.resolve? (String.ofList phrase) = some f) :
    (Question.grouping? text).bind ({} : Dictionary).field? = some f.name := by
  have hgrouping : Question.grouping? text
      = some (((Vocabulary.groupFields.find? (·.2.occursIn phrase)).map (·.1)).getD
        (String.ofList phrase)) := by
    rw [Question.grouping?, hphrase, Option.bind_eq_bind, Option.bind_some]
    cases Vocabulary.groupFields.find? (·.2.occursIn phrase) with
    | none => rfl
    | some group => rfl
  rw [hgrouping, Option.bind_some]
  cases hfind : Vocabulary.groupFields.find? (·.2.occursIn phrase) with
  | none =>
      rw [Option.map_none, Option.getD_none, field?]
      exact congrArg (Option.map Field.name) hf
  | some group =>
      have hgroup := List.mem_of_find?_eq_some hfind
      have hoccurs : group.2.occursIn phrase = true :=
        List.find?_some (p := fun group : String × Pattern => group.2.occursIn phrase) hfind
      obtain ⟨form, hform, hprefix⟩ := h.exists_form hgroup hoccurs
      obtain ⟨entry, hentry, heq, name, hname, hparts⟩ := h.exists_entry hf
      rw [← hparts] at hprefix
      have hfield : group.1 = entry.2.name :=
        AliasTable.eq_name_of_groupField entry hentry name hname group hgroup form hform hprefix
      rw [Option.map_some, Option.getD_some, Vocabulary.field?_groupFields group hgroup, hfield,
        heq]

end GroupingPhrase.IsWordy

/-! ## Small words -/

/-- A word of small letters and underscores. -/
def IsSmallWord (w : List Char) : Prop :=
  w ≠ [] ∧ ∀ c ∈ w, c.isLower = true ∨ c = '_'

instance (w : List Char) : Decidable (IsSmallWord w) :=
  inferInstanceAs (Decidable (_ ∧ _))

theorem smallWord_ascii : ∀ n < 128, ((Char.ofNat n).isLower = true ∨ Char.ofNat n = '_') →
    isWordChar (Char.ofNat n) = true ∧ isBlank (Char.ofNat n) = false ∧
      isDecimalDigit (Char.ofNat n) = false := by
  decide +kernel

namespace IsSmallWord

variable {w : List Char} {ws : List (List Char)} {c : Char}

theorem classes (h : IsSmallWord w) (hc : c ∈ w) :
    isWordChar c = true ∧ isBlank c = false ∧ isDecimalDigit c = false := by
  have hlt : c.toNat < 128 := by
    rcases h.2 c hc with hlower | rfl
    · have := isLower_iff.mp hlower
      omega
    · decide
  have hascii := smallWord_ascii c.toNat hlt
  rw [Char.ofNat_toNat] at hascii
  exact hascii (h.2 c hc)

theorem isNormal (h : IsSmallWord w) : IsNormal w where
  plain c hc := by
    rcases h.2 c hc with hlower | rfl
    · exact isPlain_of_isLower hlower
    · exact ⟨⟨by decide, by decide, by decide +kernel⟩, by decide⟩
  trimmed := isTrimmed_of_forall fun _ hc => (h.classes hc).2.1
  spaced := isSpaced_of_forall fun _ hc => (h.classes hc).2.1

theorem words_intercalate (h : ∀ w ∈ ws, IsSmallWord w) : words ([' '].intercalate ws) = ws :=
  Text.words_intercalate fun w hw => ⟨(h w hw).1, fun _ hc => ((h w hw).classes hc).2.1⟩

theorem isNormal_intercalate (h : ∀ w ∈ ws, IsSmallWord w) : IsNormal ([' '].intercalate ws) := by
  induction ws with
  | nil => exact ⟨nofun, ⟨nofun, nofun⟩, rfl⟩
  | cons w ws ih =>
      obtain ⟨hw, hws⟩ := List.forall_mem_cons.mp h
      cases ws with
      | nil =>
          rw [List.intercalate_singleton]
          exact hw.isNormal
      | cons v ws =>
          have hne : [' '].intercalate (v :: ws) ≠ [] := by
            intro hnil
            have hwords := words_intercalate hws
            rw [hnil] at hwords
            cases hwords
          rw [List.intercalate_cons_cons, List.append_assoc]
          exact hw.isNormal.join hw.1 (ih hws) hne

/-- A text of small words has nothing but these words and spaces. -/
theorem mem_intercalate (hc : c ∈ [' '].intercalate ws) : c = ' ' ∨ ∃ w ∈ ws, c ∈ w := by
  induction ws with
  | nil => cases hc
  | cons w ws ih =>
      cases ws with
      | nil =>
          rw [List.intercalate_singleton] at hc
          exact Or.inr ⟨w, List.mem_cons_self, hc⟩
      | cons v ws =>
          rw [List.intercalate_cons_cons, List.append_assoc, List.mem_append] at hc
          rcases hc with hc | hc
          · exact Or.inr ⟨w, List.mem_cons_self, hc⟩
          · rcases List.mem_append.mp hc with hc | hc
            · exact Or.inl (List.mem_singleton.mp hc)
            · exact (ih hc).imp id fun ⟨u, hu, hc⟩ => ⟨u, List.mem_cons_of_mem w hu, hc⟩

/-- A text of small words is in normal form, and no character of it is a digit. -/
theorem isWordy_intercalate (h : ∀ w ∈ ws, IsSmallWord w) :
    GroupingPhrase.IsWordy ([' '].intercalate ws) where
  toIsNormal := isNormal_intercalate h
  wordy c hc := by
    rcases mem_intercalate hc with rfl | ⟨w, hw, hc⟩
    · exact Or.inr (by decide)
    · exact Or.inl ((h w hw).classes hc).1

theorem not_hasLongNumber (h : ∀ w ∈ ws, IsSmallWord w) :
    ¬ Question.HasLongNumber ([' '].intercalate ws) := by
  rintro ⟨run, hrun, hlength, hdigits⟩
  obtain ⟨c, run, rfl⟩ := List.exists_cons_of_length_pos (Nat.zero_lt_of_lt hlength)
  have hdigit := hdigits c List.mem_cons_self
  rcases mem_intercalate (hrun.subset List.mem_cons_self) with rfl | ⟨w, hw, hc⟩
  · cases hdigit
  · rw [((h w hw).classes hc).2.2] at hdigit
    cases hdigit

end IsSmallWord

/-! ## Questions -/

namespace Question

variable {settings : Settings} {front name : List (List Char)} {f : Field}

/-- Words in front of `by` that are none of those that would take it for themselves. -/
structure LeavesBy (front : List (List Char)) : Prop where
  small : ∀ w ∈ front, IsSmallWord w
  bare : ∀ w ∈ front, 'r' ∉ w
  notBy : "by".toList ∉ front

theorem LeavesBy.forall_small (hfront : LeavesBy front) (hname : ∀ w ∈ name, IsSmallWord w) :
    ∀ w ∈ front ++ "by".toList :: name, IsSmallWord w :=
  List.forall_mem_append.mpr ⟨hfront.small, List.forall_mem_cons.mpr ⟨by decide, hname⟩⟩

theorem field?_groupingBy (hfront : LeavesBy front) (hname : ∀ w ∈ name, IsSmallWord w)
    (hne : name ≠ [])
    (hf : AliasTable.standard.resolve? (String.ofList ([' '].intercalate name)) = some f)
    (hlimit : "limit".toList ∉ name.tail) :
    (grouping? ([' '].intercalate (front ++ "by".toList :: name))).bind ({} : Dictionary).field?
      = some f.name := by
  have hphrase := IsSmallWord.isWordy_intercalate hname
  have hwords := IsSmallWord.words_intercalate hname
  have hreserved := hphrase.not_mem_words hf
  rw [hwords] at hreserved
  have hsmall := hfront.forall_small hname
  have hasks : GroupingPhrase.AsksBy front name
      ([' '].intercalate (front ++ "by".toList :: name)) :=
    { IsSmallWord.isWordy_intercalate hsmall with
      words_eq := IsSmallWord.words_intercalate hsmall
      bare := hfront.bare
      single := ⟨hfront.notBy, hreserved "by" (by decide) (by decide)⟩
      noPer := hreserved "per" (by decide) (by decide) }
  have hstop : ∀ w ∈ GroupingPhrase.stopWords, w.toList ∉ name.tail := by
    intro w hw
    by_cases heq : w = "limit"
    · rwa [heq]
    · exact fun hmem => hreserved w (by simp [hw]) heq (List.mem_of_mem_tail hmem)
  have harticle : ∀ w ∈ GroupingPhrase.articles, w.toList ∉ name.head? := by
    intro w hw hmem
    have hnot : ∀ w ∈ GroupingPhrase.articles, w ≠ "limit" := by decide
    exact hreserved w (by simp [hw]) (hnot w hw) (List.mem_of_mem_head? hmem)
  rw [← hwords] at hstop harticle
  refine hphrase.field?_grouping ?_ hf
  rw [hasks.find?_eq hne]
  refine hphrase.trimmed?_eq ?_ hstop harticle
  intro hnil
  rw [hnil] at hwords
  exact hne hwords.symm

/-- A question of small words with a name for a field behind its `by` is read, and the query for it
groups by the field. -/
theorem exists_query_groupingBy (hfront : LeavesBy front) (hname : ∀ w ∈ name, IsSmallWord w)
    (hne : name ≠ [])
    (hf : AliasTable.standard.resolve? (String.ofList ([' '].intercalate name)) = some f)
    (hlimit : "limit".toList ∉ name.tail) {text : String}
    (htext : text.toList = [' '].intercalate (front ++ "by".toList :: name)) (dataset : Datum) :
    ∃ e q, read settings text = .ok e ∧ query {} dataset (.text text) (some e) = .ok q ∧
      q.grouping = some f.name := by
  have hsmall := hfront.forall_small hname
  have hnormal : IsNormal text.toList := htext ▸ IsSmallWord.isNormal_intercalate hsmall
  obtain ⟨e, he⟩ : ∃ e, read settings text = .ok e := by
    refine exists_read (fun c hc hmem => (hnormal.plain c hmem).2 hc) ?_
    rw [hnormal.normalize_eq, htext]
    exact IsSmallWord.not_hasLongNumber hsmall
  obtain ⟨comparisons, hreads⟩ := exists_reads he
  refine ⟨e, _, he, hreads.query_eq dataset text, ?_⟩
  show e.grouping.bind _ = _
  rw [(mentions_of_read he).grouping, hnormal.normalize_eq, htext]
  exact field?_groupingBy hfront hname hne hf hlimit

/-- Whatever names a field, in words of small letters, can be grouped by, if `limit` is none of
its words but the first. -/
theorem query_groups_by_name {ws : List String} (hws : ∀ w ∈ ws, IsSmallWord w.toList)
    (hf : AliasTable.standard.resolve? (" ".intercalate ws) = some f) (hlimit : "limit" ∉ ws.tail)
    (settings : Settings) (dataset : Datum) :
    ∃ e q, read settings ("total balance by " ++ " ".intercalate ws) = .ok e ∧
      query {} dataset (.text ("total balance by " ++ " ".intercalate ws)) (some e) = .ok q ∧
      q.grouping = some f.name := by
  have hname : (" ".intercalate ws).toList = [' '].intercalate (ws.map String.toList) :=
    String.toList_intercalate ..
  have hne : ws ≠ [] := by
    rintro rfl
    have hnone : AliasTable.standard.resolve? (" ".intercalate []) = none := rfl
    cases hnone.symm.trans hf
  have hnames : ∀ w ∈ ws.map String.toList, IsSmallWord w := List.forall_mem_map.mpr hws
  have hfront : LeavesBy ["total".toList, "balance".toList] := ⟨by decide, by decide, by decide⟩
  have htext : ("total balance by " ++ " ".intercalate ws).toList
      = [' '].intercalate
        (["total".toList, "balance".toList] ++ "by".toList :: ws.map String.toList) := by
    obtain ⟨w, ws, rfl⟩ := List.exists_cons_of_ne_nil hne
    rw [String.toList_append, hname]
    simp [List.intercalate_cons_cons]
  refine exists_query_groupingBy hfront hnames (mt List.map_eq_nil_iff.mp hne) ?_ ?_ htext dataset
  · rw [← hname, String.ofList_toList]
    exact hf
  · rw [← List.map_tail]
    intro hmem
    obtain ⟨w, hw, heq⟩ := List.mem_map.mp hmem
    exact hlimit (String.toList_inj.mp heq ▸ hw)

theorem query_groups_by_name_annualFees :
    (∀ w ∈ ["annual", "fees"], IsSmallWord w.toList) ∧
      AliasTable.standard.resolve? (" ".intercalate ["annual", "fees"]) = some .annualFee ∧
      "limit" ∉ ["annual", "fees"].tail ∧
      ∃ e q, read {} "total balance by annual fees" = .ok e ∧
        query {} .null (.text "total balance by annual fees") (some e) = .ok q ∧
        q.grouping = some "annual_fee" := by
  have hf :
      AliasTable.standard.resolve? (" ".intercalate ["annual", "fees"]) = some .annualFee := by
    simp only [AliasTable.resolve?, AliasTable.lookup?_standard]
    decide
  exact ⟨by decide, hf, by decide, query_groups_by_name (by decide) hf (by decide) {} .null⟩

/-- A name that `limit` comes second in is cut short. -/
theorem query_cuts_creditLimit :
    (∀ w ∈ ["credit", "limit"], IsSmallWord w.toList) ∧ "by" ∉ ["credit", "limit"] ∧
      "per" ∉ ["credit", "limit"] ∧
      AliasTable.standard.resolve? (" ".intercalate ["credit", "limit"]) = some .creditLimit ∧
      ∃ e q, read {} "total balance by credit limit" = .ok e ∧
        query {} .null (.text "total balance by credit limit") (some e) = .ok q ∧
        q.grouping = none := by
  refine ⟨by decide, by decide, by decide, ?_, ?_⟩
  · simp only [AliasTable.resolve?, AliasTable.lookup?_standard]
    decide
  · obtain ⟨e, he⟩ : ∃ e, read {} "total balance by credit limit" = .ok e :=
      exists_read_of_short (by decide) (by decide +kernel)
    obtain ⟨comparisons, hreads⟩ := exists_reads he
    have hgrouping : e.grouping = some "credit" := by
      rw [(mentions_of_read he).grouping]
      decide +kernel
    refine ⟨e, _, he, hreads.query_eq .null _, ?_⟩
    show e.grouping.bind _ = none
    rw [hgrouping, Option.bind_some]
    simp only [Dictionary.field?, AliasTable.resolve?, AliasTable.lookup?_standard]
    decide

end Question

end Cardfolio
