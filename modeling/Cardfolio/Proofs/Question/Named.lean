import Cardfolio.Proofs.Question.Written

/-!
# The names that a question gives

Questions are read with one set of tables and fields are looked up in another, so a name that
the first give and the second does not know would be dropped in silence. There is no such name:
a property comes from a rule, a field of different values from a pattern or is the issuer, and
each of these is a name for a field. What is compared is a phrase of the text, but in a text
of small letters without a stray one it can only be a phrase of the table, whatever blanks stood
in it.

So a query says all that its question says, with three exceptions. A merchant is no field of a
card, a grouping phrase is taken as it stands and may mean nothing, and a figure other than a
count needs a field.
-/

namespace Cardfolio

open Dictionary Pattern Text

namespace Vocabulary

theorem field?_attributeRules : ∀ rule ∈ attributeRules,
    (({} : Dictionary).field? rule.property).isSome = true := by
  simp only [Dictionary.field?, AliasTable.resolve?, AliasTable.lookup?_standard]
  decide

theorem field?_distinctFields : ∀ entry ∈ distinctFields,
    (({} : Dictionary).field? entry.1).isSome = true := by
  simp only [Dictionary.field?, AliasTable.resolve?, AliasTable.lookup?_standard]
  decide

theorem isKnown_figures : ∀ entry ∈ figures, entry.1.isKnown = true := by
  decide

end Vocabulary

/-- A name that the usual aliases know. -/
def NamesField (name : String) : Prop :=
  (({} : Dictionary).field? name).isSome = true

theorem namesField_iff {name : String} :
    NamesField name ↔ ∃ field, ({} : Dictionary).field? name = some field :=
  Option.isSome_iff_exists

theorem namesField_issuer : NamesField "issuer" :=
  namesField_iff.mpr ⟨_, field?_issuer⟩

/-! ## What is read -/

namespace Question

theorem namesField_of_property? {text : List Char} {name : String}
    (h : property? text = some name) : NamesField name := by
  unfold property? at h
  split at h
  · cases h
  · obtain ⟨rule, hrule, rfl⟩ := Option.map_eq_some_iff.mp h
    exact Vocabulary.field?_attributeRules rule (List.mem_of_find?_eq_some hrule)

/-- The choice of what begins first is one of the choices. -/
theorem foldl_first_mem {named : List (String × Nat)} (first : String × Nat) :
    named.foldl (fun best x => if x.2 < best.2 then x else best) first ∈ first :: named := by
  induction named generalizing first with
  | nil => exact List.mem_cons_self
  | cons x named ih =>
      rw [List.foldl_cons]
      split
      · exact List.mem_cons_of_mem _ (ih x)
      · rcases List.mem_cons.mp (ih first) with h | h
        · rw [h]
          exact List.mem_cons_self
        · exact List.mem_cons_of_mem _ (List.mem_cons_of_mem _ h)

theorem exists_of_firstNamed {fields : List (String × Pattern)} {text : List Char} {name : String}
    (h : firstNamed fields text = some name) : ∃ entry ∈ fields, entry.1 = name := by
  unfold firstNamed at h
  dsimp only at h
  split at h
  · cases h
  · next first rest hnamed =>
      have hmem : rest.foldl (fun best x => if x.2 < best.2 then x else best) first
          ∈ first :: rest := foldl_first_mem first
      rw [← hnamed] at hmem
      obtain ⟨entry, hentry, heq⟩ := List.mem_filterMap.mp hmem
      obtain ⟨m, _, heq⟩ := Option.map_eq_some_iff.mp heq
      refine ⟨entry, hentry, ?_⟩
      rw [← Option.some.inj h, ← heq]

theorem namesField_of_distinct? {text : List Char} {wish : DistinctWish}
    (h : distinct? text = some wish) : ∀ name ∈ wish.field, NamesField name := by
  unfold distinct? at h
  split at h
  · obtain rfl := Option.some.inj h
    intro name hname
    obtain rfl := Option.some.inj hname
    cases hnamed : firstNamed Vocabulary.distinctFields text with
    | none => exact namesField_issuer
    | some name =>
        obtain ⟨entry, hentry, rfl⟩ := exists_of_firstNamed hnamed
        exact Vocabulary.field?_distinctFields entry hentry
  · cases h

/-- A figure is one that there is, and of a property if of anything. -/
theorem namesField_of_figure? {text masked : List Char} {wish : Aggregation}
    (h : figure? text masked = some wish) :
    wish.operation.isKnown = true ∧ ∀ name ∈ wish.field, NamesField name := by
  obtain ⟨⟨operation, m⟩, hfound, h⟩ := Option.bind_eq_some_iff.mp h
  obtain ⟨entry, hentry, hfound⟩ := List.exists_of_findSome?_eq_some hfound
  obtain ⟨_, _, hfound⟩ := Option.map_eq_some_iff.mp hfound
  have hknown : operation.isKnown = true :=
    (Prod.mk.inj hfound).1 ▸ Vocabulary.isKnown_figures entry hentry
  dsimp only at h
  split at h
  · cases h
  · split at h
    · rw [← Option.some.inj h]
      exact ⟨hknown, nofun⟩
    · rw [← Option.some.inj h]
      exact ⟨hknown, fun name hname => namesField_of_property? hname⟩

end Question

/-- What is compared is a phrase of the table. -/
theorem Condition.subject_mem_comparedFields {text : List Char} (htext : IsPlain text)
    {comparisons : List Condition} (h : Condition.comparisons text = .ok comparisons)
    {c : Condition} (hc : c ∈ comparisons) : c.subject ∈ Vocabulary.comparedFields := by
  obtain ⟨m, hm, hok⟩ := exists_of_mem_comparisons h hc
  have hmem : respaced (m.pieceText "field") ∈ Vocabulary.comparedFields :=
    respaced_pieceText_mem htext hm (by decide)
      (fun q hq => by simpa [Vocabulary.parts_comparison] using hq) (by decide)
      Vocabulary.isPhrase_comparedFields
  obtain ⟨found, _, hok⟩ := bind_eq_ok.mp hok
  split at hok
  · cases hok
  · dsimp only at hok
    split at hok
    · cases hok
    · rw [← Option.some.inj (Except.ok.inj hok)]
      exact hmem

/-- All names in what has been read are names for fields, but for merchants and for the
phrase to group by, and all operators compare. -/
structure Entities.IsMapped (e : Entities) : Prop where
  property : ∀ name ∈ e.property, NamesField name
  operation : ∀ wish ∈ e.figure, wish.operation.isKnown = true
  figure : ∀ wish ∈ e.figure, ∀ name ∈ wish.field, NamesField name
  distinct : ∀ wish ∈ e.distinct, ∀ name ∈ wish.field, NamesField name
  operator : ∀ c ∈ e.conditions, ∃ comparison : Comparison, comparison.symbol = c.operator
  subject : ∀ c ∈ e.conditions, c.kind ≠ .merchant → NamesField c.subject

namespace Question

variable {settings : Settings} {text : String} {e : Entities}

theorem Reads.operator {text : List Char} {comparisons : List Condition}
    (h : Reads text comparisons e) :
    ∀ c ∈ e.conditions, ∃ comparison : Comparison, comparison.symbol = c.operator := by
  intro c hc
  cases h.isOfForm c hc with
  | comparison =>
      have hmem := h.mem_comparisons hc rfl
      obtain ⟨comparison, _, hsymbol, _⟩ := Condition.exists_comparison h.compared hmem
      exact ⟨comparison, hsymbol⟩
  | network => exact ⟨.equals, rfl⟩
  | issuer => exact ⟨.contains, rfl⟩
  | category => exact ⟨.contains, rfl⟩
  | merchant => exact ⟨.contains, rfl⟩

theorem Reads.subject {text : List Char} (htext : IsPlain text) {comparisons : List Condition}
    (h : Reads text comparisons e) :
    ∀ c ∈ e.conditions, c.kind ≠ .merchant → NamesField c.subject := by
  intro c hc hkind
  cases h.isOfForm c hc with
  | comparison =>
      have hmem := h.mem_comparisons hc rfl
      exact field?_comparedFields _ (Condition.subject_mem_comparedFields htext h.compared hmem)
  | network => exact namesField_iff.mpr ⟨_, field?_cardNetwork _⟩
  | issuer => exact namesField_issuer
  | category => exact namesField_iff.mpr ⟨_, field?_category⟩
  | merchant => exact (hkind rfl).elim

theorem isPlain_normalize (hstray : ∀ c ∈ strayLetters, c ∉ text.toList) :
    IsPlain (normalize text.toList) :=
  fun _ hc => ⟨(mem_normalize hc).1, fun hmem => hstray _ hmem ((mem_normalize hc).2 hmem)⟩

theorem isMapped_of_read (hstray : ∀ c ∈ strayLetters, c ∉ text.toList)
    (h : read settings text = .ok e) : e.IsMapped := by
  obtain ⟨comparisons, hreads⟩ := exists_reads h
  obtain ⟨hproperty, hdistinct, _, masked, hfigure⟩ := mentions_of_read h
  exact {
    property := fun name hname => namesField_of_property? (hproperty ▸ hname)
    operation := fun wish hwish => (namesField_of_figure? (hfigure ▸ hwish)).1
    figure := fun wish hwish => (namesField_of_figure? (hfigure ▸ hwish)).2
    distinct := fun wish hwish => namesField_of_distinct? (hdistinct ▸ hwish)
    operator := hreads.operator
    subject := hreads.subject (isPlain_normalize hstray) }

end Question

/-! ## What is in the query -/

/-- The query says what the question says, field by field. What it leaves out are merchants,
phrases to group by that are no names, and figures that need a field and have none. -/
structure Question.Says (q : Query) (e : Entities) : Prop where
  sorting : ∀ property ∈ e.property, ∀ modifier ∈ e.modifier,
    ∀ direction ∈ direction? modifier, ∃ field,
      ({} : Dictionary).field? property = some field ∧ q.sorting = some { field, direction }
  figure : ∀ wish ∈ e.figure, q.aggregations = [] ↔ wish.operation ≠ .count ∧ wish.field = none
  grouping : ∀ phrase ∈ e.grouping, q.grouping = none ↔ ¬ NamesField phrase
  distinct : ∀ wish ∈ e.distinct, q.distinct ≠ none
  balance : ∀ b ∈ e.balance, .clause (balanceFilter b) ∈ q.filters
  condition : ∀ c ∈ e.conditions, (∃ f ∈ q.filters, c.EndsIn {} f) ↔ c.kind ≠ .merchant

namespace Entities.IsMapped

variable {e : Entities}

theorem sorting_eq (h : e.IsMapped) {property modifier : String} {direction : Direction}
    (hproperty : e.property = some property) (hmodifier : e.modifier = some modifier)
    (hdirection : direction? modifier = some direction) :
    ∃ field, ({} : Dictionary).field? property = some field ∧
      ({} : Dictionary).sorting e.property e.modifier = some { field, direction } := by
  obtain ⟨field, hfield⟩ := namesField_iff.mp (h.property property hproperty)
  refine ⟨field, hfield, ?_⟩
  rw [hproperty, hmodifier, sorting]
  simp only [Option.bind_eq_bind, Option.bind_some, hdirection, hfield]
  rfl

theorem figures_eq_nil_iff (h : e.IsMapped) {wish : Aggregation} (hwish : e.figure = some wish) :
    ({} : Dictionary).figures e.figure = [] ↔ wish.operation ≠ .count ∧ wish.field = none := by
  have hknown := h.operation wish hwish
  have hfield := h.figure wish hwish
  obtain ⟨operation, field⟩ := wish
  rw [hwish]
  unfold figures
  split
  · next heq => cases heq
  · next heq =>
      obtain ⟨rfl, _⟩ := Aggregation.mk.inj (Option.some.inj heq)
      cases hknown
  · next heq =>
      obtain ⟨rfl, _⟩ := Aggregation.mk.inj (Option.some.inj heq)
      exact ⟨nofun, fun ⟨hcount, _⟩ => (hcount rfl).elim⟩
  · next operation' field' _ hcount heq =>
      obtain ⟨rfl, rfl⟩ := Aggregation.mk.inj (Option.some.inj heq)
      cases field with
      | none => exact ⟨fun _ => ⟨fun h => hcount h, rfl⟩, fun _ => rfl⟩
      | some name =>
          obtain ⟨canonical, hcanonical⟩ := namesField_iff.mp (hfield name rfl)
          rw [Option.bind_some, hcanonical]
          exact ⟨nofun, nofun⟩

theorem distinct_ne_none (h : e.IsMapped) {wish : DistinctWish} (hwish : e.distinct = some wish) :
    e.distinct.bind ({} : Dictionary).distinct ≠ none := by
  have hnamed : NamesField ((wish.field.filter (!·.isEmpty)).getD "issuer") := by
    cases hname : wish.field.filter (!·.isEmpty) with
    | none => exact namesField_issuer
    | some name => exact h.distinct wish hwish name (Option.filter_eq_some_iff.mp hname).1
  obtain ⟨field, hfield⟩ := namesField_iff.mp hnamed
  rw [hwish]
  show (({} : Dictionary).field? _).map _ ≠ none
  rw [hfield]
  exact nofun

end Entities.IsMapped

namespace Question

variable {settings : Settings} {text : String} {e : Entities}

/-- A condition ends in a filter unless it is about a merchant. -/
theorem Reads.exists_filter_iff {text : List Char} {comparisons : List Condition}
    (h : Reads text comparisons e) (hmapped : e.IsMapped) {c : Condition}
    (hc : c ∈ e.conditions) : (∃ f ∈ filtersOf e, c.EndsIn {} f) ↔ c.kind ≠ .merchant := by
  have hform := h.isOfForm c hc
  constructor
  · rintro ⟨_, _, field, hfield, _⟩ hkind
    cases hform with
    | merchant => cases field?_merchant.symm.trans hfield
    | _ => cases hkind
  · intro hkind
    have hmappable : ({} : Dictionary).Mappable c :=
      ⟨hmapped.operator c hc, namesField_iff.mp (hmapped.subject c hc hkind)⟩
    obtain ⟨field, hfield, halternative⟩ :=
      Condition.mem_alternatives_of_mappable hform hmappable
    have hrun : c ∈ (runs e.conditions e.connections).flatten := by
      rw [flatten_runs]
      exact hc
    obtain ⟨run, hrun, hcrun⟩ := List.mem_flatten.mp hrun
    have hclause := List.mem_flatMap.mpr ⟨c, hcrun, halternative⟩
    obtain ⟨f, hf⟩ := exists_mem_filterOf (List.ne_nil_of_mem hclause)
    exact ⟨f, mem_filtersOf hrun hf, field, hfield, (offers_iff hf).mpr hclause⟩

/-- In every question of ASCII letters and signs that can be read, all names but merchants and
grouping phrases are names for fields, and its query says all the rest. -/
theorem query_says_question (hascii : ∀ c ∈ text.toList, c.toNat < 128)
    (h : read settings text = .ok e) (dataset : Datum) :
    e.IsMapped ∧ ∃ q, query {} dataset (.text text) (some e) = .ok q ∧ Says q e := by
  have hstray : ∀ c ∈ strayLetters, c ∉ text.toList := by
    intro c hc hmem
    have hbeyond : ∀ c ∈ strayLetters, 128 ≤ c.toNat := by decide
    exact absurd (hascii c hmem) (Nat.not_lt.mpr (hbeyond c hc))
  have hmapped := isMapped_of_read hstray h
  obtain ⟨comparisons, hreads⟩ := exists_reads h
  refine ⟨hmapped, _, hreads.query_eq dataset text, ?_⟩
  exact {
    sorting := fun property hproperty modifier hmodifier direction hdirection =>
      hmapped.sorting_eq hproperty hmodifier hdirection
    figure := fun wish hwish => hmapped.figures_eq_nil_iff hwish
    grouping := by
      intro phrase hphrase
      show e.grouping.bind _ = none ↔ _
      rw [Option.mem_def.mp hphrase, Option.bind_some, NamesField, Bool.not_eq_true,
        Option.isSome_eq_false_iff, Option.isNone_iff_eq_none]
    distinct := fun wish hwish => hmapped.distinct_ne_none hwish
    balance := by
      intro b hb
      refine List.mem_append_left _ (Option.mem_toList.mpr ?_)
      rw [Option.mem_def.mp hb]
      rfl
    condition := fun c hc => hreads.exists_filter_iff hmapped hc }

theorem query_says_question_chaseAndTarget :
    (∀ c ∈ "total balance over 500 at target for chase".toList, c.toNat < 128) ∧
      ∃ e q, read {} "total balance over 500 at target for chase" = .ok e ∧ e.IsMapped ∧
        query {} .null (.text "total balance over 500 at target for chase") (some e) = .ok q ∧
        Says q e := by
  have hascii : ∀ c ∈ "total balance over 500 at target for chase".toList, c.toNat < 128 := by
    decide
  obtain ⟨e, he⟩ : ∃ e, read {} "total balance over 500 at target for chase" = .ok e :=
    exists_read_of_short (by decide) (by decide +kernel)
  obtain ⟨hmapped, q, hq, hsays⟩ := query_says_question hascii he .null
  exact ⟨hascii, e, q, he, hmapped, hq, hsays⟩

end Question

end Cardfolio
