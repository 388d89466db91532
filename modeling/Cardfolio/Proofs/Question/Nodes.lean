import Cardfolio.Proofs.Question.Canonical
import Cardfolio.Proofs.Question.Conditions
import Cardfolio.Proofs.Question.Sources
import Mathlib.Data.List.Nodup

/-!
# Which conditions share a filter

A card has one issuer and one network, so two conditions on either can only be
alternatives. Neighbours of one such kind are, and this file says how far that carries:
two conditions of the kind end in one filter of the query exactly when all neighbours on
the way from the one to the other are alternatives. A condition of another kind in
between, without a word for alternatives on either side of it, separates them, and then
both are asked for.

A filter is made from a run, and it offers the clause of each condition of its run and
no clause of another network or issuer. That is because a clause about a network or an
issuer tells which condition it comes from: the further clauses of an issuer that is a
network too are under names that no other condition has. The runs are the conditions,
cut into pieces, so no condition is in two of them.
-/

namespace Cardfolio

open Dictionary

/-- The filter is the clause, or offers it among alternatives. -/
def Filter.Offers (f : Filter) (clause : Clause) : Prop :=
  f = .clause clause ∨ ∃ cs : List Clause, f = .group .any (cs.map .clause) ∧ clause ∈ cs

theorem Filter.clause_injective : Function.Injective Filter.clause :=
  fun _ _ h => Filter.clause.inj h

theorem Dictionary.offers_iff {clauses : List Clause} {f : Filter} (hf : f ∈ filterOf clauses)
    {clause : Clause} : f.Offers clause ↔ clause ∈ clauses := by
  match clauses, hf with
  | [c], hf =>
      obtain rfl := List.mem_singleton.mp hf
      rw [List.mem_singleton]
      constructor
      · rintro (h | ⟨_, h, _⟩)
        · exact (Filter.clause.inj h).symm
        · cases h
      · rintro rfl
        exact Or.inl rfl
  | first :: second :: rest, hf =>
      obtain rfl := List.mem_singleton.mp hf
      constructor
      · rintro (h | ⟨cs, h, hmem⟩)
        · cases h
        · rw [List.map_injective_iff.mpr Filter.clause_injective (Filter.group.inj h).2]
          exact hmem
      · exact fun h => Or.inr ⟨_, rfl, h⟩

theorem Dictionary.exists_mem_filterOf {clauses : List Clause} (h : clauses ≠ []) :
    ∃ f, f ∈ filterOf clauses := by
  match clauses, h with
  | [c], _ => exact ⟨_, List.mem_singleton_self _⟩
  | first :: second :: rest, _ => exact ⟨_, List.mem_singleton_self _⟩

theorem Dictionary.filterOf_pairwise (clauses : List Clause) (r : Filter → Filter → Prop) :
    (filterOf clauses).Pairwise r := by
  match clauses with
  | [] => exact .nil
  | [_] => exact List.pairwise_singleton _ _
  | _ :: _ :: _ => exact List.pairwise_singleton _ _

/-- The condition ends in the filter, which offers the clause that the condition stands
for. -/
def Condition.EndsIn (d : Dictionary) (c : Condition) (f : Filter) : Prop :=
  ∃ field, d.field? c.subject = some field ∧
    f.Offers { field, operator := c.operator, value := c.value }

/-- Among some filters, the one at a position is the only one in which the condition
ends. -/
def Condition.HasNode (d : Dictionary) (filters : List Filter) (c : Condition) (n : Nat) : Prop :=
  ∀ m, m = n ↔ ∃ f, filters[m]? = some f ∧ c.EndsIn d f

theorem exists_place {α : Type _} {xs : List α} {p : α → Prop} (hmem : ∃ x ∈ xs, p x)
    (hone : xs.Pairwise fun x y => ¬ (p x ∧ p y)) :
    ∃ n : Nat, ∀ m, m = n ↔ ∃ x, xs[m]? = some x ∧ p x := by
  obtain ⟨x, hx, hp⟩ := hmem
  obtain ⟨n, hn⟩ := List.mem_iff_getElem?.mp hx
  refine ⟨n, fun m => ⟨fun h => ⟨x, h ▸ hn, hp⟩, ?_⟩⟩
  rintro ⟨y, hm, hp'⟩
  obtain ⟨hn', rfl⟩ := List.getElem?_eq_some_iff.mp hn
  obtain ⟨hm', rfl⟩ := List.getElem?_eq_some_iff.mp hm
  rw [List.pairwise_iff_getElem] at hone
  rcases Nat.lt_trichotomy m n with h | h | h
  · exact (hone m n hm' hn' h ⟨hp', hp⟩).elim
  · exact h
  · exact (hone n m hn' hm' h ⟨hp, hp'⟩).elim

/-! ## Where a clause comes from -/

namespace Dictionary

variable {d : Dictionary} {c : Condition} {clause : Clause}

theorem mem_alternatives (hissuer : c.kind = .issuer → ∃ s, c.value = .text s)
    (h : clause ∈ d.alternatives c) :
    ∃ field, d.field? c.subject = some field ∧
      (clause = { field, operator := c.operator, value := c.value } ∨
        ∃ name network, c.kind = .issuer ∧ c.value = .text name ∧
          d.issuerNetworks.lookup name = some network ∧
          (clause = { field, operator := c.operator, value := .text network } ∧
              network ≠ name ∨
            ∃ other, d.field? "card_network" = some other ∧
              clause = { field := other, operator := "==", value := .text network })) := by
  by_cases hmappable : d.Mappable c
  · obtain ⟨_, field, hfield⟩ := id hmappable
    obtain ⟨network, hof, hspec⟩ :=
      networkOf?_spec fun hkind => obstacle?_of_text (hissuer hkind)
    rw [alternatives_eq (clausesOf_of_mappable hmappable hfield hof)] at h
    refine ⟨field, hfield, (List.mem_cons.mp h).imp id fun h => ?_⟩
    cases network with
    | none => cases h
    | some network =>
        obtain ⟨name, hkind, hname, hlookup⟩ := (hspec network).mp rfl
        refine ⟨name, network, hkind, hname, hlookup, ?_⟩
        rcases List.mem_append.mp h with h | h
        · left
          split at h
          · cases h
          · next hspelling =>
              refine ⟨List.mem_singleton.mp h, ?_⟩
              rintro rfl
              rw [hname] at hspelling
              exact hspelling (beq_self_eq_true _)
        · right
          split at h
          · next other hother => exact ⟨other, hother, List.mem_singleton.mp h⟩
          · cases h
  · rw [alternatives_eq (clausesOf_of_not_mappable hmappable)] at h
    cases h

/-- A condition that names no further network stands for its own clause. -/
theorem alternatives_of_networkOf? {field : String}
    (hsymbol : ∃ comparison : Comparison, comparison.symbol = c.operator)
    (hfield : d.field? c.subject = some field) (hof : d.networkOf? c = .ok none) :
    d.alternatives c = [{ field, operator := c.operator, value := c.value }] :=
  alternatives_eq (clausesOf_of_mappable ⟨hsymbol, field, hfield⟩ hfield hof)

theorem field?_issuer : ({} : Dictionary).field? "issuer" = some "issuer" := by
  simp only [field?, AliasTable.resolve?, AliasTable.lookup?_standard]
  decide

theorem field?_category : ({} : Dictionary).field? "category" = some "reward_structure" := by
  simp only [field?, AliasTable.resolve?, AliasTable.lookup?_standard]
  decide

theorem field?_merchant : ({} : Dictionary).field? "merchant" = none := by
  simp only [field?, AliasTable.resolve?, AliasTable.lookup?_standard]
  decide

end Dictionary

namespace Vocabulary

/-- Only the issuer itself has a name that is also the spelling of its network. -/
theorem eq_of_network_eq_issuer : ∀ issuer ∈ issuers, ∀ entry ∈ issuerNetworks,
    entry.2 = issuer.2 → entry.1 = issuer.2 := by
  decide

theorem network_ne_of_pure : ∀ network ∈ pureNetworks, ∀ entry ∈ issuerNetworks,
    entry.2 ≠ network.2 := by
  decide

end Vocabulary

namespace Condition

variable {c c' : Condition}

theorem IsOfForm.text_of_issuer (h : c.IsOfForm) (hkind : c.kind = .issuer) :
    ∃ s, c.value = .text s := by
  cases h with
  | issuer _ => exact ⟨_, rfl⟩
  | _ => cases hkind

theorem IsRepeat.symm (h : c.IsRepeat c') : c'.IsRepeat c where
  kind := h.kind.symm
  subject := h.subject.symm
  operator := h.operator.symm
  value := by
    have hvalue := h.value
    generalize c.value = v, c'.value = w at hvalue
    cases hvalue with
    | refl => exact .refl _
    | numbers hsame => exact .numbers (Number.same_symm hsame)

/-- A clause about an issuer comes from a condition that says the same. -/
theorem isRepeat_of_issuer {p : Pattern} {s : String} {span : Span}
    (hs : (p, s) ∈ Vocabulary.issuers) (h : c'.IsOfForm)
    (hmem : { field := "issuer", operator := "=", value := .text s } ∈
      ({} : Dictionary).alternatives c') :
    IsRepeat { kind := .issuer, subject := "issuer", operator := "=", value := .text s, span }
      c' := by
  obtain ⟨field, hfield, hown | ⟨name, network, hkind, hname, hlookup, hother⟩⟩ :=
    mem_alternatives h.text_of_issuer hmem
  · obtain ⟨rfl, hoperator, hvalue⟩ := Clause.mk.inj hown
    cases h with
    | comparison => cases hvalue
    | network _ =>
        exact absurd (Option.some.inj ((field?_cardNetwork _).symm.trans hfield)) (by decide)
    | issuer _ => exact ⟨rfl, rfl, hoperator, hvalue ▸ .refl _⟩
    | category => exact absurd (Option.some.inj (field?_category.symm.trans hfield)) (by decide)
    | merchant => cases field?_merchant.symm.trans hfield
  · rcases hother with ⟨hclause, hne⟩ | ⟨_, _, hclause⟩
    · obtain ⟨_, _, hvalue⟩ := Clause.mk.inj hclause
      obtain rfl := Datum.text.inj hvalue
      have hentry := mem_of_lookup hlookup
      exact (hne (Vocabulary.eq_of_network_eq_issuer _ hs _ hentry rfl).symm).elim
    · obtain ⟨_, hoperator, _⟩ := Clause.mk.inj hclause
      exact absurd hoperator (by decide)

/-- A clause about a network that is no issuer comes from a condition that says the same. -/
theorem isRepeat_of_network {p : Pattern} {s : String} {span : Span}
    (hs : (p, s) ∈ Vocabulary.pureNetworks) (h : c'.IsOfForm)
    (hmem : { field := "card_network", operator := "==", value := .text s } ∈
      ({} : Dictionary).alternatives c') :
    IsRepeat { kind := .network, subject := "card_network", operator := "==",
               value := .text s, span } c' := by
  obtain ⟨field, hfield, hown | ⟨name, network, hkind, hname, hlookup, hother⟩⟩ :=
    mem_alternatives h.text_of_issuer hmem
  · obtain ⟨rfl, hoperator, hvalue⟩ := Clause.mk.inj hown
    cases h with
    | comparison => cases hvalue
    | network _ => exact ⟨rfl, rfl, hoperator, hvalue ▸ .refl _⟩
    | issuer _ => exact absurd (Option.some.inj (field?_issuer.symm.trans hfield)) (by decide)
    | category => exact absurd (Option.some.inj (field?_category.symm.trans hfield)) (by decide)
    | merchant => cases field?_merchant.symm.trans hfield
  · have hentry := mem_of_lookup hlookup
    have hvalue : network = s := by
      rcases hother with ⟨hclause, _⟩ | ⟨_, _, hclause⟩
      · exact (Datum.text.inj (Clause.mk.inj hclause).2.2).symm
      · exact (Datum.text.inj (Clause.mk.inj hclause).2.2).symm
    exact (Vocabulary.network_ne_of_pure _ hs _ hentry hvalue).elim

/-- A clause about the network or the issuer of a condition comes from one that says the
same. -/
theorem isRepeat_of_mem_alternatives (hform : c.IsOfForm) (hsingle : c.kind.isSingle = true)
    (hform' : c'.IsOfForm) {field : String}
    (hfield : ({} : Dictionary).field? c.subject = some field)
    (hmem : { field, operator := c.operator, value := c.value } ∈
      ({} : Dictionary).alternatives c') : c.IsRepeat c' := by
  cases hform with
  | network hs =>
      obtain rfl := Option.some.inj ((field?_cardNetwork _).symm.trans hfield)
      exact isRepeat_of_network hs hform' hmem
  | issuer hs =>
      obtain rfl := Option.some.inj (field?_issuer.symm.trans hfield)
      exact isRepeat_of_issuer hs hform' hmem
  | _ => cases hsingle

/-- A condition that stands for something has its own clause among its alternatives. -/
theorem mem_alternatives_of_mappable {d : Dictionary} (hform : c.IsOfForm) (h : d.Mappable c) :
    ∃ field, d.field? c.subject = some field ∧
      { field, operator := c.operator, value := c.value } ∈ d.alternatives c := by
  obtain ⟨_, field, hfield⟩ := id h
  obtain ⟨network, hof, _⟩ :=
    networkOf?_spec fun hkind => obstacle?_of_text (hform.text_of_issuer hkind)
  refine ⟨field, hfield, ?_⟩
  rw [alternatives_eq (clausesOf_of_mappable h hfield hof)]
  exact List.mem_cons_self

/-- A condition on a network or an issuer has its own clause among its alternatives. -/
theorem exists_mem_alternatives (hform : c.IsOfForm) (hsingle : c.kind.isSingle = true) :
    ∃ field, ({} : Dictionary).field? c.subject = some field ∧
      { field, operator := c.operator, value := c.value } ∈
        ({} : Dictionary).alternatives c := by
  refine mem_alternatives_of_mappable hform ?_
  cases hform with
  | network _ => exact ⟨⟨.equals, rfl⟩, _, field?_cardNetwork _⟩
  | issuer _ => exact ⟨⟨.contains, rfl⟩, _, field?_issuer⟩
  | _ => cases hsingle

/-- An issuer that is no network stands for its own clause. -/
theorem alternatives_of_issuer {s : String} {span : Span}
    (h : ({} : Dictionary).issuerNetworks.lookup s = none) :
    ({} : Dictionary).alternatives
        { kind := .issuer, subject := "issuer", operator := "=", value := .text s, span } =
      [{ field := "issuer", operator := "=", value := .text s }] :=
  alternatives_of_networkOf? ⟨.contains, rfl⟩ field?_issuer
    ((networkOf?_of_issuer rfl rfl).trans (congrArg Except.ok h))

theorem alternatives_of_network {s : String} {span : Span} :
    ({} : Dictionary).alternatives
        { kind := .network, subject := "card_network", operator := "==", value := .text s,
          span } =
      [{ field := "card_network", operator := "==", value := .text s }] :=
  alternatives_of_networkOf? ⟨.equals, rfl⟩ (field?_cardNetwork _)
    (networkOf?_of_ne_issuer (show ConditionKind.network ≠ .issuer from nofun))

end Condition

namespace Dictionary

/-- The runs are the conditions, cut into pieces. -/
theorem flatten_runs (conditions : List Condition) (connections : List Logic) :
    (runs conditions connections).flatten = conditions := by
  induction conditions generalizing connections with
  | nil => rfl
  | cons c rest ih =>
      have hrest := ih connections.tail
      rw [runs]
      split
      · next hnil =>
          rw [hnil] at hrest
          rw [← hrest]
          rfl
      · next run others hruns =>
          rw [hruns] at hrest
          split
          · rw [List.flatten_cons, List.cons_append, ← List.flatten_cons, hrest]
          · rw [List.flatten_cons, hrest]
            rfl

/-- The filters of the runs, one run after the other. -/
def runFilters (d : Dictionary) (e : Entities) : List Filter :=
  ((runs e.conditions e.connections).map fun run => filterOf (run.flatMap d.alternatives)).flatten

theorem clausesOf_eq {d : Dictionary} {c : Condition}
    (hissuer : c.kind = .issuer → c.value.obstacle? = none) :
    d.clausesOf c = .ok (d.alternatives c) := by
  obtain ⟨clauses, hclauses, _⟩ := exists_clausesOf (d := d) hissuer
  rw [alternatives_eq hclauses]
  exact hclauses

/-- The filters of the runs are all the filters of the conditions. -/
theorem conditionFilters_eq {d : Dictionary} {e : Entities}
    (hissuer : ∀ c ∈ e.conditions, c.kind = .issuer → c.value.obstacle? = none) :
    d.conditionFilters e.conditions e.connections = .ok (d.runFilters e) := by
  refine bind_eq_ok.mpr ⟨_, mapM_eq_ok_map fun run hrun => ?_, rfl⟩
  refine bind_eq_ok.mpr ⟨_, mapM_eq_ok_map fun c hc => clausesOf_eq (hissuer c ?_), rfl⟩
  rw [← flatten_runs e.conditions e.connections]
  exact List.mem_flatten.mpr ⟨run, hrun, hc⟩

end Dictionary

namespace Condition

/-- Two neighbours are alternatives: both are of one kind of which a card has only one, or the
text between them says so. -/
def AreAlternatives (text : List Char) (a b : Condition) : Prop :=
  a.kind.isSingle = true ∧ a.kind = b.kind ∨
    Vocabulary.alternative.occursIn
      ((text.drop a.span.stop).take (b.span.start - a.span.stop)) = true

theorem connection_eq_any_iff {text : List Char} {a b : Condition} :
    connection text a b = .any ↔ AreAlternatives text a b := by
  unfold connection AreAlternatives
  dsimp only
  split
  · next h => exact ⟨fun _ => Or.inr h, fun _ => rfl⟩
  · next hnone =>
      rw [or_iff_left hnone, ← beq_iff_eq (a := a.kind), ← Bool.and_eq_true]
      split
      · next h => exact ⟨fun _ => h, fun _ => rfl⟩
      · next h => exact ⟨nofun, fun h' => (h h').elim⟩

theorem getElem?_connections {text : List Char} {conditions : List Condition} {k : Nat}
    {a b : Condition} (ha : conditions[k]? = some a) (hb : conditions[k + 1]? = some b) :
    (connections text conditions)[k]? = some (connection text a b) := by
  have htail : conditions.tail[k]? = some b := by
    rw [List.getElem?_tail]
    exact hb
  have hzip : (conditions.zip conditions.tail)[k]? = some (a, b) :=
    List.getElem?_zip_eq_some.mpr ⟨ha, htail⟩
  unfold connections
  rw [List.getElem?_map, hzip]
  rfl

end Condition

/-! ## What has been read -/

namespace Question.Reads

variable {text : List Char} {comparisons : List Condition} {e : Entities}

theorem obstacle?_of_issuer (h : Reads text comparisons e) :
    ∀ c ∈ e.conditions, c.kind = .issuer → c.value.obstacle? = none := by
  intro c hc hkind
  exact obstacle?_of_text ((h.isOfForm c hc).text_of_issuer hkind)

theorem nodup (h : Reads text comparisons e) : e.conditions.Nodup := by
  refine h.inOrder.increasing.imp ?_
  rintro a b hlt rfl
  exact Nat.lt_irrefl _ hlt

/-- No condition repeats another. -/
theorem eq_of_isRepeat (h : Reads text comparisons e) {a b : Condition}
    (ha : a ∈ e.conditions) (hb : b ∈ e.conditions) (hrepeat : a.IsRepeat b) : a = b := by
  have hdifferent := h.inOrder.different
  refine List.Pairwise.forall_of_forall_of_flip (R := fun a b => a.IsRepeat b → a = b)
    (fun _ _ _ => rfl) ?_ ?_ ha hb hrepeat
  · exact hdifferent.imp fun hne hrepeat => (hne hrepeat).elim
  · exact hdifferent.imp fun hne hrepeat => (hne hrepeat.symm).elim

theorem subset_of_mem_runs {run : List Condition}
    (hrun : run ∈ runs e.conditions e.connections) : run ⊆ e.conditions := by
  intro c hc
  rw [← flatten_runs e.conditions e.connections]
  exact List.mem_flatten.mpr ⟨run, hrun, hc⟩

/-- The filter of a run takes in the networks and issuers of the run and no others. -/
theorem endsIn_iff (h : Reads text comparisons e) {run : List Condition}
    (hrun : run ∈ runs e.conditions e.connections) {f : Filter}
    (hf : f ∈ filterOf (run.flatMap ({} : Dictionary).alternatives)) {c : Condition}
    (hc : c ∈ e.conditions) (hsingle : c.kind.isSingle = true) : c.EndsIn {} f ↔ c ∈ run := by
  constructor
  · rintro ⟨field, hfield, hoffers⟩
    obtain ⟨c', hc', hmem⟩ := List.mem_flatMap.mp ((offers_iff hf).mp hoffers)
    have hc'' := subset_of_mem_runs hrun hc'
    rw [h.eq_of_isRepeat hc hc'' (Condition.isRepeat_of_mem_alternatives (h.isOfForm c hc)
      hsingle (h.isOfForm c' hc'') hfield hmem)]
    exact hc'
  · intro hmem
    obtain ⟨field, hfield, halternative⟩ :=
      Condition.exists_mem_alternatives (h.isOfForm c hc) hsingle
    exact ⟨field, hfield, (offers_iff hf).mpr (List.mem_flatMap.mpr ⟨c, hmem, halternative⟩)⟩

/-- A run with a network or an issuer has a filter. -/
theorem exists_filter (h : Reads text comparisons e) {run : List Condition} {c : Condition}
    (hc : c ∈ e.conditions) (hsingle : c.kind.isSingle = true) (hmem : c ∈ run) :
    ∃ f, f ∈ filterOf (run.flatMap ({} : Dictionary).alternatives) := by
  obtain ⟨_, _, halternative⟩ := Condition.exists_mem_alternatives (h.isOfForm c hc) hsingle
  exact exists_mem_filterOf
    (List.ne_nil_of_mem (List.mem_flatMap.mpr ⟨c, hmem, halternative⟩))

theorem runFilters_pairwise (h : Reads text comparisons e) {c : Condition}
    (hc : c ∈ e.conditions) (hsingle : c.kind.isSingle = true) :
    (({} : Dictionary).runFilters e).Pairwise fun f g => ¬ (c.EndsIn {} f ∧ c.EndsIn {} g) := by
  have hnodup := h.nodup
  rw [← flatten_runs e.conditions e.connections, List.nodup_flatten] at hnodup
  unfold runFilters
  rw [List.pairwise_flatten]
  constructor
  · intro filters hfilters
    obtain ⟨run, _, rfl⟩ := List.mem_map.mp hfilters
    exact filterOf_pairwise _ _
  · rw [List.pairwise_map]
    refine hnodup.2.imp_of_mem fun {run run'} hrun hrun' hdisjoint f hf g hg hboth => ?_
    exact hdisjoint ((h.endsIn_iff hrun hf hc hsingle).mp hboth.1)
      ((h.endsIn_iff hrun' hg hc hsingle).mp hboth.2)

/-- A stretch holds the conditions at its positions. -/
theorem mem_stretch_iff_place (h : Reads text comparisons e) {first last i : Nat} {c : Condition}
    (hc : e.conditions[i]? = some c) :
    c ∈ stretch e.conditions first last ↔ first ≤ i ∧ i ≤ last := by
  rw [mem_stretch_iff]
  constructor
  · rintro ⟨k, hfirst, hlast, hk⟩
    obtain ⟨hlt, _⟩ := List.getElem?_eq_some_iff.mp hc
    obtain rfl := (List.getElem?_inj hlt h.nodup).mp (hc.trans hk.symm)
    exact ⟨hfirst, hlast⟩
  · rintro ⟨hfirst, hlast⟩
    exact ⟨i, hfirst, hlast, hc⟩

/-- Two conditions are in one run when all neighbours on the way are alternatives. -/
theorem mem_run_iff (h : Reads text comparisons e) {run : List Condition}
    (hrun : run ∈ runs e.conditions e.connections) {i j : Nat} {a b : Condition} (hij : i < j)
    (ha : e.conditions[i]? = some a) (hb : e.conditions[j]? = some b) (hmem : a ∈ run) :
    b ∈ run ↔ ∀ k x y, i ≤ k → k < j → e.conditions[k]? = some x →
      e.conditions[k + 1]? = some y → Condition.AreAlternatives text x y := by
  obtain ⟨first, last, hisRun, rfl⟩ := mem_runs_iff.mp hrun
  obtain ⟨hfirst, hlast⟩ := (h.mem_stretch_iff_place ha).mp hmem
  have hconnection : ∀ {k x y}, e.conditions[k]? = some x → e.conditions[k + 1]? = some y →
      (e.connections[k]? = some .any ↔ Condition.AreAlternatives text x y) := by
    intro k x y hx hy
    rw [h.connections, Condition.getElem?_connections hx hy, Option.some.injEq,
      Condition.connection_eq_any_iff]
  rw [h.mem_stretch_iff_place hb]
  constructor
  · rintro ⟨_, hj⟩ k x y hk hkj hx hy
    exact (hconnection hx hy).mp (hisRun.joined k (by omega) (by omega))
  · intro hjoined
    refine ⟨by omega, ?_⟩
    by_contra hj
    obtain ⟨hlt, _⟩ := List.getElem?_eq_some_iff.mp hb
    have hx : e.conditions[last]? = some e.conditions[last] := List.getElem?_eq_getElem _
    have hy : e.conditions[last + 1]? = some e.conditions[last + 1] := List.getElem?_eq_getElem _
    rcases hisRun.ends with hend | hend
    · omega
    · exact hend ((hconnection hx hy).mpr (hjoined last _ _ hlast (by omega) hx hy))

end Question.Reads

/-! ## The query -/

namespace Question

/-- The filter of the balance takes in no network and no issuer. -/
theorem not_endsIn_balanceFilter {c : Condition} (hform : c.IsOfForm)
    (hsingle : c.kind.isSingle = true) (b : BalanceFilter) :
    ¬ c.EndsIn {} (.clause (balanceFilter b)) := by
  rintro ⟨field, _, hclause | ⟨_, hgroup, _⟩⟩
  · have hvalue : (balanceFilter b).value = c.value :=
      congrArg Clause.value (Filter.clause.inj hclause)
    cases hform with
    | network _ => cases b <;> cases hvalue
    | issuer _ => cases b <;> cases hvalue
    | _ => cases hsingle
  · cases hgroup

/-- The filters of a query: the one of the balance, and those of the runs. -/
def filtersOf (e : Entities) : List Filter :=
  (e.balance.map fun b => .clause (balanceFilter b)).toList ++ ({} : Dictionary).runFilters e

section

variable {text : List Char} {comparisons : List Condition} {e : Entities} {c : Condition}

theorem Reads.not_endsIn_balance (h : Reads text comparisons e) (hc : c ∈ e.conditions)
    (hsingle : c.kind.isSingle = true) {f : Filter}
    (hf : f ∈ (e.balance.map fun b => Filter.clause (balanceFilter b)).toList) :
    ¬ c.EndsIn {} f := by
  obtain ⟨b, _, rfl⟩ := Option.map_eq_some_iff.mp (Option.mem_toList.mp hf)
  exact not_endsIn_balanceFilter (h.isOfForm c hc) hsingle b

/-- A filter in which a network or an issuer ends is that of its run. -/
theorem Reads.exists_run (h : Reads text comparisons e) (hc : c ∈ e.conditions)
    (hsingle : c.kind.isSingle = true) {f : Filter} (hf : f ∈ filtersOf e)
    (hends : c.EndsIn {} f) :
    ∃ run ∈ runs e.conditions e.connections,
      f ∈ filterOf (run.flatMap ({} : Dictionary).alternatives) ∧ c ∈ run := by
  rcases List.mem_append.mp hf with hf | hf
  · exact (h.not_endsIn_balance hc hsingle hf hends).elim
  · obtain ⟨filters, hfilters, hf⟩ := List.mem_flatten.mp hf
    obtain ⟨run, hrun, rfl⟩ := List.mem_map.mp hfilters
    exact ⟨run, hrun, hf, (h.endsIn_iff hrun hf hc hsingle).mp hends⟩

/-- The query of what has been read. -/
theorem Reads.query_eq (h : Reads text comparisons e) (dataset : Datum) (s : String) :
    query {} dataset (.text s) (some e) = .ok { Query.ofDataset dataset with
      filters := filtersOf e
      sorting := ({} : Dictionary).sorting e.property e.modifier
      aggregations := ({} : Dictionary).figures e.figure
      grouping := e.grouping.bind ({} : Dictionary).field?
      distinct := e.distinct.bind ({} : Dictionary).distinct } :=
  bind_eq_ok.mpr ⟨_, bind_eq_ok.mpr ⟨_, conditionFilters_eq h.obstacle?_of_issuer, rfl⟩,
    bind_eq_ok.mpr ⟨(), rfl, rfl⟩⟩

/-- What has been read has a query with these filters. -/
theorem Reads.exists_query (h : Reads text comparisons e) (dataset : Datum) (s : String) :
    ∃ q, query {} dataset (.text s) (some e) = .ok q ∧ q.filters = filtersOf e :=
  ⟨_, h.query_eq dataset s, rfl⟩

theorem mem_filtersOf {run : List Condition} (hrun : run ∈ runs e.conditions e.connections)
    {f : Filter} (hf : f ∈ filterOf (run.flatMap ({} : Dictionary).alternatives)) :
    f ∈ filtersOf e :=
  List.mem_append_right _ (List.mem_flatten.mpr ⟨_, List.mem_map.mpr ⟨run, hrun, rfl⟩, hf⟩)

theorem Reads.exists_hasNode (h : Reads text comparisons e) (hc : c ∈ e.conditions)
    (hsingle : c.kind.isSingle = true) : ∃ n, c.HasNode {} (filtersOf e) n := by
  refine exists_place ?_ (List.pairwise_append.mpr ⟨?_, h.runFilters_pairwise hc hsingle, ?_⟩)
  · have hmem : c ∈ (runs e.conditions e.connections).flatten := by
      rw [flatten_runs]
      exact hc
    obtain ⟨run, hrun, hcrun⟩ := List.mem_flatten.mp hmem
    obtain ⟨f, hf⟩ := h.exists_filter hc hsingle hcrun
    exact ⟨f, mem_filtersOf hrun hf, (h.endsIn_iff hrun hf hc hsingle).mpr hcrun⟩
  · cases e.balance with
    | none => exact .nil
    | some b => exact List.pairwise_singleton _ _
  · intro f hf g _ hboth
    exact h.not_endsIn_balance hc hsingle hf hboth.1

/-- Two conditions on networks, or on issuers, share a filter when they are in one run. -/
theorem Reads.hasNode_eq_iff (h : Reads text comparisons e) {a b : Condition}
    (ha : a ∈ e.conditions) (hsingle : a.kind.isSingle = true) (hb : b ∈ e.conditions)
    (hsingle' : b.kind.isSingle = true) {m n : Nat} (hm : a.HasNode {} (filtersOf e) m)
    (hn : b.HasNode {} (filtersOf e) n) :
    m = n ↔ ∃ run ∈ runs e.conditions e.connections, a ∈ run ∧ b ∈ run := by
  constructor
  · rintro rfl
    obtain ⟨f, hf, haf⟩ := (hm m).mp rfl
    obtain ⟨g, hg, hbg⟩ := (hn m).mp rfl
    obtain rfl := Option.some.inj (hf.symm.trans hg)
    obtain ⟨run, hrun, hfrun, hmem⟩ := h.exists_run ha hsingle (List.mem_of_getElem? hf) haf
    exact ⟨run, hrun, hmem, (h.endsIn_iff hrun hfrun hb hsingle').mp hbg⟩
  · rintro ⟨run, hrun, hmem, hmem'⟩
    obtain ⟨f, hf⟩ := h.exists_filter ha hsingle hmem
    obtain ⟨k, hk⟩ := List.mem_iff_getElem?.mp (mem_filtersOf hrun hf)
    rw [← (hm k).mpr ⟨f, hk, (h.endsIn_iff hrun hf ha hsingle).mpr hmem⟩]
    exact (hn k).mpr ⟨f, hk, (h.endsIn_iff hrun hf hb hsingle').mpr hmem'⟩

theorem Reads.exists_mem_runs_iff (h : Reads text comparisons e) {i j : Nat} {a b : Condition}
    (hij : i < j) (ha : e.conditions[i]? = some a) (hb : e.conditions[j]? = some b) :
    (∃ run ∈ runs e.conditions e.connections, a ∈ run ∧ b ∈ run) ↔
      ∀ k x y, i ≤ k → k < j → e.conditions[k]? = some x → e.conditions[k + 1]? = some y →
        Condition.AreAlternatives text x y := by
  constructor
  · rintro ⟨run, hrun, hmem, hmem'⟩
    exact (h.mem_run_iff hrun hij ha hb hmem).mp hmem'
  · intro hjoined
    have hmem : a ∈ (runs e.conditions e.connections).flatten := by
      rw [flatten_runs]
      exact List.mem_of_getElem? ha
    obtain ⟨run, hrun, hmem⟩ := List.mem_flatten.mp hmem
    exact ⟨run, hrun, hmem, (h.mem_run_iff hrun hij ha hb hmem).mpr hjoined⟩

end

/-- For every text that can be read there is a query, and each condition on a network or an
issuer ends in one of its filters and in no other. Two such conditions end in the same filter
exactly when all neighbours on the way from the one to the other are alternatives. -/
theorem query_shares_filter_iff {settings : Settings} {text : String} {e : Entities}
    (h : read settings text = .ok e) (dataset : Datum) :
    ∃ q, query {} dataset (.text text) (some e) = .ok q ∧
      ∀ i j a b, i < j → e.conditions[i]? = some a → e.conditions[j]? = some b →
        a.kind.isSingle = true → b.kind.isSingle = true →
        ∃ m n, a.HasNode {} q.filters m ∧ b.HasNode {} q.filters n ∧
          (m = n ↔ ∀ k x y, i ≤ k → k < j → e.conditions[k]? = some x →
            e.conditions[k + 1]? = some y →
            Condition.AreAlternatives (normalize text.toList) x y) := by
  obtain ⟨comparisons, hreads⟩ := exists_reads h
  obtain ⟨q, hq, hfilters⟩ := hreads.exists_query dataset text
  refine ⟨q, hq, ?_⟩
  rw [hfilters]
  intro i j a b hij ha hb hsingle hsingle'
  have hmem := List.mem_of_getElem? ha
  have hmem' := List.mem_of_getElem? hb
  obtain ⟨m, hm⟩ := hreads.exists_hasNode hmem hsingle
  obtain ⟨n, hn⟩ := hreads.exists_hasNode hmem' hsingle'
  refine ⟨m, n, hm, hn, ?_⟩
  rw [hreads.hasNode_eq_iff hmem hsingle hmem' hsingle' hm hn, hreads.exists_mem_runs_iff hij ha hb]

/-- Two issuers side by side, whatever the text says between them. -/
theorem query_shares_filter_iff_chaseAndCiti :
    ∃ e q, read {} "chase and citi" = .ok e ∧
      query {} .null (.text "chase and citi") (some e) = .ok q ∧
      ∀ i j a b, i < j → e.conditions[i]? = some a → e.conditions[j]? = some b →
        a.kind.isSingle = true → b.kind.isSingle = true →
        ∃ m n, a.HasNode {} q.filters m ∧ b.HasNode {} q.filters n ∧
          (m = n ↔ ∀ k x y, i ≤ k → k < j → e.conditions[k]? = some x →
            e.conditions[k + 1]? = some y →
            Condition.AreAlternatives (normalize "chase and citi".toList) x y) := by
  obtain ⟨e, he⟩ : ∃ e, read {} "chase and citi" = .ok e :=
    exists_read_of_short (by decide) (by decide)
  obtain ⟨q, hq, hnodes⟩ := query_shares_filter_iff he .null
  exact ⟨e, q, he, hq, hnodes⟩

/-- A network between two issuers. Spending is not named in the spaces between them, because what
it is named by does not follow a word at once. -/
theorem read_visaBetweenIssuers :
    ∃ e, read {} "chase visa citi" = .ok e ∧
      e.conditions = [
        { kind := .issuer, subject := "issuer", operator := "=", value := .text "Chase",
          span := ⟨0, 5⟩ },
        { kind := .network, subject := "card_network", operator := "==", value := .text "Visa",
          span := ⟨6, 10⟩ },
        { kind := .issuer, subject := "issuer", operator := "=", value := .text "Citi",
          span := ⟨11, 15⟩ }] ∧
      e.connections = [.all, .all] ∧ e.balance = none := by
  obtain ⟨e, he⟩ : ∃ e, read {} "chase visa citi" = .ok e :=
    exists_read_of_short (by decide) (by decide)
  obtain ⟨comparisons, hreads⟩ := exists_reads he
  have hnormal : normalize "chase visa citi".toList = "chase visa citi".toList := by
    decide
  rw [hnormal] at hreads
  have hcompared : Condition.comparisons "chase visa citi".toList = .ok [] := by rfl
  have hnetworks : Condition.networks "chase visa citi".toList = [
      { kind := .network, subject := "card_network", operator := "==", value := .text "Visa",
        span := ⟨6, 10⟩ }] := by
    rfl
  have hissuers : Condition.issuers "chase visa citi".toList = [
      { kind := .issuer, subject := "issuer", operator := "=", value := .text "Chase",
        span := ⟨0, 5⟩ },
      { kind := .issuer, subject := "issuer", operator := "=", value := .text "Citi",
        span := ⟨11, 15⟩ }] := by
    rfl
  obtain rfl := Except.ok.inj (hreads.compared.symm.trans hcompared)
  have hconditions := hreads.conditions
  have hlength : "chase visa citi".toList.length = 15 := by decide
  rw [Condition.found, hnetworks, hissuers, List.append_assoc,
    Condition.collect_append] at hconditions
  · have hconnections := hreads.connections
    rw [hconditions] at hconnections
    refine ⟨e, he, hconditions, hconnections.trans (by decide),
      hreads.balance.trans (by decide)⟩
  · intro c hc
    have hwithin := Condition.isFound_of_mem_found hreads.compared c
      (by rw [Condition.found, List.append_assoc]; exact List.mem_append_right _ hc)
    have hlt := hwithin.start_lt
    have hle := hlength ▸ hwithin.stop_le
    have hbefore := Condition.not_wordChar_before_spending hc
    by_contra hfree
    have hspace : c.span.start = 5 ∨ c.span.start = 10 := by
      simp [Condition.register, Span.overlaps] at hfree
      omega
    rcases hspace with hspace | hspace
    · rw [hspace] at hbefore
      exact absurd (hbefore 'e' (by decide)) (by decide)
    · rw [hspace] at hbefore
      exact absurd (hbefore 'a' (by decide)) (by decide)

/-- With a network between them two issuers are asked for at once, and no card has both. -/
theorem query_visaBetweenIssuers :
    ∃ e q, read {} "chase visa citi" = .ok e ∧
      e.conditions.map (·.kind) = [.issuer, .network, .issuer] ∧
      query {} .null (.text "chase visa citi") (some e) = .ok q ∧
      q.filters = [
        .clause { field := "issuer", operator := "=", value := .text "Chase" },
        .clause { field := "card_network", operator := "==", value := .text "Visa" },
        .clause { field := "issuer", operator := "=", value := .text "Citi" }] := by
  obtain ⟨e, he, hconditions, hconnections, hbalance⟩ := read_visaBetweenIssuers
  obtain ⟨comparisons, hreads⟩ := exists_reads he
  obtain ⟨q, hq, hfilters⟩ := hreads.exists_query .null "chase visa citi"
  refine ⟨e, q, he, by rw [hconditions]; rfl, hq, ?_⟩
  rw [hfilters, filtersOf, hbalance, runFilters, hconditions, hconnections]
  simp only [runs, List.head?_cons, List.tail_cons, Option.some.injEq, reduceCtorEq, if_false,
    List.map_cons, List.map_nil, List.flatMap_cons, List.flatMap_nil, List.append_nil]
  rw [Condition.alternatives_of_issuer, Condition.alternatives_of_network,
    Condition.alternatives_of_issuer]
  · rfl
  · decide
  · decide

end Question

end Cardfolio
