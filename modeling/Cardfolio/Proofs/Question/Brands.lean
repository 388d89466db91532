import Cardfolio.Proofs.Pattern.WordStarts
import Cardfolio.Proofs.Question.Sources

/-!
# Brands that a question names

What a question names is found twice: once as the first issuer and the first network in the
text, and once as conditions. The two agree but for one thing. A numeric comparison may have
words between its field and its comparing phrase, and a brand among them belongs to the
comparison, which is registered first. So there is a condition on an issuer exactly when some
mention of an issuer is clear of all comparisons, and the same for networks.

A condition that is not registered overlaps one that is, and it remains to see which. The
comparisons follow one another, so they are all registered. A network that is clear of them
can only overlap another network. For an issuer there are the networks as well, but none of
their words begins with a word of an issuer or the other way round, so they never overlap.
-/

namespace Cardfolio

open Pattern

namespace Vocabulary

open Pattern

/-- The words of issuers. -/
def wordsOfIssuers : List String :=
  ["chase", "citi", "bank", "american", "express", "amex", "capital", "one", "discover", "of",
    "america", "bofa", "wells", "fargo"]

/-- The words of networks, and the ending of a plural. -/
def wordsOfNetworks : List String :=
  ["visa", "master", "card", "s"]

theorem isLower_wordsOfIssuers : ∀ w ∈ wordsOfIssuers, ∀ c ∈ w.toList, c.isLower = true := by
  have hall : ∀ w ∈ wordsOfIssuers, w.toList.all Char.isLower = true := by decide
  exact fun w hw => List.all_eq_true.mp (hall w hw)

theorem isLower_wordsOfNetworks : ∀ w ∈ wordsOfNetworks, ∀ c ∈ w.toList, c.isLower = true := by
  have hall : ∀ w ∈ wordsOfNetworks, w.toList.all Char.isLower = true := by decide
  exact fun w hw => List.all_eq_true.mp (hall w hw)

theorem wordsOfNetworks_apart : ∀ w ∈ wordsOfNetworks, ∀ w' ∈ wordsOfIssuers, Apart w w' := by
  decide

theorem isWorded_issuers : ∀ entry ∈ issuers, IsWorded wordsOfIssuers entry.1 := by
  have lit : ∀ {w}, w ∈ wordsOfIssuers → HasWords wordsOfIssuers (lit w) :=
    HasWords.lit isLower_wordsOfIssuers
  simp only [issuers, List.forall_mem_cons, List.not_mem_nil, false_imp_iff, implies_true,
    and_true]
  refine ⟨⟨_, rfl, rfl, ?_⟩, ⟨_, rfl, rfl, ?_⟩, ⟨_, rfl, rfl, ?_⟩, ⟨_, rfl, rfl, ?_⟩,
    ⟨_, rfl, rfl, ?_⟩, ⟨_, rfl, rfl, ?_⟩, ⟨_, rfl, rfl, ?_⟩⟩
  · exact lit (by decide)
  · exact (lit (by decide)).seq (lit (by decide)).maybe
  · exact ((lit (by decide)).seq (.seq .gap (lit (by decide)))).alt (lit (by decide))
  · exact (lit (by decide)).seq (.seq .gap (lit (by decide)))
  · exact lit (by decide)
  · exact ((lit (by decide)).seq (.seq .gap ((lit (by decide)).seq
      (.seq .gap (lit (by decide)))))).alt (lit (by decide))
  · exact (lit (by decide)).seq (.seq .gap (lit (by decide)))

theorem isWorded_pureNetworks : ∀ entry ∈ pureNetworks, IsWorded wordsOfNetworks entry.1 := by
  have lit : ∀ {w}, w ∈ wordsOfNetworks → HasWords wordsOfNetworks (lit w) :=
    HasWords.lit isLower_wordsOfNetworks
  simp only [pureNetworks, List.forall_mem_cons, List.not_mem_nil, false_imp_iff, implies_true,
    and_true]
  refine ⟨⟨_, rfl, rfl, ?_⟩, ⟨_, rfl, rfl, ?_⟩⟩
  · exact lit (by decide)
  · exact (lit (by decide)).seq (HasWords.gap.maybe.seq ((lit (by decide)).seq
      (lit (by decide)).maybe))

end Vocabulary

namespace Condition

/-- What is not registered overlaps what is. -/
theorem exists_registered (taken : List Condition) {found : List Condition} {c : Condition}
    (hc : c ∈ found) :
    ∃ t ∈ found.foldl register taken, t = c ∨ c.span.overlaps t.span = true := by
  obtain ⟨before, after, rfl⟩ := List.append_of_mem hc
  rcases registered_or_overlaps taken before after c with hmem | ⟨k, _, hk, hoverlap⟩
  · exact ⟨c, hmem, Or.inl rfl⟩
  · exact ⟨k, hk, Or.inr hoverlap⟩

/-- Conditions that do not overlap are all registered. -/
theorem foldl_register_eq_append {taken found : List Condition}
    (h : (taken ++ found).Pairwise fun a b => a.span.overlaps b.span = false) :
    found.foldl register taken = taken ++ found := by
  induction found generalizing taken with
  | nil => exact (List.append_nil taken).symm
  | cons c found ih =>
      have hfree : ¬ (taken.any fun t => c.span.overlaps t.span) = true := by
        rw [Bool.not_eq_true, List.any_eq_false]
        intro t ht
        rw [overlaps_comm, (List.pairwise_append.mp h).2.2 t ht c List.mem_cons_self]
        exact Bool.false_ne_true
      rw [List.foldl_cons, register, if_neg hfree, ih, List.append_assoc]
      · rfl
      · rw [List.append_assoc]
        exact h

/-- Putting in order and leaving out repetitions takes no kind of condition away. -/
theorem exists_kind_of_collect {found : List Condition} {kind : ConditionKind} :
    (∃ c ∈ collect found, c.kind = kind) ↔ ∃ c ∈ found.foldl register [], c.kind = kind := by
  constructor
  · rintro ⟨c, hc, hkind⟩
    exact ⟨c, mem_foldl_of_mem_collect hc, hkind⟩
  · rintro ⟨c, hc, hkind⟩
    obtain ⟨k, hk, hrepeat⟩ := exists_repeat_of_collect hc
    exact ⟨k, hk, hrepeat.kind.trans hkind⟩

variable {text : List Char} {comparisons : List Condition}

theorem comparisons_pairwise (h : Condition.comparisons text = .ok comparisons) :
    comparisons.Pairwise fun a b => a.span.overlaps b.span = false := by
  rw [comparisons_eq h, List.pairwise_filterMap]
  refine (findAll_pairwise _ _).imp ?_
  intro m m' hstop c hc c' hc'
  rw [Span.overlaps, (ofComparison_eq_ok (join_eq_some.mp hc)).1,
    (ofComparison_eq_ok (join_eq_some.mp hc')).1, Bool.and_eq_false_iff, decide_eq_false_iff_not,
    decide_eq_false_iff_not]
  exact Or.inr (Nat.not_lt.mpr hstop)

theorem networks_apart_issuers {a b : Condition} (ha : a ∈ networks text)
    (hb : b ∈ issuers text) : a.span.overlaps b.span = false := by
  obtain ⟨p, s, m, hentry, hm, rfl⟩ := mem_mentions_iff.mp ha
  obtain ⟨p', s', m', hentry', hm', rfl⟩ := mem_mentions_iff.mp hb
  exact overlaps_eq_false Vocabulary.isLower_wordsOfNetworks Vocabulary.isLower_wordsOfIssuers
    Vocabulary.wordsOfNetworks_apart (Vocabulary.isWorded_pureNetworks _ hentry)
    (Vocabulary.isWorded_issuers _ hentry') (occurs_of_mem_findAll hm)
    (occurs_of_mem_findAll hm')

/-! ## Mentions and conditions -/

/-- Every mention overlaps a comparison. -/
def Covered (comparisons mentions : List Condition) : Prop :=
  ∀ m ∈ mentions, ∃ c ∈ comparisons, m.span.overlaps c.span = true

theorem not_covered_iff {mentions : List Condition} :
    ¬ Covered comparisons mentions ↔
      ∃ m ∈ mentions, ∀ c ∈ comparisons, m.span.overlaps c.span = false := by
  unfold Covered
  simp only [not_forall, not_exists, not_and, Bool.not_eq_true, exists_prop]

/-- When a mention is clear of all that is registered before, there is a condition of its
kind. -/
theorem exists_kind_of_clear (before mentions after : List Condition) {kind : ConditionKind}
    (hkind : ∀ c ∈ mentions, c.kind = kind) {m : Condition} (hm : m ∈ mentions)
    (hclear : ∀ c ∈ before, m.span.overlaps c.span = false) :
    ∃ c ∈ collect (before ++ mentions ++ after), c.kind = kind := by
  rw [exists_kind_of_collect, List.foldl_append, List.foldl_append]
  obtain ⟨t, ht, hmt⟩ := exists_registered (before.foldl register []) hm
  refine ⟨t, subset_foldl_register _ after ht, ?_⟩
  rcases hmt with rfl | hoverlap
  · exact hkind t hm
  · rcases List.mem_append.mp (foldl_register_subset _ _ ht) with hbefore | hmentions
    · have := hclear t ((foldl_register_sublist before).subset hbefore)
      rw [hoverlap] at this
      cases this
    · exact hkind t hmentions

/-- All comparisons are registered. -/
theorem comparisons_subset_kept (h : Condition.comparisons text = .ok comparisons)
    (after : List Condition) : comparisons ⊆ (comparisons ++ after).foldl register [] := by
  have heq : comparisons.foldl register [] = comparisons :=
    foldl_register_eq_append (comparisons_pairwise h)
  rw [List.foldl_append, heq]
  exact subset_foldl_register comparisons after

/-- What is registered beside the comparisons is clear of them. -/
theorem clear_of_mem_collect (h : Condition.comparisons text = .ok comparisons)
    {after : List Condition} {m c : Condition} (hm : m ∈ collect (comparisons ++ after))
    (hkind : m.kind ≠ .comparison) (hc : c ∈ comparisons) : m.span.overlaps c.span = false := by
  have hpairwise := foldl_register_pairwise List.Pairwise.nil (comparisons ++ after)
  have hmem := mem_foldl_of_mem_collect hm
  have hapart := List.Pairwise.forall_of_forall_of_flip
    (R := fun a b : Condition => a = b ∨ a.span.overlaps b.span = false) (fun _ _ => Or.inl rfl)
    (hpairwise.imp Or.inr) (hpairwise.imp fun hab => Or.inr (overlaps_comm _ _ ▸ hab))
    hmem (comparisons_subset_kept h after hc)
  rcases hapart with rfl | hapart
  · exact (hkind (kind_of_mem_comparisons h m hc)).elim
  · exact hapart

theorem found_eq (text : List Char) (comparisons : List Condition) :
    found text comparisons = comparisons ++ networks text ++ (issuers text
      ++ (spending .category (Question.category? text)
        ++ spending .merchant (Question.merchant? (Question.category? text) text))) := by
  unfold found
  simp only [List.append_assoc]

/-- There is a condition on a network exactly when a mention is clear of all comparisons. -/
theorem exists_network_iff (h : Condition.comparisons text = .ok comparisons) :
    (∃ c ∈ collect (found text comparisons), c.kind = .network) ↔
      ¬ Covered comparisons (networks text) := by
  rw [not_covered_iff]
  constructor
  · rintro ⟨m, hm, hkind⟩
    refine ⟨m, (mem_of_mem_found h (collect_subset _ hm)).2.1 hkind, fun c hc => ?_⟩
    rw [found_eq, List.append_assoc] at hm
    exact clear_of_mem_collect h hm (by rw [hkind]; exact nofun) hc
  · rintro ⟨m, hm, hclear⟩
    rw [found_eq]
    exact exists_kind_of_clear comparisons (networks text) _ kind_of_mem_mentions hm hclear

/-- There is a condition on an issuer exactly when a mention is clear of all comparisons. -/
theorem exists_issuer_iff (h : Condition.comparisons text = .ok comparisons) :
    (∃ c ∈ collect (found text comparisons), c.kind = .issuer) ↔
      ¬ Covered comparisons (issuers text) := by
  rw [not_covered_iff]
  constructor
  · rintro ⟨m, hm, hkind⟩
    refine ⟨m, (mem_of_mem_found h (collect_subset _ hm)).2.2 hkind, fun c hc => ?_⟩
    rw [found_eq, List.append_assoc] at hm
    exact clear_of_mem_collect h hm (by rw [hkind]; exact nofun) hc
  · rintro ⟨m, hm, hclear⟩
    rw [found_eq, ← List.append_assoc]
    refine exists_kind_of_clear (comparisons ++ networks text) (issuers text) _
      kind_of_mem_mentions hm fun c hc => ?_
    rcases List.mem_append.mp hc with hc | hc
    · exact hclear c hc
    · rw [overlaps_comm]
      exact networks_apart_issuers hc hm

end Condition

/-! ## What is read -/

namespace Question

variable {text : List Char}

theorem exists_firstOf {kind : ConditionKind} {subject operator : String}
    {table : List (Pattern × String)} (htable : ∀ entry ∈ table, entry.1.mayBeEmpty = false)
    {c : Condition} (hc : c ∈ Condition.mentions kind subject operator table text) :
    ∃ entry ∈ table, firstOf table text = some entry.2 := by
  obtain ⟨p, s, m, hentry, hm, _⟩ := Condition.mem_mentions_iff.mp hc
  have hoccurs := (occursIn_iff (htable _ hentry)).mpr ⟨m, hm⟩
  cases hfind : table.find? (·.1.occursIn text) with
  | none => exact (List.find?_eq_none.mp hfind _ hentry hoccurs).elim
  | some entry =>
      refine ⟨entry, List.mem_of_find?_eq_some hfind, ?_⟩
      rw [firstOf, hfind]
      rfl

theorem firstOf_issuers {c : Condition} (hc : c ∈ Condition.issuers text) :
    firstOf Vocabulary.issuers text ≠ none := by
  obtain ⟨entry, _, hfirst⟩ := exists_firstOf (by decide) hc
  rw [hfirst]
  exact Option.some_ne_none _

theorem firstOf_networks {c : Condition} (hc : c ∈ Condition.networks text) :
    firstOf Vocabulary.networks text = some "Visa" ∨
      firstOf Vocabulary.networks text = some "Mastercard" := by
  obtain ⟨entry, hentry, hfirst⟩ := exists_firstOf (by decide) hc
  have hnames : ∀ entry ∈ Vocabulary.pureNetworks, entry.2 = "Visa" ∨ entry.2 = "Mastercard" := by
    decide
  have hnetworks : firstOf Vocabulary.networks text = firstOf Vocabulary.pureNetworks text := by
    unfold firstOf at hfirst ⊢
    obtain ⟨entry', hfind, _⟩ := Option.map_eq_some_iff.mp hfirst
    rw [Vocabulary.networks, List.find?_append, hfind]
    rfl
  rw [hnetworks, hfirst, Option.some_inj, Option.some_inj]
  exact hnames entry hentry

/-- An issuer or a network that a question names is a condition of it, unless every mention
of one overlaps a numeric comparison. -/
theorem read_restricts_to_brands {settings : Settings} {text : String} {e : Entities}
    (h : read settings text = .ok e) :
    ∃ comparisons, Condition.comparisons (normalize text.toList) = .ok comparisons ∧
      ((∃ c ∈ e.conditions, c.kind = .issuer) ↔
        e.issuer ≠ none ∧
          ¬ Condition.Covered comparisons (Condition.issuers (normalize text.toList))) ∧
      ((∃ c ∈ e.conditions, c.kind = .network) ↔
        (e.network = some "Visa" ∨ e.network = some "Mastercard") ∧
          ¬ Condition.Covered comparisons (Condition.networks (normalize text.toList))) := by
  obtain ⟨comparisons, hreads⟩ := exists_reads h
  refine ⟨comparisons, hreads.compared, ?_, ?_⟩
  · rw [hreads.conditions, hreads.issuer, Condition.exists_issuer_iff hreads.compared,
      iff_and_self, Condition.not_covered_iff]
    rintro ⟨m, hm, _⟩
    exact firstOf_issuers hm
  · rw [hreads.conditions, hreads.network, Condition.exists_network_iff hreads.compared,
      iff_and_self, Condition.not_covered_iff]
    rintro ⟨m, hm, _⟩
    exact firstOf_networks hm

theorem read_restricts_to_brands_chaseAndVisa :
    ∃ e comparisons, read {} "chase visa balance on citi over 500" = .ok e ∧
      Condition.comparisons (normalize "chase visa balance on citi over 500".toList)
        = .ok comparisons ∧
      ((∃ c ∈ e.conditions, c.kind = .issuer) ↔
        e.issuer ≠ none ∧ ¬ Condition.Covered comparisons
          (Condition.issuers (normalize "chase visa balance on citi over 500".toList))) ∧
      ((∃ c ∈ e.conditions, c.kind = .network) ↔
        (e.network = some "Visa" ∨ e.network = some "Mastercard") ∧
          ¬ Condition.Covered comparisons
            (Condition.networks (normalize "chase visa balance on citi over 500".toList))) := by
  obtain ⟨e, he⟩ : ∃ e, read {} "chase visa balance on citi over 500" = .ok e :=
    exists_read_of_short (by decide) (by decide)
  obtain ⟨comparisons, hbrands⟩ := read_restricts_to_brands he
  exact ⟨e, comparisons, he, hbrands⟩

/-- A comparison takes in the issuer that is named between its field and its phrase. -/
theorem read_issuerInComparison :
    ∃ e, read {} "balance on chase over 500" = .ok e ∧ e.issuer = some "Chase" ∧
      ∀ c ∈ e.conditions, c.kind ≠ .issuer := by
  obtain ⟨e, he⟩ : ∃ e, read {} "balance on chase over 500" = .ok e :=
    exists_read_of_short (by decide) (by decide)
  obtain ⟨comparisons, hreads⟩ := exists_reads he
  refine ⟨e, he, hreads.issuer.trans (by decide), fun c hc hkind => ?_⟩
  rw [hreads.conditions] at hc
  refine (Condition.exists_issuer_iff hreads.compared).mp ⟨c, hc, hkind⟩ ?_
  -- The one comparison begins the text, and Chase is named inside it.
  obtain ⟨found, hfound, hcovers⟩ := exists_ok_of_any
    (x := Condition.comparisons (normalize "balance on chase over 500".toList))
    (p := fun comparisons =>
      (Condition.issuers (normalize "balance on chase over 500".toList)).all fun m =>
        comparisons.any fun c => m.span.overlaps c.span) (by decide +kernel)
  rw [hreads.compared] at hfound
  obtain rfl := Except.ok.inj hfound
  intro m hm
  exact List.any_eq_true.mp (List.all_eq_true.mp hcovers m hm)

end Question

end Cardfolio
