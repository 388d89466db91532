import Cardfolio.Proofs.Question.Comparisons
import Cardfolio.Question.Entities

/-!
# The conditions of a text, in order

Five scans find conditions in a text, and each condition stands somewhere: its span holds a
character and ends within the text (`IsFound`). That is because no pattern that is searched
for spells the empty text.

Collecting has three steps, and each keeps what the ones before have achieved. Registering
lets a condition in only if it overlaps none that is there, so no two overlap, whatever was
found. Sorting changes the order only, and not overlapping does not depend on the order; of
two spans that do not overlap and hold a character each, the one that begins first ends
before the other begins. Leaving out repetitions takes some conditions away, so the rest
are in order still.

Between neighbours there is one connection each, and it says that they are alternatives
whenever both are of a kind of which a card has only one.
-/

namespace Cardfolio

open Pattern

theorem Pattern.Occurs.span_lt {p : Pattern} (hp : p.mayBeEmpty = false) {text : List Char}
    {m : Match} (h : p.Occurs text m) : m.span.start < m.span.stop := by
  have := List.length_pos_iff.mpr (ne_nil_of_spells hp h.spells)
  have := h.stop_eq
  omega

theorem Logic.name_mem (logic : Logic) : logic.name ∈ ["AND", "OR"] := by
  cases logic <;> decide

namespace Condition

/-- A condition that stands in a text, with a value that is a text or a number. -/
structure IsFound (text : List Char) (c : Condition) : Prop where
  start_lt : c.span.start < c.span.stop
  stop_le : c.span.stop ≤ text.length
  value : (∃ s, c.value = .text s) ∨ ∃ n, c.value = .number n ∧ n.isNaN = false

variable {text : List Char}

theorem isFound_of_occurs {p : Pattern} (hp : p.mayBeEmpty = false) {m : Match}
    (hm : p.Occurs text m) {c : Condition} (hspan : c.span = m.span)
    (hvalue : (∃ s, c.value = .text s) ∨ ∃ n, c.value = .number n ∧ n.isNaN = false) :
    c.IsFound text where
  start_lt := hspan ▸ hm.span_lt hp
  stop_le := hspan ▸ hm.stop_le
  value := hvalue

theorem isFound_of_mem_comparisons {found : List Condition} (h : comparisons text = .ok found) :
    ∀ c ∈ found, c.IsFound text := by
  intro c hc
  obtain ⟨m, hm, heq⟩ := exists_of_mem_comparisons h hc
  obtain ⟨hspan, hvalue⟩ := ofComparison_eq_ok heq
  exact isFound_of_occurs Vocabulary.mayBeEmpty_comparison hm hspan (Or.inr hvalue)

theorem isFound_of_mem_mentions {kind : ConditionKind} {subject operator : String}
    {table : List (Pattern × String)} (htable : ∀ entry ∈ table, entry.1.mayBeEmpty = false) :
    ∀ c ∈ mentions kind subject operator table text, c.IsFound text := by
  intro c hc
  obtain ⟨entry, hentry, hc⟩ := List.mem_flatMap.mp hc
  obtain ⟨m, hm, rfl⟩ := List.mem_map.mp hc
  exact isFound_of_occurs (htable entry hentry) (occurs_of_mem_findAll hm) rfl
    (Or.inl ⟨entry.2, rfl⟩)

theorem isFound_of_mem_networks : ∀ c ∈ networks text, c.IsFound text :=
  isFound_of_mem_mentions (by decide)

theorem isFound_of_mem_issuers : ∀ c ∈ issuers text, c.IsFound text :=
  isFound_of_mem_mentions (by decide)

theorem categories_not_blank : ∀ entry ∈ Vocabulary.categories, ∀ keyword ∈ entry.2,
    keyword.toList.any (!Text.isBlank ·) = true := by
  -- The first character says so, and it is found without taking the whole keyword apart.
  have hfront : ∀ entry ∈ Vocabulary.categories, ∀ keyword ∈ entry.2,
      keyword.front?.any (!Text.isBlank ·) = true := by
    decide +kernel
  intro entry hentry keyword hkeyword
  obtain ⟨c, hc, hblank⟩ := (Option.any_eq_true _ _).mp (hfront entry hentry keyword hkeyword)
  rw [String.front?_eq] at hc
  exact List.any_eq_true.mpr ⟨c, List.mem_of_mem_head? hc, hblank⟩

theorem mayBeEmpty_categoryKeyword :
    ∀ k ∈ Vocabulary.categoryKeywords, k.pattern.mayBeEmpty = false := by
  intro k hk
  obtain ⟨entry, hentry, hk⟩ := List.mem_flatMap.mp (Vocabulary.mem_longestFirst.mp hk)
  obtain ⟨keyword, hkeyword, rfl⟩ := List.mem_map.mp hk
  exact mayBeEmpty_keyword (categories_not_blank entry hentry keyword hkeyword)

theorem mayBeEmpty_merchantKeyword :
    ∀ k ∈ Vocabulary.merchantKeywords, k.pattern.mayBeEmpty = false := by
  decide

theorem isFound_of_mem_spending {kind : ConditionKind} {found : Option (String × Span)}
    (h : ∀ value span, found = some (value, span) →
      span.start < span.stop ∧ span.stop ≤ text.length) :
    ∀ c ∈ spending kind found, c.IsFound text := by
  intro c hc
  unfold spending at hc
  split at hc
  · next value span =>
      obtain ⟨hlt, hle⟩ := h value span rfl
      rw [List.mem_singleton.mp hc]
      exact ⟨hlt, hle, Or.inl ⟨value, rfl⟩⟩
  · cases hc

theorem exists_occurs_of_category? {value : String} {span : Span}
    (h : Question.category? text = some (value, span)) :
    ∃ k ∈ Vocabulary.categoryKeywords, ∃ m, k.pattern.Occurs text m ∧ m.span = span := by
  obtain ⟨k, hk, hfound⟩ := List.exists_of_findSome?_eq_some h
  obtain ⟨m, hm, heq⟩ := Option.map_eq_some_iff.mp hfound
  exact ⟨k, hk, m, occurs_of_find? hm, (Prod.mk.inj heq).2⟩

/-- A merchant is found by a keyword that is none of the category's, away from its place. -/
theorem exists_find?_of_merchant? {category : Option (String × Span)} {value : String}
    {span : Span} (h : Question.merchant? category text = some (value, span)) :
    ∃ k ∈ Vocabulary.merchantKeywords, ∃ m, k.pattern.find? text = some m ∧ k.merchant = value ∧
      m.span = span ∧ ∀ name place, category = some (name, place) →
        k.keyword ∉ Vocabulary.keywordsOf name ∧ span.overlaps place = false := by
  obtain ⟨k, hk, hfound⟩ := List.exists_of_findSome?_eq_some h
  split at hfound
  · cases hfound
  · next hclaimed =>
      split at hfound
      · next m hm =>
          split at hfound
          · cases hfound
          · next hoverlaps =>
              obtain ⟨rfl, rfl⟩ := Prod.mk.inj (Option.some.inj hfound)
              refine ⟨k, hk, m, hm, rfl, rfl, ?_⟩
              rintro name place rfl
              simpa using And.intro hclaimed hoverlaps
      · cases hfound

theorem exists_occurs_of_merchant? {category : Option (String × Span)} {value : String}
    {span : Span} (h : Question.merchant? category text = some (value, span)) :
    ∃ k ∈ Vocabulary.merchantKeywords, ∃ m, k.pattern.Occurs text m ∧ m.span = span := by
  obtain ⟨k, hk, m, hm, _, hspan, _⟩ := exists_find?_of_merchant? h
  exact ⟨k, hk, m, occurs_of_find? hm, hspan⟩

theorem isFound_of_mem_category {kind : ConditionKind} :
    ∀ c ∈ spending kind (Question.category? text), c.IsFound text := by
  refine isFound_of_mem_spending fun value span h => ?_
  obtain ⟨k, hk, m, hoccurs, rfl⟩ := exists_occurs_of_category? h
  exact ⟨hoccurs.span_lt (mayBeEmpty_categoryKeyword k hk), hoccurs.stop_le⟩

theorem isFound_of_mem_merchant {kind : ConditionKind} {category : Option (String × Span)} :
    ∀ c ∈ spending kind (Question.merchant? category text), c.IsFound text := by
  refine isFound_of_mem_spending fun value span h => ?_
  obtain ⟨k, hk, m, hoccurs, rfl⟩ := exists_occurs_of_merchant? h
  exact ⟨hoccurs.span_lt (mayBeEmpty_merchantKeyword k hk), hoccurs.stop_le⟩

/-! ## Registering -/

/-- Registering goes through what was found and takes some of it. -/
theorem exists_sublist_of_foldl_register (taken found : List Condition) :
    ∃ new, new.Sublist found ∧ found.foldl register taken = taken ++ new := by
  induction found generalizing taken with
  | nil => exact ⟨[], List.Sublist.refl [], (List.append_nil taken).symm⟩
  | cons c found ih =>
      rw [List.foldl_cons, register]
      split
      · obtain ⟨new, hnew, heq⟩ := ih taken
        exact ⟨new, hnew.cons c, heq⟩
      · obtain ⟨new, hnew, heq⟩ := ih (taken ++ [c])
        exact ⟨c :: new, hnew.cons_cons c, by rw [heq, List.append_assoc]; rfl⟩

theorem foldl_register_sublist (found : List Condition) :
    (found.foldl register []).Sublist found := by
  obtain ⟨new, hnew, heq⟩ := exists_sublist_of_foldl_register [] found
  rw [heq]
  exact hnew

theorem subset_foldl_register (taken found : List Condition) :
    taken ⊆ found.foldl register taken := by
  obtain ⟨new, _, heq⟩ := exists_sublist_of_foldl_register taken found
  rw [heq]
  exact List.subset_append_left taken new

/-- A condition is registered unless it overlaps one that was registered before it, and that one
stays. -/
theorem registered_or_overlaps (taken before after : List Condition) (c : Condition) :
    c ∈ (before ++ c :: after).foldl register taken ∨
      ∃ k ∈ before.foldl register taken, k ∈ (before ++ c :: after).foldl register taken ∧
        c.span.overlaps k.span = true := by
  rw [List.foldl_append, List.foldl_cons]
  have hstays := subset_foldl_register (register (before.foldl register taken) c) after
  by_cases hfree : (before.foldl register taken).any fun t => c.span.overlaps t.span
  · obtain ⟨k, hk, hoverlap⟩ := List.any_eq_true.mp hfree
    rw [register, if_pos hfree] at hstays ⊢
    exact Or.inr ⟨k, hk, hstays hk, hoverlap⟩
  · rw [register, if_neg hfree] at hstays ⊢
    exact Or.inl (hstays (List.mem_append_right _ List.mem_cons_self))

theorem overlaps_comm (a b : Span) : a.overlaps b = b.overlaps a :=
  Bool.and_comm _ _

theorem register_pairwise {taken : List Condition}
    (h : taken.Pairwise fun a b => a.span.overlaps b.span = false) (c : Condition) :
    (register taken c).Pairwise fun a b => a.span.overlaps b.span = false := by
  unfold register
  split
  · exact h
  · next hfree =>
      rw [List.pairwise_append]
      refine ⟨h, List.pairwise_singleton _ _, fun a ha b hb => ?_⟩
      rw [List.mem_singleton.mp hb, overlaps_comm]
      rw [Bool.not_eq_true, List.any_eq_false] at hfree
      simpa using hfree a ha

theorem foldl_register_pairwise {taken : List Condition}
    (h : taken.Pairwise fun a b => a.span.overlaps b.span = false) (found : List Condition) :
    (found.foldl register taken).Pairwise fun a b => a.span.overlaps b.span = false := by
  induction found generalizing taken with
  | nil => exact h
  | cons c found ih => exact ih (register_pairwise h c)

theorem foldl_register_subset (taken found : List Condition) :
    found.foldl register taken ⊆ taken ++ found := by
  obtain ⟨new, hnew, heq⟩ := exists_sublist_of_foldl_register taken found
  rw [heq]
  exact (hnew.append_left taken).subset

theorem foldl_register_eq {taken found : List Condition}
    (h : ∀ c ∈ found, ∃ t ∈ taken, c.span.overlaps t.span = true) :
    found.foldl register taken = taken := by
  induction found with
  | nil => rfl
  | cons c found ih =>
      obtain ⟨hc, hfound⟩ := List.forall_mem_cons.mp h
      rw [List.foldl_cons, register, if_pos (List.any_eq_true.mpr hc)]
      exact ih hfound

/-- What overlaps conditions that were found before it is not collected. -/
theorem collect_append {first rest : List Condition}
    (h : ∀ c ∈ rest, ∃ t ∈ first.foldl register [], c.span.overlaps t.span = true) :
    collect (first ++ rest) = collect first := by
  unfold collect
  rw [List.foldl_append, foldl_register_eq h]

/-! ## Sorting -/

/-- What has been registered, in the order of the text. -/
def registered (found : List Condition) : List Condition :=
  Stable.sort (fun a b => a.span.start ≤ b.span.start) (found.foldl register [])

theorem mem_registered_iff {found : List Condition} {c : Condition} :
    c ∈ registered found ↔ c ∈ found.foldl register [] := by
  unfold registered
  rw [Stable.sort_eq_mergeSort, List.mem_mergeSort]

theorem registered_subset (found : List Condition) : registered found ⊆ found := by
  intro c hc
  exact (foldl_register_sublist found).subset (mem_registered_iff.mp hc)

theorem stop_le_start {a b : Condition} (ha : a.IsFound text) (hb : b.IsFound text)
    (hle : a.span.start ≤ b.span.start) (hapart : a.span.overlaps b.span = false) :
    a.span.stop ≤ b.span.start := by
  have := ha.start_lt
  have := hb.start_lt
  unfold Span.overlaps at hapart
  rw [Bool.and_eq_false_iff, decide_eq_false_iff_not, decide_eq_false_iff_not] at hapart
  omega

/-- Of registered conditions, each ends before the later ones begin. -/
theorem registered_pairwise {found : List Condition} (h : ∀ c ∈ found, c.IsFound text) :
    (registered found).Pairwise fun a b => a.span.stop ≤ b.span.start := by
  have hmem := registered_subset found
  have hsorted : (registered found).Pairwise fun a b => a.span.start ≤ b.span.start :=
    Stable.pairwise_sort decide_eq_true_iff Nat.le_trans fun _ _ => Nat.le_total _ _
  have hperm : (registered found).Perm (found.foldl register []) := by
    rw [registered, Stable.sort_eq_mergeSort]
    exact List.mergeSort_perm _ _
  have hapart : (registered found).Pairwise fun a b => a.span.overlaps b.span = false :=
    (hperm.pairwise_iff fun hab => overlaps_comm _ _ ▸ hab).mpr
      (foldl_register_pairwise List.Pairwise.nil found)
  refine (hsorted.and hapart).imp_of_mem fun {a b} ha hb hab => ?_
  exact stop_le_start (h a (hmem ha)) (h b (hmem hb)) hab.1 hab.2

/-! ## Leaving out repetitions -/

/-- The same value: equal, or numbers of the same value. -/
inductive SameValue : Datum → Datum → Prop
  | refl (value : Datum) : SameValue value value
  | numbers {m n : Number} (h : m.same n = true) : SameValue (.number m) (.number n)

/-- Two conditions that restrict the cards in the same way, wherever they stand. -/
structure IsRepeat (a b : Condition) : Prop where
  kind : a.kind = b.kind
  subject : a.subject = b.subject
  operator : a.operator = b.operator
  value : SameValue a.value b.value

theorem IsFound.sameValue {a b : Condition} (ha : a.IsFound text)
    (h : SameValue a.value b.value) : sameValue a.value b.value = true := by
  have hvalue := ha.value
  generalize a.value = v, b.value = w at h hvalue
  cases h with
  | refl =>
      rcases hvalue with ⟨s, rfl⟩ | ⟨n, rfl, hn⟩
      · exact beq_self_eq_true s
      · exact Number.same_self hn
  | numbers h => exact h

theorem IsFound.saysSame_of_isRepeat {a b : Condition} (ha : a.IsFound text)
    (h : a.IsRepeat b) : a.saysSame b = true := by
  unfold saysSame
  rw [h.kind, h.subject, h.operator, ha.sameValue h.value]
  simp

theorem IsRepeat.refl (c : Condition) : c.IsRepeat c :=
  ⟨rfl, rfl, rfl, .refl _⟩

theorem isRepeat_of_saysSame {a b : Condition} (h : a.saysSame b = true) : a.IsRepeat b := by
  simp only [saysSame, Bool.and_eq_true, beq_iff_eq] at h
  obtain ⟨⟨⟨hkind, hsubject⟩, hoperator⟩, hvalue⟩ := h
  refine ⟨hkind, hsubject, hoperator, ?_⟩
  generalize a.value = v, b.value = w at hvalue
  unfold sameValue at hvalue
  split at hvalue
  · rw [eq_of_beq hvalue]
    exact .refl _
  · exact .numbers hvalue
  · cases hvalue

theorem exists_sublist_of_foldl_repeats (kept conditions : List Condition) :
    ∃ new, new.Sublist conditions ∧
      conditions.foldl (fun kept c => if kept.any (·.saysSame c) then kept else kept ++ [c]) kept
        = kept ++ new := by
  induction conditions generalizing kept with
  | nil => exact ⟨[], List.Sublist.refl [], (List.append_nil kept).symm⟩
  | cons c conditions ih =>
      rw [List.foldl_cons]
      split
      · obtain ⟨new, hnew, heq⟩ := ih kept
        exact ⟨new, hnew.cons c, heq⟩
      · obtain ⟨new, hnew, heq⟩ := ih (kept ++ [c])
        exact ⟨c :: new, hnew.cons_cons c, by rw [heq, List.append_assoc]; rfl⟩

/-- What is left out, something that was there before says already. -/
theorem exists_repeat_of_foldl (kept : List Condition) {conditions : List Condition}
    {c : Condition} (hc : c ∈ conditions) :
    ∃ k ∈ conditions.foldl
      (fun kept c => if kept.any (·.saysSame c) then kept else kept ++ [c]) kept,
      k.IsRepeat c := by
  induction conditions generalizing kept with
  | nil => cases hc
  | cons d conditions ih =>
      rcases List.mem_cons.mp hc with rfl | hc
      · rw [List.foldl_cons]
        split
        · next hrepeat =>
            obtain ⟨k, hk, hsame⟩ := List.any_eq_true.mp hrepeat
            obtain ⟨new, _, heq⟩ := exists_sublist_of_foldl_repeats kept conditions
            exact ⟨k, heq ▸ List.mem_append_left new hk, isRepeat_of_saysSame hsame⟩
        · obtain ⟨new, _, heq⟩ := exists_sublist_of_foldl_repeats (kept ++ [c]) conditions
          refine ⟨c, heq ▸ List.mem_append_left new ?_, .refl c⟩
          exact List.mem_append_right kept List.mem_cons_self
      · exact ih _ hc

theorem withoutRepeats_sublist (conditions : List Condition) :
    (withoutRepeats conditions).Sublist conditions := by
  obtain ⟨new, hnew, heq⟩ := exists_sublist_of_foldl_repeats [] conditions
  unfold withoutRepeats
  rw [heq]
  exact hnew

theorem foldl_repeats_pairwise {kept : List Condition}
    (h : kept.Pairwise fun a b => a.saysSame b = false) (conditions : List Condition) :
    (conditions.foldl (fun kept c => if kept.any (·.saysSame c) then kept else kept ++ [c])
      kept).Pairwise fun a b => a.saysSame b = false := by
  induction conditions generalizing kept with
  | nil => exact h
  | cons c conditions ih =>
      rw [List.foldl_cons]
      split
      · exact ih h
      · next hnew =>
          refine ih (List.pairwise_append.mpr
            ⟨h, List.pairwise_singleton _ _, fun a ha b hb => ?_⟩)
          rw [List.mem_singleton.mp hb]
          rw [Bool.not_eq_true, List.any_eq_false] at hnew
          simpa using hnew a ha

/-- Conditions in the order of a text: each holds a character of it and ends before the
next, and none repeats another. -/
structure InOrder (text : List Char) (conditions : List Condition) : Prop where
  within : ∀ c ∈ conditions, c.span.start < c.span.stop ∧ c.span.stop ≤ text.length
  increasing : conditions.Pairwise fun a b => a.span.start < b.span.start
  apart : conditions.Pairwise fun a b => a.span.stop ≤ b.span.start
  different : conditions.Pairwise fun a b => ¬ a.IsRepeat b

theorem exists_repeat_of_collect {found : List Condition} {c : Condition}
    (hc : c ∈ found.foldl register []) : ∃ k ∈ collect found, k.IsRepeat c :=
  exists_repeat_of_foldl [] (mem_registered_iff.mpr hc)

theorem mem_foldl_of_mem_collect {found : List Condition} {c : Condition}
    (hc : c ∈ collect found) : c ∈ found.foldl register [] :=
  mem_registered_iff.mp ((withoutRepeats_sublist (registered found)).subset hc)

theorem collect_subset (found : List Condition) : collect found ⊆ found := by
  intro c hc
  exact registered_subset found ((withoutRepeats_sublist (registered found)).subset hc)

theorem collect_inOrder {found : List Condition} (h : ∀ c ∈ found, c.IsFound text) :
    InOrder text (collect found) := by
  have hfound : ∀ c ∈ collect found, c.IsFound text := fun c hc => h c (collect_subset found hc)
  have hapart := (registered_pairwise h).sublist (withoutRepeats_sublist (registered found))
  have hdifferent := foldl_repeats_pairwise List.Pairwise.nil (registered found)
  refine ⟨fun c hc => ⟨(hfound c hc).start_lt, (hfound c hc).stop_le⟩, ?_, hapart, ?_⟩
  · refine hapart.imp_of_mem fun {a b} ha _ hab => ?_
    exact Nat.lt_of_lt_of_le (hfound a ha).start_lt hab
  · refine hdifferent.imp_of_mem fun {a b} ha _ hab hrepeat => ?_
    rw [(hfound a ha).saysSame_of_isRepeat hrepeat] at hab
    cases hab

/-- Connections between neighbours: one for each pair, and alternatives between two
networks or two issuers. -/
structure AreConnected (conditions : List Condition) (connections : List Logic) : Prop where
  length : connections.length = conditions.length - 1
  name : ∀ logic ∈ connections, logic.name ∈ ["AND", "OR"]
  alternatives : ∀ (i : Nat) (a b : Condition), conditions[i]? = some a →
    conditions[i + 1]? = some b →
    a.kind = .network ∧ b.kind = .network ∨ a.kind = .issuer ∧ b.kind = .issuer →
    connections[i]? = some .any

theorem connection_of_isSingle {a b : Condition} (ha : a.kind.isSingle = true)
    (hab : a.kind = b.kind) : connection text a b = .any := by
  unfold connection
  rw [hab] at ha ⊢
  simp [ha]

theorem connections_areConnected (text : List Char) (conditions : List Condition) :
    AreConnected conditions (connections text conditions) := by
  refine ⟨?_, fun logic _ => logic.name_mem, fun i a b ha hb hkind => ?_⟩
  · unfold connections
    rw [List.length_map, List.length_zip, List.length_tail]
    omega
  · have hany : connection text a b = .any := by
      rcases hkind with ⟨hka, hkb⟩ | ⟨hka, hkb⟩
      · exact connection_of_isSingle (by rw [hka]; rfl) (hka.trans hkb.symm)
      · exact connection_of_isSingle (by rw [hka]; rfl) (hka.trans hkb.symm)
    have htail : conditions.tail[i]? = some b := by
      rw [List.getElem?_tail]
      exact hb
    have hzip : (conditions.zip conditions.tail)[i]? = some (a, b) :=
      List.getElem?_zip_eq_some.mpr ⟨ha, htail⟩
    unfold connections
    rw [List.getElem?_map, hzip]
    exact congrArg some hany

end Condition

end Cardfolio
