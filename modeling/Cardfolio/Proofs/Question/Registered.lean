import Cardfolio.Proofs.Question.Brands

/-!
# Clauses that are lost

Five scans recognise clauses in a question, one after the other, and a clause that overlaps
one registered before it is dropped. What is registered is then put in the order of the
text, and of clauses that say the same the first remains.

Nothing else is dropped. `Registration` says it of the clauses as they were recognised, of
the ones that were kept and of the conditions that came out: a clause is kept, or one that was
kept before it stands in its way, no kept clause stands in the way of another, and each of
them has a condition that says the same. The fold is taken apart at the clause in
question. What was registered before it is still there in the end, since registering takes
nothing away, and among that is whatever keeps the clause out.

Comparisons are recognised first and follow one another, so all of them are kept.
-/

namespace Cardfolio

open Question

namespace Condition

/-- A clause that is recognised in a text, as the condition that it would be. -/
inductive Recognised (text : List Char) : Condition → Prop
  | comparison {m : Match} {c : Condition} (hm : m ∈ Vocabulary.comparison.findAll text)
      (hc : ofComparison m = .ok (some c)) : Recognised text c
  | network {p : Pattern} {value : String} {m : Match}
      (hp : (p, value) ∈ Vocabulary.pureNetworks) (hm : m ∈ p.findAll text) :
      Recognised text { kind := .network, subject := "card_network", operator := "==",
                        value := .text value, span := m.span }
  | issuer {p : Pattern} {value : String} {m : Match}
      (hp : (p, value) ∈ Vocabulary.issuers) (hm : m ∈ p.findAll text) :
      Recognised text { kind := .issuer, subject := "issuer", operator := "=",
                        value := .text value, span := m.span }
  | category {value : String} {span : Span} (h : category? text = some (value, span)) :
      Recognised text { kind := .category, subject := "category", operator := "=",
                        value := .text value, span }
  | merchant {value : String} {span : Span}
      (h : merchant? (category? text) text = some (value, span)) :
      Recognised text { kind := .merchant, subject := "merchant", operator := "=",
                        value := .text value, span }

/-- How recognised clauses, in the order in which they are registered, become conditions by way of
those that are kept. -/
structure Registration (recognised kept conditions : List Condition) : Prop where
  sublist : kept.Sublist recognised
  obstructed : ∀ before c after, recognised = before ++ c :: after →
    c ∈ kept ∨ ∃ k ∈ before, k ∈ kept ∧ c.span.overlaps k.span = true
  apart : kept.Pairwise fun a b => a.span.overlaps b.span = false
  represented : ∀ c ∈ kept, ∃ c' ∈ conditions, c'.IsRepeat c
  nothingElse : conditions ⊆ kept

variable {text : List Char} {comparisons : List Condition}

theorem mem_spending_iff {kind : ConditionKind} {place : Option (String × Span)} {c : Condition} :
    c ∈ spending kind place ↔ ∃ s span, place = some (s, span) ∧
      c = { kind, subject := kind.name, operator := "=", value := .text s, span } := by
  refine ⟨eq_of_mem_spending, ?_⟩
  rintro ⟨s, span, rfl, rfl⟩
  exact List.mem_singleton_self _

/-- The clauses that are registered are the ones that are recognised. -/
theorem mem_found_iff (h : Condition.comparisons text = .ok comparisons) {c : Condition} :
    c ∈ found text comparisons ↔ Recognised text c := by
  unfold found
  simp only [List.mem_append, mem_comparisons_iff h, networks, issuers, mem_mentions_iff,
    mem_spending_iff]
  constructor
  · rintro ((((⟨m, hm, hc⟩ | ⟨p, s, m, hp, hm, rfl⟩) | ⟨p, s, m, hp, hm, rfl⟩) |
      ⟨s, span, hplace, rfl⟩) | ⟨s, span, hplace, rfl⟩)
    · exact .comparison hm hc
    · exact .network hp hm
    · exact .issuer hp hm
    · exact .category hplace
    · exact .merchant hplace
  · intro hc
    cases hc with
    | comparison hm hc => exact Or.inl (Or.inl (Or.inl (Or.inl ⟨_, hm, hc⟩)))
    | network hp hm => exact Or.inl (Or.inl (Or.inl (Or.inr ⟨_, _, _, hp, hm, rfl⟩)))
    | issuer hp hm => exact Or.inl (Or.inl (Or.inr ⟨_, _, _, hp, hm, rfl⟩))
    | category h => exact Or.inl (Or.inr ⟨_, _, h, rfl⟩)
    | merchant h => exact Or.inr ⟨_, _, h, rfl⟩

/-- A clause is registered unless it overlaps one that was registered before it. -/
theorem registered_or_obstructed (before after : List Condition) (c : Condition) :
    c ∈ (before ++ c :: after).foldl register [] ∨
      ∃ k ∈ before, k ∈ (before ++ c :: after).foldl register [] ∧
        c.span.overlaps k.span = true := by
  rcases registered_or_overlaps [] before after c with hmem | ⟨k, hk, hstays, hoverlap⟩
  · exact Or.inl hmem
  · exact Or.inr ⟨k, (foldl_register_sublist before).subset hk, hstays, hoverlap⟩

theorem registration (found : List Condition) :
    Registration found (found.foldl register []) (collect found) where
  sublist := foldl_register_sublist found
  obstructed := by
    rintro before c after rfl
    exact registered_or_obstructed before after c
  apart := foldl_register_pairwise List.Pairwise.nil found
  represented := fun _ hc => exists_repeat_of_collect hc
  nothingElse := fun _ hc => mem_foldl_of_mem_collect hc

theorem Registration.represented_or_obstructed {recognised kept conditions : List Condition}
    (h : Registration recognised kept conditions) {before after : List Condition} {c : Condition}
    (hc : recognised = before ++ c :: after) :
    (∃ c' ∈ conditions, c'.IsRepeat c) ∨
      ∃ k ∈ before, k ∈ kept ∧ c.span.overlaps k.span = true :=
  (h.obstructed before c after hc).imp_left (h.represented c)

end Condition

namespace Question

/-- Every clause that is recognised in a question has a condition that says the same, or overlaps
one that was kept before it. Every comparison has such a condition, and no condition of another
kind overlaps a comparison. -/
theorem read_keeps_clauses {settings : Settings} {text : String} {e : Entities}
    (h : read settings text = .ok e) :
    ∃ comparisons, Condition.comparisons (normalize text.toList) = .ok comparisons ∧
      ∃ recognised kept, recognised = Condition.found (normalize text.toList) comparisons ∧
        (∀ c, c ∈ recognised ↔ Condition.Recognised (normalize text.toList) c) ∧
        Condition.Registration recognised kept e.conditions ∧
        (∀ before c after, recognised = before ++ c :: after →
          (∃ c' ∈ e.conditions, c'.IsRepeat c) ∨
            ∃ k ∈ before, k ∈ kept ∧ c.span.overlaps k.span = true) ∧
        ∀ k ∈ comparisons, (∃ c ∈ e.conditions, c.IsRepeat k) ∧
          ∀ c ∈ e.conditions, c.kind ≠ .comparison → c.span.overlaps k.span = false := by
  obtain ⟨comparisons, hreads⟩ := exists_reads h
  have hregistration := Condition.registration
    (Condition.found (normalize text.toList) comparisons)
  rw [← hreads.conditions] at hregistration
  refine ⟨comparisons, hreads.compared, _, _, rfl, fun _ => Condition.mem_found_iff hreads.compared,
    hregistration, fun _ _ _ hc => hregistration.represented_or_obstructed hc, ?_⟩
  have hconditions := hreads.conditions
  rw [Condition.found_eq, List.append_assoc] at hregistration hconditions
  intro k hk
  refine ⟨hregistration.represented k (Condition.comparisons_subset_kept hreads.compared _ hk), ?_⟩
  intro c hc hkind
  rw [hconditions] at hc
  exact Condition.clear_of_mem_collect hreads.compared hc hkind hk

theorem read_keeps_clauses_issuerInComparison :
    ∃ e comparisons recognised kept, read {} "balance on chase over 500" = .ok e ∧
      recognised = Condition.found (normalize "balance on chase over 500".toList) comparisons ∧
      Condition.Registration recognised kept e.conditions ∧
      ∀ k ∈ comparisons, ∀ c ∈ e.conditions, c.kind ≠ .comparison →
        c.span.overlaps k.span = false := by
  obtain ⟨e, he⟩ : ∃ e, read {} "balance on chase over 500" = .ok e :=
    exists_read_of_short (by decide) (by decide)
  obtain ⟨comparisons, _, recognised, kept, hrecognised, _, hregistration, _, hclear⟩ :=
    read_keeps_clauses he
  exact ⟨e, comparisons, recognised, kept, he, hrecognised, hregistration,
    fun k hk => (hclear k hk).2⟩

end Question

end Cardfolio
