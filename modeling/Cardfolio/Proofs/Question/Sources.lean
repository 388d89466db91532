import Cardfolio.Proofs.Question.Reading

/-!
# Where the parts of a reading come from

A reading puts together what several scans found in the normal form of a question, and
`Reads` lists its parts with the scans they come from.

Every condition bears the marks of the scan that found it (`IsOfForm`). Only a comparison
has a number for its value; a network and an issuer have a value from their table, and
their subject and operator tell them apart. So what a condition asks for tells where it
came from.
-/

namespace Cardfolio

namespace Condition

/-- A condition as one of the five scans makes them. -/
inductive IsOfForm : Condition → Prop
  | comparison {subject operator : String} {n : Number} {span : Span} :
      IsOfForm { kind := .comparison, subject, operator, value := .number n, span }
  | network {p : Pattern} {s : String} {span : Span} (h : (p, s) ∈ Vocabulary.pureNetworks) :
      IsOfForm { kind := .network, subject := "card_network", operator := "==",
                 value := .text s, span }
  | issuer {p : Pattern} {s : String} {span : Span} (h : (p, s) ∈ Vocabulary.issuers) :
      IsOfForm { kind := .issuer, subject := "issuer", operator := "=", value := .text s, span }
  | category {s : String} {span : Span} :
      IsOfForm { kind := .category, subject := "category", operator := "=", value := .text s,
                 span }
  | merchant {s : String} {span : Span} :
      IsOfForm { kind := .merchant, subject := "merchant", operator := "=", value := .text s,
                 span }

variable {text : List Char}

theorem ofComparison_isOfForm {m : Match} {c : Condition}
    (h : ofComparison m = .ok (some c)) : c.IsOfForm := by
  obtain ⟨found, _, h⟩ := bind_eq_ok.mp h
  split at h
  · cases h
  · dsimp only at h
    split at h
    · cases h
    · rw [← Option.some.inj (Except.ok.inj h)]
      exact .comparison

theorem mem_mentions_iff {kind : ConditionKind} {subject operator : String}
    {table : List (Pattern × String)} {c : Condition} :
    c ∈ mentions kind subject operator table text ↔
      ∃ p s m, (p, s) ∈ table ∧ m ∈ p.findAll text ∧
        c = { kind, subject, operator, value := .text s, span := m.span } := by
  unfold mentions
  rw [List.mem_flatMap]
  constructor
  · rintro ⟨⟨p, s⟩, hentry, hc⟩
    obtain ⟨m, hm, rfl⟩ := List.mem_map.mp hc
    exact ⟨p, s, m, hentry, hm, rfl⟩
  · rintro ⟨p, s, m, hentry, hm, rfl⟩
    exact ⟨(p, s), hentry, List.mem_map_of_mem hm⟩

theorem eq_of_mem_spending {kind : ConditionKind} {found : Option (String × Span)} {c : Condition}
    (h : c ∈ spending kind found) :
    ∃ s span, found = some (s, span) ∧
      c = { kind, subject := kind.name, operator := "=", value := .text s, span } := by
  unfold spending at h
  split at h
  · exact ⟨_, _, rfl, List.mem_singleton.mp h⟩
  · cases h

/-- The conditions that are found in a text, in the order in which they are registered. -/
def found (text : List Char) (comparisons : List Condition) : List Condition :=
  comparisons ++ networks text ++ issuers text
    ++ spending .category (Question.category? text)
    ++ spending .merchant (Question.merchant? (Question.category? text) text)

theorem isFound_of_mem_found {comparisons : List Condition}
    (h : Condition.comparisons text = .ok comparisons) :
    ∀ c ∈ found text comparisons, c.IsFound text := by
  unfold found
  simp only [List.forall_mem_append]
  exact ⟨⟨⟨⟨isFound_of_mem_comparisons h, isFound_of_mem_networks⟩, isFound_of_mem_issuers⟩,
    isFound_of_mem_category⟩, isFound_of_mem_merchant⟩

theorem isOfForm_of_mem_found {comparisons : List Condition}
    (h : Condition.comparisons text = .ok comparisons) :
    ∀ c ∈ found text comparisons, c.IsOfForm := by
  unfold found
  simp only [List.forall_mem_append]
  refine ⟨⟨⟨⟨?_, ?_⟩, ?_⟩, ?_⟩, ?_⟩
  · intro c hc
    obtain ⟨_, _, heq⟩ := exists_of_mem_comparisons h hc
    exact ofComparison_isOfForm heq
  · intro c hc
    obtain ⟨p, s, m, hentry, _, rfl⟩ := mem_mentions_iff.mp hc
    exact .network hentry
  · intro c hc
    obtain ⟨p, s, m, hentry, _, rfl⟩ := mem_mentions_iff.mp hc
    exact .issuer hentry
  · intro c hc
    obtain ⟨s, span, _, rfl⟩ := eq_of_mem_spending hc
    exact .category
  · intro c hc
    obtain ⟨s, span, _, rfl⟩ := eq_of_mem_spending hc
    exact .merchant

variable {comparisons : List Condition}

theorem kind_of_mem_comparisons (h : Condition.comparisons text = .ok comparisons) :
    ∀ c ∈ comparisons, c.kind = .comparison := by
  intro c hc
  obtain ⟨m, _, hok⟩ := exists_of_mem_comparisons h hc
  obtain ⟨_, n, hvalue, _⟩ := ofComparison_eq_ok hok
  cases ofComparison_isOfForm hok with
  | comparison => rfl
  | _ => cases hvalue

theorem kind_of_mem_mentions {kind : ConditionKind} {subject operator : String}
    {table : List (Pattern × String)} :
    ∀ c ∈ mentions kind subject operator table text, c.kind = kind := by
  intro c hc
  obtain ⟨_, _, _, _, _, rfl⟩ := mem_mentions_iff.mp hc
  rfl

theorem kind_of_mem_spending {kind : ConditionKind} {place : Option (String × Span)} :
    ∀ c ∈ spending kind place, c.kind = kind := by
  intro c hc
  obtain ⟨_, _, _, rfl⟩ := eq_of_mem_spending hc
  rfl

/-- Numeric comparisons, networks and issuers come from the scans for them. -/
theorem mem_of_mem_found (h : Condition.comparisons text = .ok comparisons) {c : Condition}
    (hc : c ∈ found text comparisons) :
    (c.kind = .comparison → c ∈ comparisons) ∧ (c.kind = .network → c ∈ networks text) ∧
      (c.kind = .issuer → c ∈ issuers text) := by
  unfold found at hc
  simp only [List.mem_append] at hc
  obtain (((hc | hc) | hc) | hc) | hc := hc
  · refine ⟨fun _ => hc, ?_⟩
    rw [kind_of_mem_comparisons h c hc]
    exact ⟨nofun, nofun⟩
  · refine ⟨?_, fun _ => hc, ?_⟩ <;>
    · rw [kind_of_mem_mentions c hc]
      exact nofun
  · refine ⟨?_, ?_, fun _ => hc⟩ <;>
    · rw [kind_of_mem_mentions c hc]
      exact nofun
  · rw [kind_of_mem_spending c hc]
    exact ⟨nofun, nofun, nofun⟩
  · rw [kind_of_mem_spending c hc]
    exact ⟨nofun, nofun, nofun⟩

/-- A keyword is part of no longer word. -/
theorem categoryKeyword_notBehind : ∀ k ∈ Vocabulary.categoryKeywords,
    ∃ p, k.pattern = .seq (.notBehind [.word]) p := by
  intro k hk
  obtain ⟨entry, _, hk⟩ := List.mem_flatMap.mp (Vocabulary.mem_longestFirst.mp hk)
  obtain ⟨keyword, _, rfl⟩ := List.mem_map.mp hk
  exact ⟨_, rfl⟩

theorem merchantKeyword_notBehind : ∀ k ∈ Vocabulary.merchantKeywords,
    ∃ p, k.pattern = .seq (.notBehind [.word]) p := by
  intro k hk
  obtain ⟨entry, _, hk⟩ := List.mem_flatMap.mp hk
  obtain ⟨keyword, _, rfl⟩ := List.mem_map.mp hk
  exact ⟨_, rfl⟩

/-- No category and no merchant is found behind a character of a word. -/
theorem not_wordChar_before_spending {c : Condition}
    (h : c ∈ spending .category (Question.category? text)
      ++ spending .merchant (Question.merchant? (Question.category? text) text)) :
    ∀ d ∈ (text.take c.span.start).getLast?, Text.isWordChar d = false := by
  rcases List.mem_append.mp h with h | h
  · obtain ⟨s, span, hcategory, rfl⟩ := eq_of_mem_spending h
    obtain ⟨k, hk, m, hoccurs, rfl⟩ := exists_occurs_of_category? hcategory
    obtain ⟨p, hp⟩ := categoryKeyword_notBehind k hk
    exact (hp ▸ hoccurs).not_accepts_before
  · obtain ⟨s, span, hmerchant, rfl⟩ := eq_of_mem_spending h
    obtain ⟨k, hk, m, hoccurs, rfl⟩ := exists_occurs_of_merchant? hmerchant
    obtain ⟨p, hp⟩ := merchantKeyword_notBehind k hk
    exact (hp ▸ hoccurs).not_accepts_before

end Condition

namespace Question

/-- What has been read in a text in its normal form, where these comparisons were found. -/
structure Reads (text : List Char) (comparisons : List Condition) (e : Entities) : Prop where
  compared : Condition.comparisons text = .ok comparisons
  conditions : e.conditions = Condition.collect (Condition.found text comparisons)
  connections : e.connections = Condition.connections text e.conditions
  network : e.network = firstOf Vocabulary.networks text
  issuer : e.issuer = firstOf Vocabulary.issuers text
  balance : e.balance = balance? (property? text)
    (firstOf Vocabulary.modifiers (mask (comparisons.map (·.span)) text)) text

/-- Whatever has been read is a reading of the normal form. -/
theorem exists_reads {settings : Settings} {text : String} {e : Entities}
    (h : read settings text = .ok e) :
    ∃ comparisons, Reads (normalize text.toList) comparisons e := by
  rw [read_eq_readNormal] at h
  obtain ⟨comparisons, hcomparisons, h⟩ := bind_eq_ok.mp h
  obtain ⟨amount, _, h⟩ := bind_eq_ok.mp h
  obtain rfl := Except.ok.inj h
  exact ⟨comparisons, hcomparisons, by rw [Condition.found], rfl, rfl, rfl, rfl⟩

/-- What is read in a text beside its conditions, without regard to them. -/
structure Mentions (text : List Char) (e : Entities) : Prop where
  property : e.property = property? text
  distinct : e.distinct = distinct? text
  grouping : e.grouping = grouping? text
  figure : ∃ masked, e.figure = figure? text masked

theorem mentions_of_read {settings : Settings} {text : String} {e : Entities}
    (h : read settings text = .ok e) : Mentions (normalize text.toList) e := by
  rw [read_eq_readNormal] at h
  obtain ⟨comparisons, _, h⟩ := bind_eq_ok.mp h
  obtain ⟨_, _, h⟩ := bind_eq_ok.mp h
  rw [← pure_eq_ok.mp h]
  constructor
  case figure => exact ⟨mask (comparisons.map (·.span)) (normalize text.toList), by dsimp only⟩
  all_goals dsimp only

namespace Reads

variable {text : List Char} {comparisons : List Condition} {e : Entities}

theorem isOfForm (h : Reads text comparisons e) : ∀ c ∈ e.conditions, c.IsOfForm := by
  intro c hc
  rw [h.conditions] at hc
  exact Condition.isOfForm_of_mem_found h.compared c (Condition.collect_subset _ hc)

theorem mem_comparisons (h : Reads text comparisons e) {c : Condition} (hc : c ∈ e.conditions)
    (hkind : c.kind = .comparison) : c ∈ comparisons := by
  rw [h.conditions] at hc
  exact (Condition.mem_of_mem_found h.compared (Condition.collect_subset _ hc)).1 hkind

theorem inOrder (h : Reads text comparisons e) : Condition.InOrder text e.conditions := by
  rw [h.conditions]
  exact Condition.collect_inOrder (Condition.isFound_of_mem_found h.compared)

/-- A comparison that takes up the whole text leaves no room for another condition. -/
theorem conditions_eq_singleton {c : Condition} (h : Reads text [c] e)
    (hwhole : c.span = ⟨0, text.length⟩) : e.conditions = [c] := by
  have hfound := Condition.isFound_of_mem_found h.compared
  have hconditions := h.conditions
  unfold Condition.found at hfound hconditions
  rw [List.append_assoc, List.append_assoc, List.append_assoc] at hfound hconditions
  rw [hconditions, Condition.collect_append]
  · rfl
  · intro other hother
    have hwithin := hfound other (List.mem_append_right _ hother)
    have hlt := hwithin.start_lt
    have hle := hwithin.stop_le
    refine ⟨c, List.mem_singleton_self c, ?_⟩
    rw [hwhole, Span.overlaps, Bool.and_eq_true, decide_eq_true_eq, decide_eq_true_eq]
    dsimp only
    omega

end Reads

end Question

end Cardfolio
