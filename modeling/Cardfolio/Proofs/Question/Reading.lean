import Cardfolio.Proofs.Question.Canonical
import Cardfolio.Proofs.Question.Collected
import Cardfolio.Proofs.Text.Ends

/-!
# When a question can be read

A question is read in a normal form of small letters, and all of it can be read but for two
things that a text may hold. A comparing phrase with a letter that only stands for an ASCII
letter, the long s or the dotless i, is matched without regard to case and then not found in
the table of phrases. And a number with more than 305 digits side by side may be out of range
when it is taken a thousand times. In every other text the reading succeeds, and then there
is a query for it.

What has been read is in order: the conditions follow one another in the text, without
overlapping and without repetition, and there is one connection for each pair of
neighbours.
-/

namespace Cardfolio

open Text

namespace Question

/-- The normal form has small letters only, and no stray letter that was not there before. -/
theorem mem_normalize {text : List Char} {c : Char} (h : c ∈ normalize text) :
    IsSmall c ∧ (c ∈ strayLetters → c ∈ text) := by
  rcases mem_of_mem_joinRunsFrom h with rfl | h
  · exact ⟨⟨by decide, by decide, by decide +kernel⟩, fun h => absurd h (by decide)⟩
  · obtain ⟨hsmall, hstray⟩ := mem_lowerAfter h.1
    exact ⟨hsmall, fun hc => mem_of_mem_trim (hstray hc)⟩

theorem not_occurs_nil {p : Pattern} (h : p.mayBeEmpty = false) {m : Match} :
    ¬p.Occurs [] m := by
  intro hoccurs
  have hlt := hoccurs.span_lt h
  have hle := hoccurs.stop_le
  exact Nat.not_lt_zero _ (Nat.lt_of_lt_of_le hlt hle)

theorem findAll_nil {p : Pattern} (h : p.mayBeEmpty = false) : p.findAll [] = [] := by
  rw [List.eq_nil_iff_forall_not_mem]
  exact fun m hm => not_occurs_nil h (Pattern.occurs_of_mem_findAll hm)

theorem comparisons_nil : Condition.comparisons [] = .ok [] := by
  rw [Condition.comparisons, findAll_nil Vocabulary.mayBeEmpty_comparison]
  rfl

theorem category?_nil : category? [] = none := by
  refine Option.eq_none_iff_forall_ne_some.mpr fun found h => ?_
  obtain ⟨k, hk, m, hoccurs, _⟩ := Condition.exists_occurs_of_category? h
  exact not_occurs_nil (Condition.mayBeEmpty_categoryKeyword k hk) hoccurs

theorem merchant?_nil (category : Option (String × Span)) : merchant? category [] = none := by
  refine Option.eq_none_iff_forall_ne_some.mpr fun found h => ?_
  obtain ⟨k, hk, m, hoccurs, _⟩ := Condition.exists_occurs_of_merchant? h
  exact not_occurs_nil (Condition.mayBeEmpty_merchantKeyword k hk) hoccurs

theorem amount_nil (minDigits : Int) (allowThousands : Bool) :
    Amount.first minDigits allowThousands [] = .ok none := by
  cases allowThousands <;> rfl

theorem readNormal_nil (settings : Settings) : readNormal settings [] = .ok {} := by
  simp only [readNormal, comparisons_nil, amount_nil, category?_nil, merchant?_nil, bind,
    Except.bind]
  rfl

/-- A blank text is read like any other, since in the empty text no scan finds anything. -/
theorem read_eq_readNormal (settings : Settings) (text : String) :
    read settings text = readNormal settings (normalize text.toList) := by
  unfold read
  split
  · next hblank =>
      have hempty : normalize text.toList = [] := by
        rw [normalize, List.isEmpty_iff.mp hblank]
        rfl
      rw [hempty, readNormal_nil]
  · rfl

/-- More than 305 digits side by side. -/
def HasLongNumber (text : List Char) : Prop :=
  ∃ run, run <:+: text ∧ 305 < run.length ∧ ∀ c ∈ run, isDecimalDigit c = true

theorem read_eq_error {settings : Settings} {text : String} {f : Fault}
    (h : read settings text = .error f) :
    (∃ phrase, f = .unknownPhrase phrase ∧ ∃ c ∈ strayLetters, c ∈ text.toList) ∨
      (f = .overflow ∧ HasLongNumber (normalize text.toList)) := by
  have hsmall : ∀ c ∈ normalize text.toList, IsSmall c := fun c hc => (mem_normalize hc).1
  rw [read_eq_readNormal] at h
  rcases bind_eq_error.mp h with h | ⟨_, _, h⟩
  · rcases Condition.comparisons_eq_error hsmall h with ⟨phrase, hf, c, hc, hmem⟩ | h
    · exact Or.inl ⟨phrase, hf, c, hc, (mem_normalize hmem).2 hc⟩
    · exact Or.inr h
  · rcases bind_eq_error.mp h with h | ⟨_, _, h⟩
    · obtain ⟨hf, hrun⟩ := Amount.exists_run_of_first_eq_error h
      rw [lower_eq_self hsmall] at hrun
      exact Or.inr ⟨hf, hrun⟩
    · cases h

/-- A text without stray letters and long numbers can be read. -/
theorem exists_read {settings : Settings} {text : String}
    (hstray : ∀ c ∈ strayLetters, c ∉ text.toList)
    (hlong : ¬ HasLongNumber (normalize text.toList)) : ∃ e, read settings text = .ok e := by
  cases h : read settings text with
  | ok e => exact ⟨e, rfl⟩
  | error f =>
      rcases read_eq_error h with ⟨_, _, c, hc, hmem⟩ | ⟨_, hnumber⟩
      · exact (hstray c hc hmem).elim
      · exact (hlong hnumber).elim

theorem not_hasLongNumber_of_length {text : List Char} (h : text.length ≤ 305) :
    ¬ HasLongNumber text := by
  rintro ⟨run, hrun, hlength, _⟩
  have := hrun.length_le
  omega

theorem exists_read_of_short {settings : Settings} {text : String}
    (hstray : (strayLetters.all fun c => !text.toList.contains c) = true)
    (hlength : (normalize text.toList).length ≤ 305) : ∃ e, read settings text = .ok e := by
  refine exists_read (fun c hc => ?_) (not_hasLongNumber_of_length hlength)
  simpa using List.all_eq_true.mp hstray c hc

/-- The conditions of what has been read are collected from what the scans found. -/
theorem read_eq_ok {settings : Settings} {text : String} {e : Entities}
    (h : read settings text = .ok e) :
    ∃ found, (∀ c ∈ found, c.IsFound (normalize text.toList)) ∧
      e.conditions = Condition.collect found ∧
      e.connections = Condition.connections (normalize text.toList) e.conditions := by
  rw [read_eq_readNormal] at h
  obtain ⟨comparisons, hcomparisons, h⟩ := bind_eq_ok.mp h
  obtain ⟨amount, _, h⟩ := bind_eq_ok.mp h
  rw [← Except.ok.inj h]
  refine ⟨_, ?_, rfl, rfl⟩
  simp only [List.forall_mem_append]
  exact ⟨⟨⟨⟨Condition.isFound_of_mem_comparisons hcomparisons,
    Condition.isFound_of_mem_networks⟩, Condition.isFound_of_mem_issuers⟩,
    Condition.isFound_of_mem_category⟩, Condition.isFound_of_mem_merchant⟩

/-- The conditions that have been read in a text follow one another in its normal form, and
are connected one by one. -/
theorem read_inOrder {settings : Settings} {text : String} {e : Entities}
    (h : read settings text = .ok e) :
    Condition.InOrder (normalize text.toList) e.conditions ∧
      Condition.AreConnected e.conditions e.connections := by
  obtain ⟨found, hfound, hconditions, hconnections⟩ := read_eq_ok h
  rw [hconnections, hconditions]
  exact ⟨Condition.collect_inOrder hfound, Condition.connections_areConnected _ _⟩

theorem read_inOrder_chaseOrCiti :
    ∃ e, read {} "chase or citi cards with balance over $1,000" = .ok e ∧
      Condition.InOrder (normalize "chase or citi cards with balance over $1,000".toList)
        e.conditions ∧
      Condition.AreConnected e.conditions e.connections := by
  obtain ⟨e, he⟩ : ∃ e, read {} "chase or citi cards with balance over $1,000" = .ok e :=
    exists_read_of_short (by decide) (by decide +kernel)
  exact ⟨e, he, read_inOrder he⟩

theorem obstacle?_of_isFound {text : List Char} {c : Condition} (h : c.IsFound text) :
    c.value.obstacle? = none := by
  rcases h.value with ⟨s, hs⟩ | ⟨n, hn, _⟩
  · rw [hs]
    rfl
  · rw [hn]
    rfl

theorem exists_query_of_read {settings : Settings} {text : String} {e : Entities}
    (h : read settings text = .ok e) (networks : List (String × String)) (dataset : Datum) :
    ∃ q, query { issuerNetworks := networks } dataset (.text text) (some e) = .ok q := by
  have hissuer : ∀ c ∈ e.conditions, c.kind = .issuer → c.value.obstacle? = none := by
    intro c hc _
    obtain ⟨found, hfound, hconditions, _⟩ := read_eq_ok h
    rw [hconditions] at hc
    exact obstacle?_of_isFound (hfound c (Condition.collect_subset found hc))
  obtain ⟨q, hq, _⟩ :=
    Dictionary.exists_query (d := { issuerNetworks := networks }) dataset hissuer
  exact ⟨q, bind_eq_ok.mpr ⟨q, hq, rfl⟩⟩

/-- Every text can be read and has its query, but for a comparing phrase with a stray letter
and for a number that is out of range. -/
theorem read_succeeds_or_faults (settings : Settings) (text : String) :
    (∃ e, read settings text = .ok e ∧ ∀ networks dataset,
      ∃ q, query { issuerNetworks := networks } dataset (.text text) (some e) = .ok q) ∨
    (∃ phrase, read settings text = .error (.unknownPhrase phrase) ∧
      ∃ c ∈ strayLetters, c ∈ text.toList) ∨
    (read settings text = .error .overflow ∧ HasLongNumber (normalize text.toList)) := by
  cases h : read settings text with
  | ok e => exact Or.inl ⟨e, rfl, exists_query_of_read h⟩
  | error f =>
      rcases read_eq_error h with ⟨phrase, rfl, hstray⟩ | ⟨rfl, hlong⟩
      · exact Or.inr (Or.inl ⟨phrase, rfl, hstray⟩)
      · exact Or.inr (Or.inr ⟨rfl, hlong⟩)

/-- A long s is enough. -/
theorem read_longS :
    read {} "balance at leaſt 5" = .error (.unknownPhrase "at leaſt") := by
  have hcomparisons : Condition.comparisons (normalize "balance at leaſt 5".toList)
      = .error (.unknownPhrase "at leaſt") := by
    obtain ⟨f, hf, hphrase⟩ := exists_error_of_any
      (x := Condition.comparisons (normalize "balance at leaſt 5".toList))
      (p := fun f => f = .unknownPhrase "at leaſt") (by decide +kernel)
    rw [hf, of_decide_eq_true hphrase]
  rw [read_eq_readNormal]
  exact bind_eq_error.mpr (Or.inl hcomparisons)

end Question

end Cardfolio
