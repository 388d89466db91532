import Cardfolio.Proofs.Datum.Written
import Cardfolio.Query.Comparison

/-!
# What is compared of two values

Before any operator is asked for, two values are brought together, and only that can fail:
where they are compared as texts, both are written. So a comparison has an answer unless one of
the two values cannot be written. Numbers are compared as they are, however long they
would be.
-/

namespace Cardfolio

namespace Sides

variable {value target : Datum}

theorem textOf_settles (value : Datum) :
    Settles False (value.isWritable = false) (fun _ => True) (textOf value) :=
  value.write_settles.map fun _ _ => trivial

theorem textOf_text (s : String) : textOf (.text s) = .ok (Text.comparable s.toList) := by
  rw [textOf, Datum.write_text]
  rfl

/-- Two values can be compared unless one of them cannot be written. -/
theorem ofData_settles (value target : Datum) :
    Settles False (value.isWritable = false ∨ target.isWritable = false) (fun _ => True)
      (ofData value target) := by
  have htext : ∀ v : Datum, (v.isWritable = false →
      value.isWritable = false ∨ target.isWritable = false) →
      Settles False (value.isWritable = false ∨ target.isWritable = false) (fun _ => True)
        (textOf v) := fun v hv => (textOf_settles v).mono id hv fun _ h => h
  unfold ofData
  split
  · exact .value trivial
  · exact .value trivial
  · exact .value trivial
  · exact (htext _ Or.inr).map fun _ _ => trivial
  · exact .value trivial
  · exact .value trivial
  · exact .value trivial
  · split
    · exact .value trivial
    · exact (htext _ Or.inl).bind fun _ _ _ => (htext _ Or.inr).bind fun _ _ _ => .value trivial

theorem number_or_text {n : Number} (h : value.toNumber? = some n) :
    value = .number n ∨ ∃ s, value = .text s ∧ Datum.spelledNumber? s = some n := by
  unfold Datum.toNumber? at h
  split at h
  · exact Or.inl (congrArg _ (Option.some.inj h))
  · exact Or.inr ⟨_, rfl, h⟩
  · cases h

/-- Where both values are or spell numbers, these are compared. -/
theorem ofData_of_numbers {m n : Number} (hvalue : value.toNumber? = some m)
    (htarget : target.toNumber? = some n) : ofData value target = .ok (numbers m n) := by
  rcases number_or_text hvalue with rfl | ⟨s, rfl, hs⟩ <;>
    rcases number_or_text htarget with rfl | ⟨t, rfl, ht⟩ <;>
    simp only [ofData, Datum.toNumber?, *]

theorem ofData_of_texts {s t : String}
    (h : Datum.spelledNumber? s = none ∨ Datum.spelledNumber? t = none) :
    ofData (.text s) (.text t)
      = .ok (texts true (Text.comparable s.toList) (Text.comparable t.toList)) := by
  simp only [ofData, Datum.toNumber?]
  split
  · next hs ht => simp [hs, ht] at h
  · rw [textOf_text, textOf_text]
    rfl

theorem ofData_object {entries : List (String × Datum)} (h : target ≠ .null) :
    ofData (.object entries) target = categories (entries.map (·.1)) <$> textOf target := by
  rw [ofData]
  simp [h]

/-- Only two absent values are compared as absent. -/
theorem value_of_ofData_absent (h : ofData value target = .ok absent) : value = .null := by
  unfold ofData at h
  split at h
  · rfl
  · rfl
  · cases h
  · obtain ⟨_, _, hsides⟩ := map_eq_ok.mp h
    cases hsides
  · cases h
  · cases h
  · cases h
  · split at h
    · cases h
    · obtain ⟨_, _, h⟩ := bind_eq_ok.mp h
      obtain ⟨_, _, h⟩ := bind_eq_ok.mp h
      cases h

end Sides

namespace Datum

variable {value target : Datum}

theorem satisfies_symbol (c : Comparison) (value target : Datum) :
    value.satisfies c.symbol target = (c.holds ·) <$> Sides.ofData value target := by
  rw [satisfies, Comparison.ofSymbol?_symbol]
  rfl

theorem satisfies_symbol_of_ofData {sides : Sides} (h : Sides.ofData value target = .ok sides)
    (c : Comparison) : value.satisfies c.symbol target = .ok (c.holds sides) := by
  rw [satisfies_symbol, h]
  rfl

theorem satisfies_settles (value : Datum) (operator : String) (target : Datum) :
    Settles False (value.isWritable = false ∨ target.isWritable = false) (fun _ => True)
      (value.satisfies operator target) :=
  (Sides.ofData_settles value target).map fun _ _ => trivial

end Datum

end Cardfolio
