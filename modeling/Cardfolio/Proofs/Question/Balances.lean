import Cardfolio.Proofs.Number.Room
import Cardfolio.Proofs.Question.Nodes

/-!
# A balance that is asked for twice

A question can ask for the balance of a card in two ways: by a phrase that cards with or without
a balance are wanted, and by a numeric comparison. Both become filters, and a card has to pass
both. This file says when a card can, if the comparison is the only condition.

It depends on the phrase, on the comparison and on whether the threshold is zero or infinite
(`Agrees`). Thresholds are not negative, and none is so small that there would be no balance
between zero and it, because an amount has at most two decimal places or is a thousandfold one.
So each of the two filters takes in an interval of balances, and one looks for a balance in
both: the threshold itself, zero, or a number on the right side of it.
-/

namespace Cardfolio

open Dictionary

namespace Amount

variable {text : List Char} {m : Match} {n : Number}

theorem hasRoom_of_grouped {mark : Pattern} (hmark : IsMark mark grouped)
    (hm : mark.Occurs text m) (hn : ofMatch? m = some n) : n.HasRoom := by
  obtain ⟨ds, fs, hwritten, hfs⟩ := isWritten_of_spells_grouped (hmark.spells hm).1
  rw [hwritten.ofDigits?_eq_some hn]
  exact Number.hasRoom_settle (Number.hasRoom_ofDecimal hfs)

/-- A thousand times a decimal is whole or far above the smallest double. -/
theorem hasRoom_thousandfold {digits : Nat} {exponent : Int}
    (h : thousandfold (.settle (.ofDecimal false digits exponent)) = .ok n) : n.HasRoom := by
  have hcases := Binary64.ofDecimal_false_cases digits exponent
  generalize Binary64.ofDecimal false digits exponent = x at h hcases
  cases hint : x.toInt? with
  | some k =>
      have hsettle : Number.settle x = .whole k := by
        rw [Number.settle, hint]
      rw [hsettle] at h
      obtain ⟨j, rfl⟩ : ∃ j : Nat, k = j := by
        rcases hcases with ⟨units, hr, rfl⟩ | rfl
        · obtain ⟨_, hk⟩ := Option.ite_none_right_eq_some.mp hint
          exact ⟨units / Binary64.one, (Option.some.inj hk).symm⟩
        · cases hint
      cases hrange : Binary64.ofInt? (j * 1000) with
      | none =>
          rw [thousandfold_whole_eq_error hrange] at h
          cases h
      | some y =>
          rw [thousandfold_whole (by rw [hrange]; rfl)] at h
          rw [← Except.ok.inj h]
          exact Number.hasRoom_whole (j * 1000)
  | none =>
      have hsettle : Number.settle x = .real x := by
        rw [Number.settle, hint]
      obtain ⟨units, hr, hthousand, hle⟩ := exists_thousand
      rw [hsettle, thousandfold_real, hthousand] at h
      rw [← Except.ok.inj h]
      exact Number.hasRoom_settle (Number.hasRoom_mul hcases.symm hle)

theorem hasRoom_first {minDigits : Int} {allowThousands : Bool}
    (h : first minDigits allowThousands text = .ok (some n)) : n.HasRoom := by
  rcases first_cases h with ⟨mark, m, hmark, hm, hn⟩ | ⟨m, amount, hm, hamount, hn⟩
  · exact hasRoom_of_grouped hmark hm hn
  · obtain ⟨ds, fs, hwritten⟩ := isMark_thousands.isWritten hm
    rw [hwritten.ofDigits?_eq_some hamount] at hn
    exact hasRoom_thousandfold hn

end Amount

namespace Condition

theorem hasRoom_threshold? {raw : List Char} {n : Number} (h : threshold? raw = .ok (some n)) :
    n.HasRoom := by
  obtain ⟨found, hfound, h⟩ := bind_eq_ok.mp h
  split at h
  · obtain rfl := Option.some.inj (Except.ok.inj h)
    exact Amount.hasRoom_first hfound
  · split at h
    · obtain rfl := Option.some.inj (Except.ok.inj h)
      exact Number.hasRoom_whole 0
    · cases h

theorem isSome_ofSymbol?_comparingPhrases : ∀ entry ∈ Vocabulary.comparingPhrases,
    (Comparison.ofSymbol? entry.2).isSome = true := by
  decide

/-- A numeric comparison compares with a threshold in one of the six ways. -/
theorem exists_comparison {text : List Char} {comparisons : List Condition}
    (h : Condition.comparisons text = .ok comparisons) {c : Condition} (hc : c ∈ comparisons) :
    ∃ (comparison : Comparison) (n : Number), comparison.symbol = c.operator ∧
      c.value = .number n ∧ n.HasRoom := by
  obtain ⟨m, _, hok⟩ := exists_of_mem_comparisons h hc
  obtain ⟨found, hfound, hok⟩ := bind_eq_ok.mp hok
  split at hok
  · cases hok
  · next n =>
      dsimp only at hok
      split at hok
      · cases hok
      · next operator hoperator =>
          obtain ⟨comparison, hcomparison⟩ := Option.isSome_iff_exists.mp
            (isSome_ofSymbol?_comparingPhrases _ (mem_of_lookup hoperator))
          rw [← Option.some.inj (Except.ok.inj hok)]
          exact ⟨comparison, n, ofSymbol?_eq_some_iff.mp hcomparison, rfl,
            hasRoom_threshold? hfound⟩

/-- The field, the operator and the number of a comparison with a whole number, and its place. -/
def wholeComparison? : Condition → Option (String × String × Int × Span)
  | ⟨.comparison, subject, operator, .number (.whole n), span⟩ => some (subject, operator, n, span)
  | _ => none

theorem eq_of_wholeComparison? {c : Condition} {subject operator : String} {n : Int} {span : Span}
    (h : c.wholeComparison? = some (subject, operator, n, span)) :
    c = { kind := .comparison, subject, operator, value := .number (.whole n), span } := by
  unfold wholeComparison? at h
  split at h
  · cases h
    rfl
  · cases h

end Condition

/-! ## Balances that pass -/

/-- The balances that a filter takes. -/
def BalanceFilter.Takes (x : Number) : Option BalanceFilter → Prop
  | none => True
  | some .positive => (Number.whole 0).lt x = true
  | some .zero => x.same (.whole 0) = true

/-- A comparison with a threshold that leaves a balance which the filter takes too. -/
def Comparison.Agrees (c : Comparison) (n : Number) : Option BalanceFilter → Prop
  | none => c = .above → n ≠ .real (.infinite false)
  | some .positive =>
    match c with
    | .above => n ≠ .real (.infinite false)
    | .atLeast => True
    | .below | .atMost | .equals | .contains => (Number.whole 0).lt n = true
  | some .zero =>
    match c with
    | .above => False
    | .atMost => True
    | .below => (Number.whole 0).lt n = true
    | .atLeast | .equals | .contains => (Number.whole 0).lt n = false

section

variable {n : Number}

open Number

theorem le_self (h : n.HasRoom) : n.le n = true := by
  rw [le, h.same_self, Bool.or_true]

/-- Without a filter only infinity is a threshold that no balance is above. -/
theorem exists_taken_iff_none (h : n.HasRoom) (c : Comparison) :
    (∃ x, BalanceFilter.Takes x none ∧ c.holdsOfNumbers x n = true) ↔ c.Agrees n none := by
  cases c with
  | above =>
      show (∃ x, True ∧ n.lt x = true) ↔ (Comparison.above = .above → _)
      simp only [true_and, h.exists_gt_iff, true_imp_iff]
  | below => exact ⟨fun _ => nofun, fun _ => ⟨_, trivial, h.minusOne_lt⟩⟩
  | atLeast => exact ⟨fun _ => nofun, fun _ => ⟨n, trivial, le_self h⟩⟩
  | atMost => exact ⟨fun _ => nofun, fun _ => ⟨n, trivial, le_self h⟩⟩
  | equals => exact ⟨fun _ => nofun, fun _ => ⟨n, trivial, h.same_self⟩⟩
  | contains => exact ⟨fun _ => nofun, fun _ => ⟨n, trivial, h.same_self⟩⟩

theorem exists_taken_iff_positive (h : n.HasRoom) (c : Comparison) :
    (∃ x, BalanceFilter.Takes x (some .positive) ∧ c.holdsOfNumbers x n = true) ↔
      c.Agrees n (some .positive) := by
  have hitself : ∀ c : Comparison, c.holdsOfNumbers n n = true → (whole 0).lt n = true →
      ∃ x, BalanceFilter.Takes x (some .positive) ∧ c.holdsOfNumbers x n = true :=
    fun c hc hn => ⟨n, hn, hc⟩
  cases c with
  | above =>
      refine Iff.trans ⟨fun ⟨x, _, hx⟩ => ⟨x, hx⟩, fun ⟨x, hx⟩ => ⟨x, ?_, hx⟩⟩ h.exists_gt_iff
      cases hn : (whole 0).lt n with
      | true => exact lt_trans hn hx
      | false => exact lt_of_same_of_lt (h.zero_same hn) hx
  | below => exact h.exists_between_iff
  | atLeast =>
      refine ⟨fun _ => trivial, fun _ => ?_⟩
      cases hn : (whole 0).lt n with
      | true => exact hitself .atLeast (le_self h) hn
      | false =>
          have hone : (whole 0).lt (whole 1) = true := by decide +kernel
          exact ⟨whole 1, hone, le_of_lt (lt_of_same_of_lt (same_symm (h.zero_same hn)) hone)⟩
  | atMost =>
      refine ⟨?_, hitself .atMost (le_self h)⟩
      rintro ⟨x, hx, hle⟩
      rcases lt_or_same_of_le hle with hlt | hsame
      · exact lt_trans hx hlt
      · exact lt_of_lt_of_same hx hsame
  | equals => exact ⟨fun ⟨_, hx, hsame⟩ => lt_of_lt_of_same hx hsame, hitself .equals h.same_self⟩
  | contains =>
      exact ⟨fun ⟨_, hx, hsame⟩ => lt_of_lt_of_same hx hsame, hitself .contains h.same_self⟩

theorem exists_taken_iff_zero (h : n.HasRoom) (c : Comparison) :
    (∃ x, BalanceFilter.Takes x (some .zero) ∧ c.holdsOfNumbers x n = true) ↔
      c.Agrees n (some .zero) := by
  have hzero : BalanceFilter.Takes (whole 0) (some .zero) := same_of_not_lt rfl rfl
    (lt_irrefl _) (lt_irrefl _)
  -- A balance of zero is as good as any other of that value.
  have hsame : ∀ {x}, BalanceFilter.Takes x (some .zero) → x.same n = true →
      (whole 0).lt n = false := by
    intro x hx hxn
    rw [Bool.eq_false_iff]
    intro hn
    have hself := lt_of_lt_of_same (lt_of_lt_of_same hn (same_symm hxn)) hx
    rw [lt_irrefl] at hself
    cases hself
  have hnot : ∀ {x}, BalanceFilter.Takes x (some .zero) → n.lt x = false := by
    intro x hx
    rw [Bool.eq_false_iff]
    intro hn
    have hlt := lt_of_lt_of_same hn hx
    rw [h.not_lt_zero] at hlt
    cases hlt
  cases c with
  | above =>
      refine ⟨fun ⟨x, hx, hlt⟩ => ?_, False.elim⟩
      rw [Comparison.holdsOfNumbers, hnot hx] at hlt
      cases hlt
  | below =>
      exact ⟨fun ⟨_, hx, hlt⟩ => lt_of_same_of_lt (same_symm hx) hlt, fun hn => ⟨_, hzero, hn⟩⟩
  | atLeast =>
      refine ⟨fun ⟨x, hx, hle⟩ => ?_, fun hn => ⟨_, hzero, le_of_same (same_symm (h.zero_same hn))⟩⟩
      rcases lt_or_same_of_le hle with hlt | hxn
      · rw [hnot hx] at hlt
        cases hlt
      · exact hsame hx (same_symm hxn)
  | atMost =>
      refine ⟨fun _ => trivial, fun _ => ⟨_, hzero, ?_⟩⟩
      cases hn : (whole 0).lt n with
      | true => exact le_of_lt hn
      | false => exact le_of_same (h.zero_same hn)
  | equals => exact ⟨fun ⟨_, hx, hxn⟩ => hsame hx hxn, fun hn => ⟨_, hzero, h.zero_same hn⟩⟩
  | contains => exact ⟨fun ⟨_, hx, hxn⟩ => hsame hx hxn, fun hn => ⟨_, hzero, h.zero_same hn⟩⟩

/-- Some balance is taken by the filter and by the comparison when the two agree. -/
theorem exists_taken_iff (h : n.HasRoom) (c : Comparison) (b : Option BalanceFilter) :
    (∃ x, BalanceFilter.Takes x b ∧ c.holdsOfNumbers x n = true) ↔ c.Agrees n b :=
  match b with
  | none => exists_taken_iff_none h c
  | some .positive => exists_taken_iff_positive h c
  | some .zero => exists_taken_iff_zero h c

end

/-! ## The filters of a balance -/

theorem Card.get_balance (card : Card) :
    card.get "current_balance" = .ok card.currentBalance := by
  have : Field.ofName? "current_balance" = some .currentBalance := by decide
  rw [Card.get, this]
  rfl

theorem Card.satisfies_balance_iff {card : Card} {operator : String} {target : Datum} :
    card.Satisfies "current_balance" operator target ↔
      card.currentBalance.satisfies operator target = .ok true := by
  unfold Card.Satisfies
  rw [card.get_balance]
  constructor
  · rintro ⟨value, hvalue, h⟩
    rw [Except.ok.inj hvalue]
    exact h
  · exact fun h => ⟨_, rfl, h⟩

theorem Datum.satisfies_numbers_iff (c : Comparison) (x n : Number) :
    (Datum.number x).satisfies c.symbol (.number n) = .ok true ↔ c.holdsOfNumbers x n = true := by
  rw [Datum.satisfies_symbol_of_ofData (Sides.ofData_of_numbers rfl rfl)]
  exact ⟨Except.ok.inj, congrArg Except.ok⟩

theorem BalanceFilter.holdsOf_iff {card : Card} {x : Number}
    (h : card.currentBalance = .number x) (b : Option BalanceFilter) :
    BalanceFilter.HoldsOf card b ↔ BalanceFilter.Takes x b := by
  match b with
  | none => exact Iff.rfl
  | some .positive =>
      rw [HoldsOf, Card.satisfies_balance_iff, h]
      exact Datum.satisfies_numbers_iff .above x (.whole 0)
  | some .zero =>
      rw [HoldsOf, Card.satisfies_balance_iff, h]
      exact Datum.satisfies_numbers_iff .equals x (.whole 0)

namespace Question

variable {text : List Char} {comparisons : List Condition} {e : Entities} {c : Condition}

/-- The only condition is a run of its own, and a comparison stands for one clause. -/
theorem Reads.filtersOf_eq (h : Reads text comparisons e) (hc : e.conditions = [c])
    (hkind : c.kind = .comparison) {comparison : Comparison}
    (hsymbol : comparison.symbol = c.operator) {field : String}
    (hfield : ({} : Dictionary).field? c.subject = some field) :
    filtersOf e = (e.balance.map fun b => .clause (balanceFilter b)).toList ++
      [.clause { field, operator := c.operator, value := c.value }] := by
  have hconnections : e.connections = [] := by
    rw [h.connections, hc]
    rfl
  have halternatives : ({} : Dictionary).alternatives c =
      [{ field, operator := c.operator, value := c.value }] :=
    alternatives_of_networkOf? ⟨comparison, hsymbol⟩ hfield
      (networkOf?_of_ne_issuer (by rw [hkind]; exact nofun))
  have hruns : ({} : Dictionary).runFilters e =
      filterOf (({} : Dictionary).alternatives c) := by
    rw [runFilters, hc, hconnections]
    simp only [runs, List.map_cons, List.map_nil, List.flatMap_cons, List.flatMap_nil,
      List.append_nil, List.flatten_cons, List.flatten_nil]
  rw [filtersOf, hruns, halternatives]
  rfl

/-- A card passes when the filter and the comparison both take its balance. -/
theorem Reads.allHold_iff (h : Reads text comparisons e) (hc : e.conditions = [c])
    (hkind : c.kind = .comparison) {comparison : Comparison}
    (hsymbol : comparison.symbol = c.operator)
    (hsubject : ({} : Dictionary).field? c.subject = some "current_balance") {n : Number}
    (hvalue : c.value = .number n) {card : Card} {x : Number}
    (hx : card.currentBalance = .number x) :
    Filter.allHold card (filtersOf e) = .ok true ↔
      BalanceFilter.Takes x e.balance ∧ comparison.holdsOfNumbers x n = true := by
  rw [h.filtersOf_eq hc hkind hsymbol hsubject, Filter.allHold_eq_true_iff,
    List.forall_mem_append, balanceFilter_spec, BalanceFilter.holdsOf_iff hx,
    List.forall_mem_singleton, Filter.holds_clause, Clause.holds_eq_true_iff,
    Card.satisfies_balance_iff, hx, hvalue, ← hsymbol, Datum.satisfies_numbers_iff]

/-- When all that a question asks for is a balance compared with a threshold, some card with a
number for its balance passes all filters exactly when the comparison agrees with the filter of
the balance. -/
theorem query_of_balance_is_met_iff {settings : Settings} {text : String} {e : Entities}
    {c : Condition} (h : read settings text = .ok e) (hc : e.conditions = [c])
    (hkind : c.kind = .comparison)
    (hsubject : ({} : Dictionary).field? c.subject = some "current_balance") (dataset : Datum) :
    ∃ (comparison : Comparison) (n : Number) (q : Query),
      comparison.symbol = c.operator ∧ c.value = .number n ∧
        query {} dataset (.text text) (some e) = .ok q ∧
        ((∃ (card : Card) (x : Number), card.currentBalance = .number x ∧
            Filter.allHold card q.filters = .ok true) ↔ comparison.Agrees n e.balance) := by
  obtain ⟨comparisons, hreads⟩ := exists_reads h
  have hmem : c ∈ e.conditions := hc ▸ List.mem_singleton_self c
  obtain ⟨comparison, n, hsymbol, hvalue, hroom⟩ :=
    Condition.exists_comparison hreads.compared (hreads.mem_comparisons hmem hkind)
  obtain ⟨q, hq, hfilters⟩ := hreads.exists_query dataset text
  refine ⟨comparison, n, q, hsymbol, hvalue, hq, ?_⟩
  rw [← exists_taken_iff hroom comparison e.balance, hfilters]
  constructor
  · rintro ⟨card, x, hx, hholds⟩
    exact ⟨x, (hreads.allHold_iff hc hkind hsymbol hsubject hvalue hx).mp hholds⟩
  · rintro ⟨x, htaken⟩
    refine ⟨.ofCells fun _ => .number x, x, rfl, ?_⟩
    exact (hreads.allHold_iff hc hkind hsymbol hsubject hvalue rfl).mpr htaken

theorem field?_balance : ({} : Dictionary).field? "balance" = some "current_balance" := by
  simp only [field?, AliasTable.resolve?, AliasTable.lookup?_standard]
  decide

/-- A comparison for cards with a balance, and in it a phrase for cards without one. -/
theorem read_balancePaidOff : ∃ e c, read {} "balance paid off over 5" = .ok e ∧
    e.conditions = [c] ∧ c.kind = .comparison ∧ c.subject = "balance" ∧ c.operator = ">" ∧
      c.value = .number (.whole 5) ∧ e.balance = some .zero := by
  obtain ⟨e, he⟩ : ∃ e, read {} "balance paid off over 5" = .ok e :=
    exists_read_of_short (by decide) (by decide)
  obtain ⟨comparisons, hreads⟩ := exists_reads he
  have hnormal : normalize "balance paid off over 5".toList
      = "balance paid off over 5".toList := by
    decide
  rw [hnormal] at hreads
  obtain ⟨found, hfound, hshape⟩ := exists_ok_of_any
    (x := Condition.comparisons "balance paid off over 5".toList)
    (p := fun cs =>
      decide (cs.map Condition.wholeComparison? = [some ("balance", ">", 5, ⟨0, 23⟩)]))
    (by decide +kernel)
  obtain rfl := Except.ok.inj (hreads.compared.symm.trans hfound)
  obtain ⟨c, rfl, hc⟩ := List.map_eq_singleton_iff.mp (of_decide_eq_true hshape)
  obtain rfl := Condition.eq_of_wholeComparison? hc
  have hlength : "balance paid off over 5".toList.length = 23 := by decide
  have hconditions := hreads.conditions_eq_singleton (by rw [hlength])
  have hzero : Vocabulary.zeroBalance.any (·.occursIn "balance paid off over 5".toList) = true := by
    decide
  refine ⟨e, _, he, hconditions, rfl, rfl, rfl, rfl, ?_⟩
  rw [hreads.balance, balance?, if_pos hzero]

theorem query_of_balance_is_met_iff_paidOff :
    ∃ (e : Entities) (c : Condition), read {} "balance paid off over 5" = .ok e ∧
      e.conditions = [c] ∧ c.kind = .comparison ∧
      ({} : Dictionary).field? c.subject = some "current_balance" ∧
      ∃ (comparison : Comparison) (n : Number) (q : Query),
        comparison.symbol = c.operator ∧ c.value = .number n ∧
          query {} .null (.text "balance paid off over 5") (some e) = .ok q ∧
          ((∃ (card : Card) (x : Number), card.currentBalance = .number x ∧
              Filter.allHold card q.filters = .ok true) ↔ comparison.Agrees n e.balance) := by
  obtain ⟨e, c, he, hc, hkind, hsubject, _⟩ := read_balancePaidOff
  have hfield : ({} : Dictionary).field? c.subject = some "current_balance" :=
    hsubject ▸ field?_balance
  exact ⟨e, c, he, hc, hkind, hfield, query_of_balance_is_met_iff he hc hkind hfield .null⟩

/-- Asked for cards without a balance that have one above 5, no card passes. -/
theorem query_balancePaidOff_isNotMet :
    ∃ (e : Entities) (c : Condition) (q : Query), read {} "balance paid off over 5" = .ok e ∧
      e.conditions = [c] ∧ c.kind = .comparison ∧
      ({} : Dictionary).field? c.subject = some "current_balance" ∧
      query {} .null (.text "balance paid off over 5") (some e) = .ok q ∧
      ∀ (card : Card) (x : Number), card.currentBalance = .number x →
        Filter.allHold card q.filters ≠ .ok true := by
  obtain ⟨e, c, he, hc, hkind, hsubject, hoperator, hvalue, hbalance⟩ := read_balancePaidOff
  have hfield : ({} : Dictionary).field? c.subject = some "current_balance" :=
    hsubject ▸ field?_balance
  obtain ⟨comparisons, hreads⟩ := exists_reads he
  obtain ⟨q, hq, hfilters⟩ := hreads.exists_query .null "balance paid off over 5"
  refine ⟨e, c, q, he, hc, hkind, hfield, hq, fun card x hx hholds => ?_⟩
  have hsymbol : Comparison.above.symbol = c.operator := hoperator.symm
  have hpasses := (hreads.allHold_iff hc hkind hsymbol hfield hvalue hx).mp (hfilters ▸ hholds)
  rw [hbalance] at hpasses
  exact (exists_taken_iff (Number.hasRoom_whole 5) .above (some .zero)).mp ⟨x, hpasses⟩

end Question

end Cardfolio
