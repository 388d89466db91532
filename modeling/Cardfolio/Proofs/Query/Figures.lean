import Cardfolio.Proofs.Datum.Entries
import Cardfolio.Proofs.Number.Order
import Cardfolio.Proofs.Query.Rows
import Mathlib.Data.List.TakeWhile

/-!
# Figures over entries

`Figures members a n` says that `n` is the figure that an aggregation asks for over
some entries. It is told by cases and not by computing: how many entries there are, how
many have a value in a field, and for the other operations what becomes of the numbers
that are found in the field. Over no numbers at all these are zero.

A row shows a figure under the column of its aggregation. Two aggregations whose
columns are one are the same aggregation, because no operation has an underscore in
its name, and so what comes before the first one is the operation and what comes after
it the field. A row therefore never shows one figure in the place of another
(`putFigures_lookup`).
-/

namespace Cardfolio

/-- The numbers that entries have in a field, in the order of the entries. -/
def Query.numbersIn (field : Option String) (members : List Entry) : List Number :=
  match field with
  | none => []
  | some name => (members.map fun e => e.cell name).filterMap Datum.toNumber?

/-- The figure over some entries. -/
inductive Query.Figures (members : List Entry) : Aggregation → Number → Prop
  | size : Figures members { operation := .count, field := none } (.whole members.length)
  | present (name : String) :
      Figures members { operation := .count, field := some name }
        (.whole (members.countP fun e => !(e.cell name).isNull))
  | nothing {operation : Operation} {field : Option String} (hop : operation ≠ .count)
      (h : numbersIn field members = []) : Figures members { operation, field } (.whole 0)
  | sum {field : Option String} {first total : Number} {rest : List Number}
      (h : numbersIn field members = first :: rest)
      (htotal : Number.sum (first :: rest) = .ok total) :
      Figures members { operation := .sum, field } total
  | avg {field : Option String} {first total : Number} {rest : List Number}
      {quotient : Binary64} (h : numbersIn field members = first :: rest)
      (htotal : Number.sum (first :: rest) = .ok total)
      (hquotient : total.div (.whole (first :: rest).length) = .ok quotient) :
      Figures members { operation := .avg, field } (.real quotient.roundHundredths)
  | min {field : Option String} {first : Number} {rest : List Number}
      (h : numbersIn field members = first :: rest)
      (hleast : Number.IsLeast (Number.least first rest) (first :: rest)) :
      Figures members { operation := .min, field } (Number.least first rest)
  | max {field : Option String} {first : Number} {rest : List Number}
      (h : numbersIn field members = first :: rest)
      (hgreatest : Number.IsGreatest (Number.greatest first rest) (first :: rest)) :
      Figures members { operation := .max, field } (Number.greatest first rest)

namespace Query

theorem mapM_get_eq {members : List Entry} {name : String} {values : List Datum}
    (h : (members.map Entry.card).mapM (·.get name) = .ok values) :
    values = members.map fun e => e.cell name := by
  rw [List.mapM_map] at h
  exact eq_map_of_mapM_eq_ok h fun e _ v hv => (Entry.cell_eq hv).symm

theorem has_of_mapM_get {members : List Entry} {name : String} {values : List Datum}
    (h : (members.map Entry.card).mapM (·.get name) = .ok values) :
    ∀ e ∈ members, e.Has name := by
  intro e he
  obtain ⟨v, hv⟩ := exists_ok_of_mapM_eq_ok h (List.mem_map_of_mem he)
  exact Entry.has_of_get hv

theorem numbers_eq {field : Option String} {members : List Entry} {ns : List Number}
    (h : Aggregation.numbers field (members.map Entry.card) = .ok ns) :
    ns = numbersIn field members := by
  cases field with
  | none => exact (Except.ok.inj h).symm
  | some name =>
      obtain ⟨values, hvalues, h⟩ := bind_eq_ok.mp h
      rw [← pure_eq_ok.mp h, mapM_get_eq hvalues]
      rfl

theorem figure_eq {operation : Operation} {field : Option String} {cards : List Card}
    (hop : operation ≠ .count) :
    Aggregation.figure { operation, field } cards =
      (do
        match ← Aggregation.numbers field cards with
        | [] => return .whole 0
        | first :: rest => Aggregation.figureOf operation first rest) := by
  cases operation with
  | count => exact (hop rfl).elim
  | _ => rfl

/-- A figure can only be taken over entries whose field can be looked up. -/
theorem has_of_figure {a : Aggregation} {members : List Entry} {n : Number} {name : String}
    (hfield : a.field = some name) (h : a.figure (members.map Entry.card) = .ok n) :
    ∀ e ∈ members, e.Has name := by
  obtain ⟨operation, field⟩ := a
  obtain rfl : field = some name := hfield
  by_cases hcount : operation = .count
  · subst hcount
    obtain ⟨values, hvalues, _⟩ := bind_eq_ok.mp h
    exact has_of_mapM_get hvalues
  · rw [figure_eq hcount] at h
    obtain ⟨ns, hns, _⟩ := bind_eq_ok.mp h
    obtain ⟨values, hvalues, _⟩ := bind_eq_ok.mp hns
    exact has_of_mapM_get hvalues

theorem figures_of_figure {a : Aggregation} {members : List Entry} {n : Number}
    (hknown : a.operation.isKnown = true)
    (h : a.figure (members.map Entry.card) = .ok n) : Figures members a n := by
  obtain ⟨operation, field⟩ := a
  by_cases hcount : operation = .count
  · subst hcount
    cases field with
    | none =>
        obtain rfl := Except.ok.inj h
        rw [List.length_map]
        exact .size
    | some name =>
        obtain ⟨values, hvalues, h⟩ := bind_eq_ok.mp h
        obtain rfl := pure_eq_ok.mp h
        rw [mapM_get_eq hvalues, List.countP_map]
        exact .present name
  · rw [figure_eq hcount] at h
    obtain ⟨ns, hns, h⟩ := bind_eq_ok.mp h
    obtain rfl := numbers_eq hns
    split at h
    · next hnil =>
        obtain rfl := pure_eq_ok.mp h
        exact .nothing hcount hnil
    · next first rest hcons =>
        cases operation with
        | sum => exact .sum hcons h
        | avg =>
            obtain ⟨total, htotal, h⟩ := bind_eq_ok.mp h
            obtain ⟨quotient, hquotient, h⟩ := bind_eq_ok.mp h
            obtain rfl := pure_eq_ok.mp h
            exact .avg hcons htotal hquotient
        | min =>
            obtain rfl := Except.ok.inj h
            exact .min hcons (Number.isLeast_least first rest)
        | max =>
            obtain rfl := Except.ok.inj h
            exact .max hcons (Number.isGreatest_greatest first rest)
        | count => exact (hcount rfl).elim
        | other name => cases hknown

end Query

namespace Operation

theorem underscore_notMem {operation : Operation} (h : operation.isKnown = true) :
    '_' ∉ operation.name.toList := by
  cases operation with
  | other name => cases h
  | _ => decide

theorem ofName_name {operation : Operation} (h : operation.isKnown = true) :
    ofName operation.name = operation := by
  cases operation with
  | other name => cases h
  | _ => decide

theorem name_injective {o o' : Operation} (ho : o.isKnown = true) (ho' : o'.isKnown = true)
    (h : o.name = o'.name) : o = o' := by
  rw [← ofName_name ho, h, ofName_name ho']

end Operation

namespace Aggregation

theorem column_takeWhile {a : Aggregation} (h : a.operation.isKnown = true) :
    a.column.toList.takeWhile (· != '_') = a.operation.name.toList := by
  have hname : ∀ c ∈ a.operation.name.toList, (c != '_') = true := by
    intro c hc
    rw [bne_iff_ne]
    intro heq
    rw [heq] at hc
    exact Operation.underscore_notMem h hc
  rw [column]
  cases a.field with
  | none => exact List.takeWhile_eq_self_iff.mpr hname
  | some name =>
      dsimp only
      rw [String.toList_append, String.toList_append, List.append_assoc,
        List.takeWhile_append_of_pos hname]
      exact List.append_nil _

/-- The column tells which aggregation it is. -/
theorem column_injective {a b : Aggregation} (ha : a.operation.isKnown = true)
    (hb : b.operation.isKnown = true) (h : a.column = b.column) : a = b := by
  have hop : a.operation = b.operation := by
    refine Operation.name_injective ha hb (String.toList_inj.mp ?_)
    rw [← column_takeWhile ha, ← column_takeWhile hb, h]
  obtain ⟨operation, field⟩ := a
  obtain ⟨operation', field'⟩ := b
  obtain rfl : operation = operation' := hop
  have hlist := congrArg String.toList h
  cases field with
  | none =>
      cases field' with
      | none => rfl
      | some name =>
          simp [column] at hlist
  | some name =>
      cases field' with
      | none =>
          simp [column] at hlist
      | some name' =>
          simp only [column, String.toList_append, List.append_assoc, List.append_cancel_left_eq,
            String.toList_inj] at hlist
          rw [hlist]

/-- No field is named like a column. -/
theorem column_ne_name {a : Aggregation} (ha : a.operation.isKnown = true) (f : Field) :
    a.column ≠ f.name := by
  intro h
  have hhead := column_takeWhile ha
  rw [h] at hhead
  cases hop : a.operation with
  | other name =>
      rw [hop] at ha
      cases ha
  | _ =>
      rw [hop] at hhead
      revert hhead
      cases f <;> decide

end Aggregation

namespace Query

/-- Each figure stands in its column, and nothing else has changed. -/
theorem putFigures_lookup {asked : List Aggregation} {cards : List Card}
    {row row' : List (String × Datum)} (hknown : ∀ a ∈ asked, a.operation.isKnown = true)
    (h : putFigures asked cards row = .ok row') :
    (∀ a ∈ asked, ∃ n, a.figure cards = .ok n ∧ row'.lookup a.column = some (.number n)) ∧
      ∀ name, (∀ a ∈ asked, a.column ≠ name) → row'.lookup name = row.lookup name := by
  induction asked generalizing row with
  | nil =>
      obtain rfl := pure_eq_ok.mp h
      exact ⟨fun a ha => (List.not_mem_nil ha).elim, fun _ _ => rfl⟩
  | cons b rest ih =>
      obtain ⟨hb, hrest⟩ := List.forall_mem_cons.mp hknown
      rw [putFigures, List.foldlM_cons] at h
      obtain ⟨between, hbetween, h⟩ := bind_eq_ok.mp h
      obtain ⟨m, hm, hbetween⟩ := bind_eq_ok.mp hbetween
      obtain rfl := pure_eq_ok.mp hbetween
      obtain ⟨hfigures, hothers⟩ := ih hrest h
      constructor
      · intro a ha
        by_cases hmem : a ∈ rest
        · exact hfigures a hmem
        · obtain rfl := (List.mem_cons.mp ha).resolve_right hmem
          refine ⟨m, hm, ?_⟩
          rw [hothers _ fun c hc heq => ?_]
          · exact Datum.lookup_putEntry_self _ _ _
          · obtain rfl := Aggregation.column_injective (hrest c hc) hb heq
            exact hmem hc
      · intro name hname
        obtain ⟨hb, hrest⟩ := List.forall_mem_cons.mp hname
        rw [hothers name hrest, Datum.lookup_putEntry_of_ne (Ne.symm hb)]

end Query

end Cardfolio
