import Cardfolio.Proofs.Card.Aliases
import Cardfolio.Proofs.Query.Limits
import Cardfolio.Proofs.Question.Reading
import Cardfolio.Service.Request

/-!
# Records that cannot be used

A caller is told that the records are of the wrong kind, and nothing else that happens
during a query may be taken for that. Which faults are the caller's is decided by their
type alone, so a value of the wrong kind that turned up in the middle of sorting,
grouping or comparing would be reported in the same way.

It cannot turn up. Reading a row leaves only numbers, texts, flags and the reward table in
its cells, and a query over rows has an answer or a number in it is too large or too long
(`answer_settles`). What is left is the look at the records themselves, which goes through
them from the front: they are a list of rows, or they are no list, or one of them is the
first that is no row. A row that cannot be read ends the look, and what stands behind it is
not objected to any more.
-/

namespace Cardfolio

/-- No record is a card: all of them came from outside. -/
def Datum.AreDelivered (records : Datum) : Prop :=
  ∀ items, records = .list items → ∀ cell, .card cell ∉ items

/-- What is wrong with records, and the sentence about it. The rows in front of a record that is
none have been read. -/
inductive Objection : Datum → String → Prop
  | noList {records : Datum} (h : ∀ items, records ≠ .list items) :
      Objection records s!"records must be a sequence of card records, got {records.kind}"
  | noRow {rows : List (List (String × Datum))} (hrows : ∀ row ∈ rows, Card.IsLegible row)
      {record : Datum} (rest : List Datum) (h : ∀ entries, record ≠ .object entries) :
      Objection (.list (rows.map .object ++ record :: rest))
        s!"record {rows.length} must be a CardRecord or mapping, got {record.kind}"

theorem rows_or_first (items : List Datum) :
    (∃ rows : List (List (String × Datum)), items = rows.map .object) ∨
      ∃ (rows : List (List (String × Datum))) (record : Datum) (rest : List Datum),
        (∀ entries, record ≠ .object entries) ∧ items = rows.map .object ++ record :: rest := by
  induction items with
  | nil => exact Or.inl ⟨[], rfl⟩
  | cons item items ih =>
      by_cases hrow : ∃ entries, item = .object entries
      · obtain ⟨entries, rfl⟩ := hrow
        rcases ih with ⟨rows, rfl⟩ | ⟨rows, record, rest, hrecord, rfl⟩
        · exact Or.inl ⟨entries :: rows, rfl⟩
        · exact Or.inr ⟨entries :: rows, record, rest, hrecord, rfl⟩
      · exact Or.inr ⟨[], item, items, not_exists.mp hrow, rfl⟩

/-- Records are rows, or there is something wrong with them, or they begin with rows that cannot
all be read. -/
theorem rows_or_objection (records : Datum) :
    (∃ rows : List (List (String × Datum)), records = .list (rows.map .object)) ∨
      (∃ message, Objection records message) ∨
      ∃ (rows : List (List (String × Datum))) (rest : List Datum),
        (¬∀ row ∈ rows, Card.IsLegible row) ∧ records = .list (rows.map .object ++ rest) := by
  by_cases hlist : ∃ items, records = .list items
  · obtain ⟨items, rfl⟩ := hlist
    rcases rows_or_first items with ⟨rows, rfl⟩ | ⟨rows, record, rest, hrecord, rfl⟩
    · exact Or.inl ⟨rows, rfl⟩
    · by_cases hrows : ∀ row ∈ rows, Card.IsLegible row
      · exact Or.inr (Or.inl ⟨_, .noRow hrows rest hrecord⟩)
      · exact Or.inr (Or.inr ⟨rows, _, hrows, rfl⟩)
  · exact Or.inr (Or.inl ⟨_, .noList (not_exists.mp hlist)⟩)

/-- Only records that are no list or hold something that is no row are objected to. -/
theorem Objection.noList_or_noRow {records : Datum} {message : String}
    (h : Objection records message) : (∀ items, records ≠ .list items) ∨
      ∃ items, records = .list items ∧ ∃ item ∈ items, ∀ entries, item ≠ .object entries := by
  cases h with
  | noList h => exact Or.inl h
  | noRow hrows rest h =>
      exact Or.inr ⟨_, rfl, _, List.mem_append_right _ List.mem_cons_self, h⟩

/-- Nothing is wrong with rows. -/
theorem Objection.ne_rows {records : Datum} {message : String} (h : Objection records message)
    (rows : List (List (String × Datum))) : records ≠ .list (rows.map .object) := by
  rintro rfl
  rcases h.noList_or_noRow with hlist | ⟨items, hitems, item, hitem, hrow⟩
  · exact hlist _ rfl
  · rw [← Datum.list.inj hitems] at hitem
    obtain ⟨entries, _, rfl⟩ := List.mem_map.mp hitem
    exact hrow entries rfl

namespace Datum

theorem isWritable_of_mem_items {items : List Datum} (h : itemsWritable items = true)
    {item : Datum} (hitem : item ∈ items) : item.isWritable = true := by
  induction items with
  | nil => cases hitem
  | cons first rest ih =>
      rw [itemsWritable, Bool.and_eq_true] at h
      rcases List.mem_cons.mp hitem with rfl | hitem
      · exact h.1
      · exact ih h.2 hitem

theorem isWritable_of_mem_entries {entries : List (String × Datum)}
    (h : entriesWritable entries = true) {e : String × Datum} (he : e ∈ entries) :
    e.2.isWritable = true := by
  induction entries with
  | nil => cases he
  | cons first rest ih =>
      obtain ⟨name, value⟩ := first
      rw [entriesWritable, Bool.and_eq_true] at h
      rcases List.mem_cons.mp he with rfl | he
      · exact h.1
      · exact ih h.2 he

end Datum

theorem Card.isLegible_of_isWritable {row : List (String × Datum)}
    (h : (Datum.object row).isWritable = true) : IsLegible row := by
  intro f _ _
  rw [Datum.isWritable] at h
  unfold givenFor
  cases hvalue : row.lookup f.name with
  | none => rfl
  | some value => exact Datum.isWritable_of_mem_entries h (mem_of_lookup hvalue)

/-- Records with no number that is too long are objected to whenever they are no list of rows. -/
theorem exists_objection_iff {records : Datum} (h : records.isWritable = true) :
    (∃ message, Objection records message) ↔ (∀ items, records ≠ .list items) ∨
      ∃ items, records = .list items ∧ ∃ item ∈ items, ∀ entries, item ≠ .object entries := by
  refine ⟨fun ⟨_, hobjection⟩ => hobjection.noList_or_noRow, fun hwrong => ?_⟩
  rcases rows_or_objection records with ⟨rows, rfl⟩ | hobjection | ⟨rows, rest, hrows, rfl⟩
  · rcases hwrong with hlist | ⟨items, hitems, item, hitem, hrow⟩
    · exact absurd rfl (hlist _)
    · rw [← Datum.list.inj hitems] at hitem
      obtain ⟨entries, _, rfl⟩ := List.mem_map.mp hitem
      exact absurd rfl (hrow entries)
  · exact hobjection
  · refine absurd (fun row hrow => Card.isLegible_of_isWritable ?_) hrows
    rw [Datum.isWritable] at h
    exact Datum.isWritable_of_mem_items h
      (List.mem_append_left _ (List.mem_map_of_mem hrow))

namespace Query

/-- Records that something is wrong with have no entries, and the fault says what it is. -/
theorem exists_fault_of_objection {records : Datum} {message : String}
    (h : Objection records message) (hdelivered : records.AreDelivered) :
    ∃ fault, entriesOf records = .error fault ∧ fault.isMisuse ∧ fault.message = message := by
  cases h with
  | noList h =>
      refine ⟨.recordsKind records.kind, ?_, rfl, rfl⟩
      unfold entriesOf
      split
      · next items => exact (h items rfl).elim
      · rfl
  | @noRow rows hrows record rest h =>
      have hentry : ∀ index, entryAt index record = .error (.recordKind index record.kind) := by
        intro index
        have hnone : Card.ofRow? record = none := by
          cases record with
          | object entries => exact (h entries rfl).elim
          | card cell =>
              exact (hdelivered _ rfl cell (List.mem_append_right _ List.mem_cons_self)).elim
          | _ => rfl
        rw [entryAt, hnone]
      refine ⟨.recordKind (0 + rows.length) record.kind, ?_, rfl, ?_⟩
      · rw [entriesOf, entriesFrom_append, if_pos hrows, entriesFrom, hentry]
        rfl
      · rw [Nat.zero_add]
        rfl

/-- What a query objects to is what is wrong with the records. -/
theorem answer_objects_iff {records : Datum} (hdelivered : records.AreDelivered) (q : Query)
    (message : String) :
    (∃ fault, q.answer records = .error fault ∧ fault.isMisuse ∧ fault.message = message) ↔
      Objection records message := by
  -- The look at the records is the first step of every query.
  have hfirst : ∀ {message}, Objection records message →
      ∃ fault, q.answer records = .error fault ∧ fault.isMisuse ∧ fault.message = message := by
    intro message h
    obtain ⟨fault, hentries, hfault⟩ := exists_fault_of_objection h hdelivered
    exact ⟨fault, bind_eq_error.mpr (Or.inl hentries), hfault⟩
  refine ⟨?_, hfirst⟩
  rintro ⟨fault, hfault, hmisuse, rfl⟩
  rcases rows_or_objection records with ⟨rows, rfl⟩ | ⟨message, h⟩ | ⟨rows, rest, hrows, rfl⟩
  · rcases (answer_settles q rows).exists_or with ⟨a, ha⟩ | ⟨hoverflow, _⟩ | ⟨hlong, _⟩
    · cases ha.symm.trans hfault
    · obtain rfl := Except.error.inj (hoverflow.symm.trans hfault)
      cases hmisuse
    · obtain rfl := Except.error.inj (hlong.symm.trans hfault)
      cases hmisuse
  · obtain ⟨other, hother, _, hmessage⟩ := hfirst h
    obtain rfl := Except.error.inj (hother.symm.trans hfault)
    rw [hmessage]
    exact h
  · obtain rfl := Except.error.inj
      ((answer_of_not_isLegible_append hrows rest q).symm.trans hfault)
    cases hmisuse

end Query

/-- A question that could be read is without success exactly when a query objects to the
records. -/
theorem Question.handle_objects_iff {records : Datum} (hdelivered : records.AreDelivered)
    {settings : Settings} {text : String} {e : Entities} (dataset : Datum)
    (hread : readDatum settings (.text text) = .ok e) (message : String) :
    (∃ outcome, handle settings (.text text) records dataset = .ok outcome ∧
      outcome.answer = .error message) ↔ Objection records message := by
  obtain ⟨q, hq⟩ := exists_query_of_read hread Vocabulary.issuerNetworks dataset
  rw [← Query.answer_objects_iff hdelivered q message]
  have hread' : readDatum settings (.text text) = pure e := hread
  have hq' : Question.query {} dataset (.text text) (some e) = pure q := hq
  unfold handle
  rw [hread', pure_bind, hq', pure_bind]
  cases q.answer records with
  | ok answer =>
      simp only [pure_eq_ok]
      constructor
      · rintro ⟨_, rfl, h⟩
        cases h
      · rintro ⟨_, h, _⟩
        cases h
  | error fault =>
      by_cases hmisuse : fault.isMisuse = true
      · simp [hmisuse, pure_eq_ok]
      · simp [hmisuse]

/-- A request that is not too large is not refused: its records are rows. -/
theorem Request.not_refused {r : Request} (hlength : r.rows.length ≤ 500) (settings : Settings)
    (reason : String) : r.respond settings ≠ .ok (.refused reason) := by
  intro hrespond
  have hrefusal : r.refusal? = none := if_neg (Nat.not_lt.mpr hlength)
  unfold respond at hrespond
  rw [hrefusal] at hrespond
  obtain ⟨outcome, houtcome, hrespond⟩ := bind_eq_ok.mp hrespond
  cases hanswer : outcome.answer with
  | ok answer =>
      rw [hanswer] at hrespond
      cases hrespond
  | error message =>
      have hdelivered : (Datum.list (r.rows.map .object)).AreDelivered := by
        rintro _ ⟨⟩ cell hcell
        obtain ⟨_, _, hrow⟩ := List.mem_map.mp hcell
        cases hrow
      obtain ⟨e, hread, _⟩ := bind_eq_ok.mp houtcome
      have hobjection := (Question.handle_objects_iff hdelivered _ hread message).mp
        ⟨outcome, houtcome, hanswer⟩
      exact hobjection.ne_rows r.rows rfl

/-- Over records that are no cards put together by hand, a query faults for the wrong kind of
a value exactly when the records are no list or some record is the first that is no row, with
rows in front of it that can be read, and the sentence says which. A question that can be read
is without success in the same cases, and a request with at most 500 records in none. Where all
numbers could be written, it is enough that the records are no list or some record is no row. -/
theorem misuse_iff_objection {records : Datum} (hdelivered : records.AreDelivered) :
    (∀ (q : Query) (message : String),
      (∃ fault, q.answer records = .error fault ∧ fault.isMisuse ∧ fault.message = message) ↔
        Objection records message) ∧
    (∀ (settings : Settings) (text : String) (e : Entities) (dataset : Datum),
      Question.readDatum settings (.text text) = .ok e → ∀ message,
        (∃ outcome, Question.handle settings (.text text) records dataset = .ok outcome ∧
          outcome.answer = .error message) ↔ Objection records message) ∧
    (records.isWritable = true →
      ((∃ message, Objection records message) ↔ (∀ items, records ≠ .list items) ∨
        ∃ items, records = .list items ∧ ∃ item ∈ items, ∀ entries, item ≠ .object entries)) ∧
    (∀ (settings : Settings) (r : Request), r.rows.length ≤ 500 →
      ∀ reason, r.respond settings ≠ .ok (.refused reason)) :=
  ⟨Query.answer_objects_iff hdelivered,
    fun _ _ _ dataset hread => Question.handle_objects_iff hdelivered dataset hread,
    exists_objection_iff, fun settings _ hlength => Request.not_refused hlength settings⟩

/-- Two records, of which the second is a text. -/
def recordsWithText : Datum :=
  .list [.object [("issuer", .text "Chase")], .text "visa"]

theorem misuse_iff_objection_recordsWithText :
    (∃ fault, (Query.ofDataset .null).answer recordsWithText = .error fault ∧ fault.isMisuse ∧
      fault.message = "record 1 must be a CardRecord or mapping, got str") ∧
    (∃ outcome, Question.handle {} (.text "visa cards") recordsWithText .null = .ok outcome ∧
      outcome.answer = .error "record 1 must be a CardRecord or mapping, got str") ∧
    (∃ message, Objection recordsWithText message) ∧
    (∀ reason, (Request.respond {} ⟨"visa cards", [], none⟩) ≠ .ok (.refused reason)) := by
  have hdelivered : recordsWithText.AreDelivered := by
    intro items hitems cell hcell
    rw [← Datum.list.inj hitems] at hcell
    simp at hcell
  have hrows : ∀ row ∈ [[("issuer", Datum.text "Chase")]], Card.IsLegible row := by
    decide +kernel
  have hobjection : Objection recordsWithText
      "record 1 must be a CardRecord or mapping, got str" :=
    .noRow hrows [] nofun
  obtain ⟨e, hread⟩ : ∃ e, Question.read {} "visa cards" = .ok e :=
    Question.exists_read_of_short (by decide) (by decide)
  obtain ⟨hanswer, hhandle, hexists, hrespond⟩ := misuse_iff_objection hdelivered
  refine ⟨(hanswer _ _).mpr hobjection, (hhandle {} "visa cards" e .null hread _).mpr hobjection,
    (hexists (by decide +kernel)).mpr ?_, hrespond {} _ (Nat.zero_le _)⟩
  exact Or.inr ⟨_, rfl, .text "visa", List.mem_cons_of_mem _ List.mem_cons_self, nofun⟩

/-- A row that cannot be read, and behind it a record that is no row. -/
def recordsBehindLong : Datum :=
  .list [.object [("issuer", .whole (10 ^ 5000))], .whole 5]

/-- The second record is no row, but the look at the records has ended at the first. -/
theorem not_misuse_recordsBehindLong :
    (∃ items, recordsBehindLong = .list items ∧ ∃ item ∈ items, ∀ entries, item ≠ .object entries) ∧
      ¬∃ fault, (Query.ofDataset .null).answer recordsBehindLong = .error fault ∧
        fault.isMisuse := by
  refine ⟨⟨_, rfl, .whole 5, List.mem_cons_of_mem _ List.mem_cons_self, nofun⟩, ?_⟩
  rintro ⟨fault, hfault, hmisuse⟩
  have hlong : ¬∀ row ∈ [[("issuer", Datum.whole (10 ^ 5000))]], Card.IsLegible row := by
    decide +kernel
  have hanswer : (Query.ofDataset .null).answer recordsBehindLong = .error .longNumber :=
    Query.answer_of_not_isLegible_append hlong [.whole 5] _
  obtain rfl := Except.error.inj (hanswer.symm.trans hfault)
  cases hmisuse

end Cardfolio
