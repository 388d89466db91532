import Cardfolio.Card.Field
import Cardfolio.Datum.Calendar
import Cardfolio.Number.Basic
import Cardfolio.Number.Numeral
import Cardfolio.Text.Quoted

/-!
# Data of rows and queries

What a store delivers in the cell of a row, and what a query compares a cell
with, can be any value of a data format: absent, a truth value, a number, text,
a list, an object with named entries, a date. A row itself is an object; a card
that was put together by hand and not read from a row is a value of its own.

Where a value has to be text it has a written form. At the outside, text stands
for itself; inside a list, an object or a card it stands between quotes. The two
forms are `written` and `inner`. A value with a whole number of too many digits
in it cannot be written, and `write` fails there.

Values that never change can be looked up in a table, and `same` says which of
them are one key: those that are equal, and what is one object. The object
matters for the doubles that are no number only, since they are equal to
nothing. A list, an object and a card that holds one are no keys; `obstacle?`
names what stands in the way.
-/

namespace Cardfolio

inductive Datum
  | null
  | bool (b : Bool)
  | number (n : Number)
  | text (s : String)
  | list (items : List Datum)
  | object (entries : List (String × Datum))
  | date (d : Date)
  | moment (t : Moment)
  /-- A card put together by hand, by its stored cells. Only the reward table can be without one:
  all cards for which none was given share one that is empty. -/
  | card (cell : Field → Option Datum)

namespace Datum

instance : Inhabited Datum := ⟨null⟩

/-- The word for the type of a value in messages. -/
def kind : Datum → String
  | null => "NoneType"
  | bool _ => "bool"
  | number (.whole _) => "int"
  | number (.real _) => "float"
  | text _ => "str"
  | list _ => "list"
  | object _ => "dict"
  | date _ => "date"
  | moment _ => "datetime"
  | card _ => "CardRecord"

def isNull : Datum → Bool
  | null => true
  | _ => false

/-- Neither absent nor false nor zero nor empty. -/
def isTruthy : Datum → Bool
  | null => false
  | bool b => b
  | number n => !n.isZero
  | text s => !s.isEmpty
  | list items => !items.isEmpty
  | object entries => !entries.isEmpty
  | date _ | moment _ | card _ => true

/-- The entry of this name, when the value is an object. -/
def entry? (name : String) : Datum → Option Datum
  | object entries => entries.lookup name
  | _ => none

/-- Entries with one more, in place of an earlier one of the same name. -/
def putEntry (name : String) (value : α) : List (String × α) → List (String × α)
  | [] => [(name, value)]
  | (other, old) :: rest =>
    if other = name then (other, value) :: rest else (other, old) :: putEntry name value rest

/-- The whole number `n`. -/
def whole (n : Int) : Datum :=
  number (.whole n)

/-- A cell as an operand of arithmetic. A truth value counts as one or zero. -/
def operand? : Datum → Option Number
  | number n => some n
  | bool b => some (.whole (if b then 1 else 0))
  | _ => none

/-- The word for the type of an operand, which for dates is the long one. -/
def operandKind : Datum → String
  | date _ => "datetime.date"
  | moment _ => "datetime.datetime"
  | value => value.kind

end Datum

/-- The written form of a number, however long it is. -/
def Number.text : Number → String
  | .whole n => toString n
  | .real x => x.text

/-- A number that may be written: a whole one has a limited number of digits. -/
def Number.isWritable : Number → Bool
  | .whole n => n.natAbs < Nat.pow 10 Numeral.maxDigits
  | .real _ => true

/-- A text between quotes. -/
def quotedText (s : String) : String :=
  String.ofList (Text.quoted s.toList)

namespace Moment

/-- The form of an offset inside another value: its days, which may be less than none, and the rest
in seconds and microseconds, as far as there are any. -/
def innerOffset (offset : Int) : String :=
  if offset = 0 then "datetime.timezone.utc"
  else
    let rest := offset % microsOfDay
    let parts := [("days", offset / microsOfDay), ("seconds", rest / 1000000),
      ("microseconds", rest % 1000000)].filter (·.2 ≠ 0)
    "datetime.timezone(datetime.timedelta("
      ++ ", ".intercalate (parts.map fun (name, n) => s!"{name}={n}") ++ "))"

/-- The form of a moment inside another value. -/
def inner (t : Moment) : String :=
  let seconds := if t.micro ≠ 0 then s!", {t.second}, {t.micro}"
    else if t.second ≠ 0 then s!", {t.second}" else ""
  let zone := (t.offset.map fun offset => ", tzinfo=" ++ innerOffset offset).getD ""
  s!"datetime.datetime({t.date.year}, {t.date.month}, {t.date.day}, {t.hour}, {t.minute}"
    ++ seconds ++ zone ++ ")"

end Moment

namespace Datum

mutual

/-- The written form of a value inside another one. -/
def inner : Datum → String
  | .null => "None"
  | .bool b => if b then "True" else "False"
  | .number n => n.text
  | .text s => quotedText s
  | .list items => "[" ++ ", ".intercalate (innerItems items) ++ "]"
  | .object entries => "\x7b" ++ ", ".intercalate (innerEntries entries) ++ "\x7d"
  | .date d => s!"datetime.date({d.year}, {d.month}, {d.day})"
  | .moment t => t.inner
  | .card cell =>
    "CardRecord("
      ++ ", ".intercalate (Field.stored.map fun f => f.name ++ "=" ++ innerCell (cell f)) ++ ")"

def innerItems : List Datum → List String
  | [] => []
  | item :: items => item.inner :: innerItems items

def innerEntries : List (String × Datum) → List String
  | [] => []
  | (name, value) :: entries => (quotedText name ++ ": " ++ value.inner) :: innerEntries entries

def innerCell : Option Datum → String
  | none => "mappingproxy(\x7b\x7d)"
  | some value => value.inner

end

/-- The written form of a value by itself: text is itself, a date its standard form. -/
def written : Datum → String
  | .text s => s
  | .date d => d.iso
  | .moment t => t.date.iso ++ " " ++ t.clock
  | value => value.inner

mutual

/-- A value that may be written: so may all numbers in it. -/
def isWritable : Datum → Bool
  | .number n => n.isWritable
  | .list items => itemsWritable items
  | .object entries => entriesWritable entries
  | .card cell => Field.stored.all fun f => cellWritable (cell f)
  | _ => true

def itemsWritable : List Datum → Bool
  | [] => true
  | item :: items => item.isWritable && itemsWritable items

def entriesWritable : List (String × Datum) → Bool
  | [] => true
  | (_, value) :: entries => value.isWritable && entriesWritable entries

def cellWritable : Option Datum → Bool
  | none => true
  | some value => value.isWritable

end

/-- The written form of a value, where its text is asked for. -/
def write (value : Datum) : Except Fault String :=
  if value.isWritable then .ok value.written else .error .longNumber

/-- The text of a cell without what decorates an amount: the separators, dollar signs wherever
they stand and percent signs at the end. -/
def undecorated (s : String) : List Char :=
  Text.trimEnd (· == '%') ((Text.strip s.toList).filter fun c => c != ',' && c != '$')

/-- The number that a text spells, decorations apart. It is whole when its value is and no
decimal point was written. -/
def spelledNumber? (s : String) : Option Number :=
  let digits := undecorated s
  (Numeral.real? digits).map fun x =>
    if digits.contains '.' then .real x else .settle x

/-- The number in a cell: a number as it is, or the one its text spells. A truth value is none. -/
def toNumber? : Datum → Option Number
  | .number n => some n
  | .text s => spelledNumber? s
  | _ => none

mutual

/-- What keeps a value from being a key: the word for the type of the first value in it that can
change. -/
def obstacle? : Datum → Option String
  | .list items => some (Datum.list items).kind
  | .object entries => some (Datum.object entries).kind
  | .card cell => Field.stored.findSome? fun f => cellObstacle? (cell f)
  | _ => none

def cellObstacle? : Option Datum → Option String
  | none => some "mappingproxy"
  | some value => value.obstacle?

end

/-- Whether two values that hold no others are one key. Numbers and truth values are told apart by
their value, or by their object if they have none, and moments by their instant. -/
def sameLeaf : Datum → Datum → Bool
  | .null, .null => true
  | .text a, .text b => a == b
  | .date a, .date b => a == b
  | .moment a, .moment b => a.same b
  | a, b =>
    match a.operand?, b.operand? with
    | some m, some n => m.sameKey n
    | _, _ => false

mutual

/-- Whether two values are one key. Cards are when all of their cells are. -/
def same : Datum → Datum → Bool
  | .card a, .card b => Field.stored.all fun f => sameCell (a f) (b f)
  | a, b => a.sameLeaf b

def sameCell : Option Datum → Option Datum → Bool
  | some a, some b => a.same b
  | none, none => true
  | _, _ => false

end

end Datum

end Cardfolio
