import Cardfolio.Text.Blank
import Cardfolio.Text.Digit
import Cardfolio.Text.Word

/-!
# Patterns of text

A pattern describes pieces of text. Reading one from a place in a text can go
several ways, and the ways have an order of preference: the first branch of an
alternative before the second, a long run before a short one. `Pattern.runs`
lists all ways in this order, each by the place where it ends. The piece that a
pattern matches at a place is the first of them, and a pattern that is followed
by another one may have to fall back on a later one.

There is no general repetition. What repeats is a single class of characters, so
a run is a stretch of the text and its lengths can simply be counted down; the
recursion is on the pattern and, for a run, on the text.
-/

namespace Cardfolio

/-- The small ASCII letter that a character stands for when case is ignored. The long s, the
dotless and the dotted i and the sign for kelvin are such letters too. -/
def latinLetter? (c : Char) : Option Char :=
  if c.isAlpha then some c.toLower
  else if c = 'ſ' then some 's'
  else if c = 'ı' || c = 'İ' then some 'i'
  else if c = '\u212a' then some 'k'
  else none

/-- A class of characters. -/
inductive CharClass
  | exactly (c : Char)
  /-- A small ASCII letter in either case. -/
  | letter (c : Char)
  /-- Any ASCII letter in either case. -/
  | latin
  | digit
  | blank
  | word
  | notNewline
  | either (a b : CharClass)

def CharClass.accepts : CharClass → Char → Bool
  | exactly d, c => c == d
  | letter d, c => latinLetter? c == some d
  | latin, c => (latinLetter? c).isSome
  | digit, c => Text.isDecimalDigit c
  | blank, c => Text.isBlank c
  | word, c => Text.isWordChar c
  | notNewline, c => c != '\n'
  | either a b, c => a.accepts c || b.accepts c

/-- A place in a text: what has been read, nearest first, and what is to come. -/
structure Cursor where
  before : List Char
  after : List Char

namespace Cursor

/-- The beginning of a text. -/
def start (text : List Char) : Cursor := ⟨[], text⟩

/-- The number of characters in front of a place. -/
def position (c : Cursor) : Nat := c.before.length

/-- The text from a place up to a later one. -/
def upTo (c stop : Cursor) : List Char :=
  c.after.take (c.after.length - stop.after.length)

/-- A place with a word character on exactly one side. -/
def isEdge (c : Cursor) : Bool :=
  c.before.head?.any Text.isWordChar != c.after.head?.any Text.isWordChar

/-- The end of the text, a line feed in the last place not counted. -/
def isEnd (c : Cursor) : Bool :=
  c.after.isEmpty || c.after == ['\n']

end Cursor

/-- One way of reading a pattern: where it has come to, and the named pieces read so far by the
places where they begin and end. -/
structure Thread where
  cursor : Cursor
  pieces : List (String × Cursor × Cursor)

inductive Pattern
  /-- Nothing, at any place. -/
  | here
  /-- One character of a class. -/
  | one (k : CharClass)
  /-- One or more characters of a class. -/
  | run (k : CharClass)
  | seq (p q : Pattern)
  | alt (p q : Pattern)
  /-- The edge of a word. -/
  | edge
  /-- The beginning of the text. -/
  | atStart
  /-- The end of the text. -/
  | atEnd
  /-- Nothing, at a place where the pattern cannot be read. -/
  | notAhead (p : Pattern)
  /-- Nothing, at a place that does not follow characters of these classes. -/
  | notBehind (ks : List CharClass)
  /-- A named piece. -/
  | piece (name : String) (p : Pattern)

namespace Pattern

/-- The places up to which a run can go, the longest run first, in front of those found already. -/
def runEnds (k : CharClass) (before : List Char) (found : List Cursor) :
    List Char → List Cursor
  | [] => found
  | c :: after =>
    if k.accepts c then runEnds k (c :: before) (⟨c :: before, after⟩ :: found) after else found

/-- Whether the nearest characters are of these classes, the nearest first. -/
def follows : List CharClass → List Char → Bool
  | [], _ => true
  | _ :: _, [] => false
  | k :: ks, c :: cs => k.accepts c && follows ks cs

/-- All ways of reading a pattern, in order of preference. -/
def runs : Pattern → Thread → List Thread
  | here, t => [t]
  | one k, t =>
    match t.cursor.after with
    | [] => []
    | c :: after =>
      if k.accepts c then [{ t with cursor := ⟨c :: t.cursor.before, after⟩ }] else []
  | run k, t =>
    (runEnds k t.cursor.before [] t.cursor.after).map fun stop => { t with cursor := stop }
  | seq p q, t => (p.runs t).flatMap q.runs
  | alt p q, t => p.runs t ++ q.runs t
  | edge, t => if t.cursor.isEdge then [t] else []
  | atStart, t => if t.cursor.before.isEmpty then [t] else []
  | atEnd, t => if t.cursor.isEnd then [t] else []
  | notAhead p, t => if (p.runs t).isEmpty then [t] else []
  | notBehind ks, t => if follows ks.reverse t.cursor.before then [] else [t]
  | piece name p, t =>
    (p.runs t).map fun u => { u with pieces := (name, t.cursor, u.cursor) :: u.pieces }

end Pattern

end Cardfolio
