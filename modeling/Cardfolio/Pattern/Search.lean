import Cardfolio.Pattern.Basic

/-!
# Searching a text

A search goes through the places of a text from left to right and takes the
preferred reading at the first place where there is one. `findAll` goes on after
each match, so that its matches do not overlap. The text before a place stays in
view, because the edge of a word depends on it.
-/

namespace Cardfolio

/-- A match: where it begins and ends and its named pieces. -/
structure Match where
  start : Cursor
  stop : Cursor
  pieces : List (String × Cursor × Cursor)

/-- A stretch of a text, by the positions where it begins and where it has ended. -/
structure Span where
  start : Nat
  stop : Nat
  deriving DecidableEq, Repr

/-- Two stretches have a character in common. -/
def Span.overlaps (a b : Span) : Bool :=
  a.start < b.stop && b.start < a.stop

namespace Match

/-- The matched text. -/
def text (m : Match) : List Char :=
  m.start.upTo m.stop

/-- The number of matched characters. -/
def length (m : Match) : Nat :=
  m.start.after.length - m.stop.after.length

def span (m : Match) : Span :=
  ⟨m.start.position, m.start.position + m.length⟩

/-- The text of a named piece, empty if it was not read. -/
def pieceText (m : Match) (name : String) : List Char :=
  match m.pieces.lookup name with
  | some (start, stop) => start.upTo stop
  | none => []

end Match

namespace Pattern

/-- The preferred match at a place. -/
def matchAt (p : Pattern) (c : Cursor) : Option Match :=
  (p.runs ⟨c, []⟩).head?.map fun t => ⟨c, t.cursor, t.pieces⟩

/-- The first match at or after a place. -/
def findFrom (p : Pattern) (before : List Char) : List Char → Option Match
  | [] => p.matchAt ⟨before, []⟩
  | c :: after =>
    match p.matchAt ⟨before, c :: after⟩ with
    | some m => some m
    | none => p.findFrom (c :: before) after

/-- The first match in a text. -/
def find? (p : Pattern) (text : List Char) : Option Match :=
  p.findFrom [] text

/-- The pattern matches somewhere. -/
def occursIn (p : Pattern) (text : List Char) : Bool :=
  (p.find? text).isSome

/-- The matches after `skip` characters. -/
def findAllFrom (p : Pattern) : Nat → List Char → List Char → List Match
  | _, _, [] => []
  | skip + 1, before, c :: after => p.findAllFrom skip (c :: before) after
  | 0, before, c :: after =>
    match p.matchAt ⟨before, c :: after⟩ with
    | some m => m :: p.findAllFrom (m.length - 1) (c :: before) after
    | none => p.findAllFrom 0 (c :: before) after

/-- The matches in a text that each begin where the one before has ended, or later. They are
looked for in front of a character, so a pattern that can match nothing does not match at the
end. -/
def findAll (p : Pattern) (text : List Char) : List Match :=
  p.findAllFrom 0 [] text

/-- The text after `skip` characters without the matches. -/
def removeFrom (p : Pattern) : Nat → List Char → List Char → List Char
  | _, _, [] => []
  | skip + 1, before, c :: after => p.removeFrom skip (c :: before) after
  | 0, before, c :: after =>
    match p.matchAt ⟨before, c :: after⟩ with
    | some m =>
      if m.length = 0 then c :: p.removeFrom 0 (c :: before) after
      else p.removeFrom (m.length - 1) (c :: before) after
    | none => c :: p.removeFrom 0 (c :: before) after

/-- The text without all matches. -/
def remove (p : Pattern) (text : List Char) : List Char :=
  p.removeFrom 0 [] text

end Pattern

end Cardfolio
