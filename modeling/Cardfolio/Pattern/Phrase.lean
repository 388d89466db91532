import Cardfolio.Pattern.Search

/-!
# Phrases

The vocabulary is written in phrases: words with any blanks between them, some
of them in one of several forms. A phrase ignores case, unless it is `spelled`.
-/

namespace Cardfolio.Pattern

/-- A character of a word: a letter in either case, and any other character exactly. -/
def caseless (c : Char) : CharClass :=
  if c.isLower then .letter c else .exactly c

/-- Patterns one after another. -/
def sequence : List Pattern → Pattern
  | [] => here
  | [p] => p
  | p :: ps => seq p (sequence ps)

/-- One of several patterns, preferring the earlier ones. -/
def anyOf : List Pattern → Pattern
  | [] => notAhead here
  | [p] => p
  | p :: ps => alt p (anyOf ps)

/-- A text in any case; its letters are given small. -/
def lit (s : String) : Pattern :=
  sequence (s.toList.map fun c => one (caseless c))

/-- A text exactly. -/
def spelled (s : String) : Pattern :=
  sequence (s.toList.map fun c => one (.exactly c))

/-- A pattern or nothing, preferring the pattern. -/
def maybe (p : Pattern) : Pattern :=
  alt p here

/-- Any number of characters of a class, preferring many. -/
def many (k : CharClass) : Pattern :=
  maybe (run k)

/-- Up to `n` times a pattern, preferring few. -/
def few (p : Pattern) : Nat → Pattern
  | 0 => here
  | n + 1 => alt here (seq p (few p n))

/-- The blanks between two words. -/
def gap : Pattern := run .blank

/-- Blanks, if there are any. -/
def room : Pattern := many .blank

/-- The rest of a line, preferring much. -/
def anything : Pattern := many .notNewline

/-- A text in any case, and its plural in s. -/
def plural (s : String) : Pattern :=
  seq (lit s) (maybe (lit "s"))

/-- Patterns with blanks between them. -/
def spaced : List Pattern → Pattern
  | [] => here
  | [p] => p
  | p :: ps => seq p (seq gap (spaced ps))

/-- A pattern between two edges of words. -/
def whole (p : Pattern) : Pattern :=
  seq edge (seq p edge)

/-- Words, each in any of its forms, as a whole. -/
def phrase (ps : List Pattern) : Pattern :=
  whole (spaced ps)

/-- A single word in any case. -/
def word (s : String) : Pattern :=
  whole (lit s)

/-- One of several words in any case. -/
def oneOf (words : List String) : Pattern :=
  anyOf (words.map lit)

/-- One character of a text. -/
def charOf (s : String) : CharClass :=
  match s.toList.map CharClass.exactly with
  | [] => .exactly ' '
  | k :: ks => ks.foldl CharClass.either k

/-- The words of a keyword. -/
def keywordWords (s : String) : List String :=
  (Text.words s.toList).map String.ofList

/-- A keyword in any case, with any blanks between its words, that is not part of a longer
word. -/
def keyword (s : String) : Pattern :=
  sequence [notBehind [.word], spaced ((keywordWords s).map lit), notAhead (one .word)]

/-- A keyword exactly as it is spelled, blanks and all, that is not part of a longer word. -/
def exactKeyword (s : String) : Pattern :=
  sequence [notBehind [.word], spelled s, notAhead (one .word)]

end Cardfolio.Pattern
