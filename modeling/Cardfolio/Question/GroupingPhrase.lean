import Cardfolio.Pattern.Phrase

/-!
# What a question groups by

The phrase behind `grouped by`, `per` and the like names what the answer is to
be grouped by. A bare `by` does so too, unless it belongs to a verb of ordering
or filtering, or to a listing of the cards: `sorted by apr` names a sort key.

A phrase ends before the first stop word, loses its punctuation and a leading
article, and counts only if something is left.
-/

namespace Cardfolio.GroupingPhrase

open Pattern

/-- Words that end a phrase. -/
def stopWords : List String := [
  "limit", "order", "ordered", "sorted", "having", "with", "where", "and", "or", "showing",
  "for", "that", "in"]

/-- A stop word and all behind it. -/
def stop : Pattern :=
  sequence [gap, oneOf stopWords, edge, anything, atEnd]

/-- Punctuation and blanks at the end. -/
def punctuation : Pattern :=
  seq (run (.either .blank (charOf "?.!,;:"))) atEnd

/-- Words that a phrase does not begin with. -/
def articles : List String :=
  ["the", "my", "their", "each", "every"]

/-- An article or the like at the beginning. -/
def article : Pattern :=
  sequence [atStart, oneOf articles, gap]

/-- A phrase without what does not belong to it. -/
def trim (phrase : List Char) : List Char :=
  let phrase := punctuation.remove (stop.remove phrase)
  Text.strip (article.remove (Text.strip phrase))

/-- The phrase that is left after trimming, if any. -/
def trimmed? (phrase : List Char) : Option (List Char) :=
  match trim phrase with
  | [] => none
  | rest => some rest

/-- What introduces a phrase in any case, the most explicit first. -/
def introductions : List Pattern :=
  [spaced [lit "grouped", lit "by"], spaced [lit "group", lit "by"],
    spaced [sequence [lit "organi", one (.either (.letter 's') (.letter 'z')), lit "ed"],
      lit "by"],
    spaced [lit "breakdown", lit "by"], spaced [lit "distribution", lit "by"],
    lit "per"].map fun words => sequence [edge, words, gap, piece "phrase" (run .notNewline)]

/-- A bare `by`. -/
def bareBy : Pattern :=
  sequence [edge, lit "by", gap]

/-- Up to three words. -/
def fewWords : Pattern :=
  few (seq gap (run .word)) 3

/-- A verb of ordering or filtering up to three words before `by`. -/
def orderingBy : Pattern :=
  sequence [edge, oneOf ["sort", "order", "rank", "filter", "arrange"], many .word, fewWords,
    gap, lit "by", edge]

/-- A listing of the cards. -/
def listingBy : Pattern :=
  sequence [whole (oneOf ["show", "list", "display"]), fewWords, gap, plural "card", gap,
    lit "by", edge]

/-- The stretches in which a bare `by` names no groups. -/
def guarded (text : List Char) : List Span :=
  [orderingBy, listingBy].flatMap fun p => (p.findAll text).map (·.span)

/-- The phrase behind an introduction. -/
def introduced? (text : List Char) (introduction : Pattern) : Option (List Char) :=
  (introduction.find? text).bind fun m => trimmed? (m.pieceText "phrase")

/-- The phrase behind the first bare `by` that has one and is not guarded. -/
def afterBy? (text : List Char) : Option (List Char) :=
  let spans := guarded text
  (bareBy.findAll text).findSome? fun m =>
    if spans.any fun s => s.start ≤ m.span.start && m.span.start < s.stop then none
    else trimmed? m.stop.after

/-- The phrase that a question groups by. -/
def find? (question : List Char) : Option (List Char) :=
  let text := Text.strip question
  (introductions.findSome? (introduced? text)).or (afterBy? text)

end Cardfolio.GroupingPhrase
