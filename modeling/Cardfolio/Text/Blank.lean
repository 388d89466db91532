/-!
# White space

A blank is any character that separates words: the control characters from tab
to carriage return, the four information separators, and every space and line
separator of the character set, the no-break space among them. The zero-width
space is not one.

`strip` takes blanks off both ends and `collapse` puts one space for each run.
-/

namespace Cardfolio.Text

/-- White space of any kind. -/
def isBlank (c : Char) : Bool :=
  let n := c.toNat
  (9 ≤ n && n ≤ 13) || (28 ≤ n && n ≤ 32) || n == 133 || n == 160 || n == 5760
    || (8192 ≤ n && n ≤ 8202) || n == 8232 || n == 8233 || n == 8239 || n == 8287 || n == 12288

/-- Takes every leading character that satisfies `p` away, and every trailing one. -/
def trim (p : Char → Bool) (cs : List Char) : List Char :=
  ((cs.dropWhile p).reverse.dropWhile p).reverse

/-- The text without the blanks at its two ends. -/
def strip (cs : List Char) : List Char :=
  trim isBlank cs

/-- Takes every trailing character that satisfies `p` away. -/
def trimEnd (p : Char → Bool) (cs : List Char) : List Char :=
  (cs.reverse.dropWhile p).reverse

/-- One `joint` for each maximal run of characters satisfying `p`; within a run that has its
joint already, none. -/
def joinRunsFrom (p : Char → Bool) (joint : Char) (inRun : Bool) : List Char → List Char
  | [] => []
  | c :: cs =>
    if p c then
      if inRun then joinRunsFrom p joint true cs else joint :: joinRunsFrom p joint true cs
    else c :: joinRunsFrom p joint false cs

/-- One `joint` for each maximal run of characters satisfying `p`. -/
def joinRuns (p : Char → Bool) (joint : Char) (cs : List Char) : List Char :=
  joinRunsFrom p joint false cs

/-- One space for each run of blanks. -/
def collapse (cs : List Char) : List Char :=
  joinRuns isBlank ' ' cs

/-- The maximal runs of characters that are not blank. -/
def words (cs : List Char) : List (List Char) :=
  (cs.splitOnP isBlank).filter (!·.isEmpty)

end Cardfolio.Text
