import Cardfolio.Fault
import Cardfolio.Number.Binary64

/-!
# Numbers

A number is a whole number of any size or a double, and the two are different
values even when they are equal: 5 stays apart from 5.0 in every answer.

Comparison is exact. A whole number and a double are both placed on the line of
units, where the whole numbers lie `Binary64.one` apart; only the absence of a
number has no place. Arithmetic on two whole numbers is exact too. As soon as a
double takes part the whole numbers become doubles first, and that fails when
one is too large.
-/

namespace Cardfolio

inductive Number
  | whole (n : Int)
  | real (x : Binary64)
  deriving DecidableEq

/-- A place on the line of units, or beyond one of its ends. -/
inductive Place
  | below
  | units (n : Int)
  | above
  deriving DecidableEq

/-- Strictly to the left. -/
def Place.lt : Place → Place → Bool
  | .below, .below => false
  | .below, _ => true
  | .units m, .units n => m < n
  | .units _, .above => true
  | _, _ => false

namespace Number

def place? : Number → Option Place
  | whole n => some (.units (n * Binary64.one))
  | real (.nan _) => none
  | real (.infinite negative) => some (if negative then .below else .above)
  | real (.finite negative units _) => some (.units (Binary64.signed negative units))

/-- Strictly less. -/
def lt (a b : Number) : Bool :=
  match a.place?, b.place? with
  | some p, some q => p.lt q
  | _, _ => false

/-- Equal in value, whatever the form. Without a number there is no equality. -/
def same (a b : Number) : Bool :=
  match a.place?, b.place? with
  | some p, some q => p = q
  | _, _ => false

/-- The same object, where there is no number. -/
def sameObject : Number → Number → Bool
  | real (.nan (some i)), real (.nan (some j)) => i == j
  | _, _ => false

/-- One number to a table that is searched: equal in value, or the same object. -/
def sameKey (a b : Number) : Bool :=
  a.same b || a.sameObject b

/-- Less or equal. -/
def le (a b : Number) : Bool :=
  a.lt b || a.same b

/-- The first of the least ones. -/
def least (first : Number) (rest : List Number) : Number :=
  rest.foldl (fun best n => if n.lt best then n else best) first

/-- The first of the greatest ones. -/
def greatest (first : Number) (rest : List Number) : Number :=
  rest.foldl (fun best n => if best.lt n then n else best) first

def isZero : Number → Bool
  | whole n => n == 0
  | real x => x.isZero

def isNaN : Number → Bool
  | whole _ => false
  | real x => x.isNaN

/-- The whole number in place of a double that is equal to one. -/
def settle (x : Binary64) : Number :=
  match x.toInt? with
  | some n => whole n
  | none => real x

/-- The nearest double. -/
def toReal : Number → Except Fault Binary64
  | whole n => (Binary64.ofInt? n).elim (.error .overflow) .ok
  | real x => .ok x

def add : Number → Number → Except Fault Number
  | whole m, whole n => .ok (whole (m + n))
  | a, b => do
    let x ← a.toReal
    let y ← b.toReal
    return real (x.add y)

def sub : Number → Number → Except Fault Number
  | whole m, whole n => .ok (whole (m - n))
  | a, b => do
    let x ← a.toReal
    let y ← b.toReal
    return real (x.sub y)

def mul : Number → Number → Except Fault Number
  | whole m, whole n => .ok (whole (m * n))
  | a, b => do
    let x ← a.toReal
    let y ← b.toReal
    return real (x.mul y)

/-- The quotient as a double. Two whole numbers are divided exactly and rounded once; a quotient
beyond the largest double is a fault. The divisor is not zero. -/
def div : Number → Number → Except Fault Binary64
  | whole m, whole n =>
    match Binary64.nearest ((m < 0) ^^ (n < 0)) m.natAbs n.natAbs with
    | .infinite _ => .error .overflow
    | x => .ok x
  | a, b => do
    let x ← a.toReal
    let y ← b.toReal
    return x.div y

/-- The sum from left to right. -/
def sum (numbers : List Number) : Except Fault Number :=
  numbers.foldlM add (whole 0)

end Number

end Cardfolio
