/-!
# Dates

A record store may deliver calendar dates and moments of a day. They are written
in the standard form year-month-day, whose parts have a fixed width, so that the
written dates sort like the dates.

A moment may know its distance from universal time. Two that do are the same
when they are the same instant, wherever the clocks hang; one that does not is
never the same as one that does.
-/

namespace Cardfolio

/-- A number with zeros in front, up to `width` digits. -/
def padded (width n : Nat) : String :=
  let digits := Nat.toDigits 10 n
  String.ofList (List.replicate (width - digits.length) '0' ++ digits)

/-- A calendar date. -/
structure Date where
  year : Nat
  month : Nat
  day : Nat
  deriving DecidableEq, Repr

/-- A moment of a date. The offset is how many microseconds the clock is ahead of universal time, if
that is known. -/
structure Moment where
  date : Date
  hour : Nat
  minute : Nat
  second : Nat
  micro : Nat
  offset : Option Int
  deriving DecidableEq, Repr

namespace Date

/-- The written form, such as `2024-02-29`. -/
def iso (d : Date) : String :=
  padded 4 d.year ++ "-" ++ padded 2 d.month ++ "-" ++ padded 2 d.day

/-- Reads the written form. -/
def ofIso? (s : String) : Option Date :=
  match s.toList with
  | [y1, y2, y3, y4, '-', m1, m2, '-', d1, d2] => do
    let year ← (String.ofList [y1, y2, y3, y4]).toNat?
    let month ← (String.ofList [m1, m2]).toNat?
    let day ← (String.ofList [d1, d2]).toNat?
    return { year, month, day }
  | _ => none

def isLeapYear (year : Nat) : Bool :=
  year % 4 == 0 && (year % 100 != 0 || year % 400 == 0)

/-- The number of days in front of a month in its year. -/
def daysBeforeMonth (year month : Nat) : Nat :=
  let lengths := [31, if isLeapYear year then 29 else 28, 31, 30, 31, 30, 31, 31, 30, 31, 30, 31]
  (lengths.take (month - 1)).foldl (· + ·) 0

/-- The number of a day, counted from the first day of the year 1. -/
def dayNumber (d : Date) : Nat :=
  let years := d.year - 1
  365 * years + years / 4 - years / 100 + years / 400 + daysBeforeMonth d.year d.month + d.day

end Date

namespace Moment

/-- The number of microseconds in a day. -/
def microsOfDay : Nat := 24 * 60 * 60 * 1000000

/-- The microseconds of an hour, a minute, a second and a fraction of it. -/
def micros (hour minute second micro : Nat) : Nat :=
  ((hour * 60 + minute) * 60 + second) * 1000000 + micro

/-- A time of day, or a distance between clocks: minutes always, seconds and their fraction only as
far as they are asked for. -/
def clockText (withSeconds : Bool) (micros : Nat) : String :=
  let seconds := micros / 1000000
  let fraction := micros % 1000000
  padded 2 (seconds / 3600) ++ ":" ++ padded 2 (seconds / 60 % 60)
    ++ (if withSeconds || seconds % 60 ≠ 0 || fraction ≠ 0 then ":" ++ padded 2 (seconds % 60)
      else "")
    ++ (if fraction ≠ 0 then "." ++ padded 6 fraction else "")

/-- The written form of an offset, such as `+01:00`. -/
def offsetText (offset : Int) : String :=
  (if offset < 0 then "-" else "+") ++ clockText false offset.natAbs

/-- The microseconds since midnight. -/
def microsOfClock (t : Moment) : Nat :=
  micros t.hour t.minute t.second t.micro

/-- The time of day. -/
def clock (t : Moment) : String :=
  clockText true t.microsOfClock ++ (t.offset.map offsetText).getD ""

/-- The written form, such as `2024-02-29T10:20:30`. -/
def iso (t : Moment) : String :=
  t.date.iso ++ "T" ++ t.clock

/-- Reads the seconds and their fraction, both of which may be missing, and gives the rest. -/
def seconds? : List Char → Option (Nat × List Char)
  | ':' :: s1 :: s2 :: '.' :: rest => do
    let second ← (String.ofList [s1, s2]).toNat?
    let micro ← (String.ofList (rest.take 6)).toNat?
    return (micros 0 0 second micro, rest.drop 6)
  | ':' :: s1 :: s2 :: rest => do
    let second ← (String.ofList [s1, s2]).toNat?
    return (micros 0 0 second 0, rest)
  | rest => some (0, rest)

/-- Reads a time of day and gives the rest. -/
def clock? : List Char → Option (Nat × List Char)
  | h1 :: h2 :: ':' :: m1 :: m2 :: rest => do
    let hour ← (String.ofList [h1, h2]).toNat?
    let minute ← (String.ofList [m1, m2]).toNat?
    let (seconds, rest) ← seconds? rest
    return (micros hour minute 0 0 + seconds, rest)
  | _ => none

/-- Reads an offset, which may be missing. -/
def offset? : List Char → Option (Option Int)
  | [] => some none
  | '+' :: rest => (clock? rest).map fun found => some (found.1 : Int)
  | '-' :: rest => (clock? rest).map fun found => some (-(found.1 : Int))
  | _ => none

/-- Reads the written form. -/
def ofIso? (s : String) : Option Moment := do
  let cs := s.toList
  let date ← Date.ofIso? (String.ofList (cs.take 10))
  let (time, rest) ← clock? (cs.drop 11)
  let offset ← offset? rest
  let seconds := time / 1000000
  return {
    date, offset
    hour := seconds / 3600
    minute := seconds / 60 % 60
    second := seconds % 60
    micro := time % 1000000 }

/-- The instant in microseconds of universal time, for a clock that is ahead by `offset`. -/
def instant (t : Moment) (offset : Int) : Int :=
  (t.date.dayNumber * microsOfDay + t.microsOfClock : Nat) - offset

/-- The same instant, or the same moment of clocks of which nothing is known. -/
def same (a b : Moment) : Bool :=
  match a.offset, b.offset with
  | none, none => a == b
  | some m, some n => a.instant m == b.instant n
  | _, _ => false

end Moment

end Cardfolio
