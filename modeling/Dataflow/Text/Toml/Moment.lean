import Dataflow.Text.Document
import Dataflow.Text.Scan

/-! # Dates and times of a TOML text

    A moment is a date, a time of day, or both with an optional offset.  The
    readers here take the characters ahead and give what follows the moment:
    no option has a moment as its value, so only its extent matters. -/

namespace Dataflow.Toml.Moment

open Scan

/-! ## Section 1: The calendar -/

/-- Every fourth year is a leap year, except for the centuries that are not
    divisible by 400. -/
def isLeapYear (year : Nat) : Bool :=
  year % 4 == 0 && (year % 100 != 0 || year % 400 == 0)

/-- The number of days of a month. -/
def daysIn (year month : Nat) : Nat :=
  if month = 2 then (if isLeapYear year then 29 else 28)
  else if month = 4 || month = 6 || month = 9 || month = 11 then 30
  else 31

/-! ## Section 2: The parts of a moment -/

/-- A number of exactly `width` digits from `least` to `most`. -/
def count? (width least most : Nat) (cs : List Char) : Option (Nat × List Char) := do
  let digits ← (cs.take width).mapM digit?
  let n := digits.foldl (fun n d => 10 * n + d) 0
  if digits.length = width && least ≤ n && n ≤ most then some (n, cs.drop width) else none

/-- Year, month and day, with hyphens between them. -/
def date? (cs : List Char) : Option (List Char) := do
  let (year, rest) ← count? 4 0 9999 cs
  let (month, rest) ← count? 2 1 12 (← expect? ['-'] rest)
  let (_, rest) ← count? 2 1 (daysIn year month) (← expect? ['-'] rest)
  return rest

/-- What follows the fraction of a second, if there is one. -/
def skipFraction (cs : List Char) : List Char :=
  match cs with
  | '.' :: c :: rest => if c.isDigit then rest.dropWhile Char.isDigit else cs
  | _ => cs

/-- Hour, minute and second, with colons between them.  A minute may have a
    leap second. -/
def time? (cs : List Char) : Option (List Char) := do
  let (_, rest) ← count? 2 0 23 cs
  let (_, rest) ← count? 2 0 59 (← expect? [':'] rest)
  let (_, rest) ← count? 2 0 60 (← expect? [':'] rest)
  return skipFraction rest

/-- Hour and minute of an offset. -/
def hours? (cs : List Char) : Option (List Char) := do
  let (_, rest) ← count? 2 0 23 cs
  let (_, rest) ← count? 2 0 59 (← expect? [':'] rest)
  return rest

/-- What follows the offset, if there is one. -/
def skipOffset (cs : List Char) : List Char :=
  match cs with
  | c :: rest =>
    if c = 'Z' || c = 'z' then rest
    else if c = '+' || c = '-' then (hours? rest).getD cs
    else cs
  | [] => []

/-! ## Section 3: Moments -/

/-- What follows the time of day and the offset after a date, if there are
    any.  A time of day stands after a letter or a space. -/
def skipTime (cs : List Char) : List Char :=
  match cs with
  | c :: rest =>
    if c = 'T' || c = 't' || c = ' ' then ((time? rest).map skipOffset).getD cs else cs
  | [] => []

/-- What follows a moment. -/
def rest? (cs : List Char) : Option (List Char) :=
  match date? cs with
  | some rest => some (skipTime rest)
  | none => time? cs

/-- A moment as an object with its text as the only field. -/
def read? (cs : List Char) : Option (Document × List Char) :=
  (rest? cs).map fun rest =>
    let written := String.ofList (cs.take (cs.length - rest.length))
    (.object [(some "moment", .text (some written))], rest)

end Dataflow.Toml.Moment
