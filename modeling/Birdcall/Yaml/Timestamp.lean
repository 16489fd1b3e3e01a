import Birdcall.Text

/-!
# Timestamps

A timestamp is a date, alone, or with a time of day after a `T` and a zone, or with a time of day
after blanks and no zone.  Fields other than the year have one or two digits.

Timestamps are compared by what they say and where (`Timestamp.same`): the same moment in two zones
is not the same timestamp.  Only zones that are whole hours apart from `Z` can be recognised again.
-/

namespace Birdcall.Yaml

/-- Where a timestamp holds. -/
inductive Zone
  /-- The zone `Z`, which is also meant if none is given. -/
  | universal
  /-- A zone so many minutes ahead of it. -/
  | ahead (minutes : Int)
  deriving DecidableEq, Repr

/-- Whether a zone can be recognised: from twelve hours behind to fourteen ahead, in whole hours. -/
def Zone.isFamiliar : Zone → Bool
  | universal => true
  | ahead minutes => minutes % 60 = 0 && -12 * 60 ≤ minutes && minutes ≤ 14 * 60

/-- A day and a time of day. -/
structure Timestamp where
  year : Nat
  month : Nat
  day : Nat
  hour : Nat
  minute : Nat
  second : Nat
  nanosecond : Nat
  zone : Zone
  deriving DecidableEq, Repr

namespace Timestamp

/-- Whether two timestamps are the same; two in zones that cannot be recognised never are. -/
def same (a b : Timestamp) : Bool := a = b && a.zone.isFamiliar

/-- A number of one or two digits, and what follows it. -/
def number? : Text → Option (Nat × Text)
  | a :: b :: rest =>
    if Text.isDigit a then
      if Text.isDigit b then some (Text.decimalValue [a, b], rest)
      else some (Text.decimalValue [a], b :: rest)
    else none
  | [a] => if Text.isDigit a then some (Text.decimalValue [a], []) else none
  | [] => none

/-- What follows a given byte. -/
def after? (b : UInt8) : Text → Option Text
  | c :: rest => if c = b then some rest else none
  | [] => none

/-- Whether a year has a leap day. -/
def isLeap (year : Nat) : Bool := year % 4 = 0 && (year % 100 ≠ 0 || year % 400 = 0)

/-- How many days a month has. -/
def daysIn (year month : Nat) : Nat :=
  match month with
  | 2 => if isLeap year then 29 else 28
  | 4 | 6 | 9 | 11 => 30
  | _ => 31

/-- The beginning of a day that there is in the calendar, and what follows its date. -/
def date? (t : Text) : Option (Timestamp × Text) := do
  let year := Text.decimalValue (t.take 4)
  if t.length < 4 ∨ !(t.take 4).all Text.isDigit then none
  let (month, t) ← number? (← after? (Text.byte '-') (t.drop 4))
  let (day, t) ← number? (← after? (Text.byte '-') t)
  if 1 ≤ month ∧ month ≤ 12 ∧ 1 ≤ day ∧ day ≤ daysIn year month then
    some (⟨year, month, day, 0, 0, 0, 0, .universal⟩, t)
  else none

/-- The billionths in the digits of a fraction, of which the first nine count. -/
def billionths (digits : Text) : Nat :=
  Text.decimalValue ((digits ++ List.replicate 9 (Text.byte '0')).take 9)

/-- A fraction of a second, which may be missing, in nanoseconds, and what follows it. -/
def fraction : Text → Nat × Text
  | p :: d :: rest =>
    if (p = Text.byte '.' || p = Text.byte ',') && Text.isDigit d then
      (billionths (d :: rest.takeWhile Text.isDigit), rest.dropWhile Text.isDigit)
    else (0, p :: d :: rest)
  | t => (0, t)

/-- A time of the day that `day` begins, and what follows it. -/
def clock? (day : Timestamp) (t : Text) : Option (Timestamp × Text) := do
  let (hour, t) ← number? t
  let (minute, t) ← number? (← after? (Text.byte ':') t)
  let (second, t) ← number? (← after? (Text.byte ':') t)
  let (nanosecond, t) := fraction t
  if hour < 24 ∧ minute < 60 ∧ second < 60 then
    some ({ day with hour, minute, second, nanosecond }, t)
  else none

/-- The zone that a text names: `Z`, or a difference of hours and minutes. -/
def zone? : Text → Option Zone
  | [s, a, b, m, c, d] =>
    let hours := Text.decimalValue [a, b]
    let minutes := Text.decimalValue [c, d]
    if m = Text.byte ':' && [a, b, c, d].all Text.isDigit && hours ≤ 24 && minutes ≤ 60 then
      if s = Text.byte '+' then some (.ahead (hours * 60 + minutes))
      else if s = Text.byte '-' then some (.ahead (-(hours * 60 + minutes)))
      else none
    else none
  | t => if t = [Text.byte 'Z'] then some .universal else none

/-- The timestamp that a text is. -/
def read? (t : Text) : Option Timestamp := do
  match ← date? t with
  | (day, []) => some day
  | (day, b :: rest) =>
    if b = Text.byte 'T' || b = Text.byte 't' then
      let (moment, rest) ← clock? day rest
      return { moment with zone := ← zone? rest }
    else if b = Text.byte ' ' then
      let (moment, rest) ← clock? day (rest.dropWhile (· = Text.byte ' '))
      if rest.isEmpty then some moment else none
    else none

end Timestamp
end Birdcall.Yaml
