import Docket.Calendar.Format

/-!
Moments of universal time with nanoseconds, and their text.

A leap second is the second 60 of a minute: it is kept as its 59th second with a billion nanoseconds
or more, so that it lies behind that second and before the next minute.
-/

namespace Docket.Calendar

/-- A moment of universal time. -/
structure Instant where
  date : Date
  /-- Seconds since midnight. -/
  second : Nat
  /-- Nanoseconds since the start of the second; in a leap second a billion more. -/
  nano : Nat
  second_lt : second < 86400
  nano_lt : nano < 2000000000
  leap_last : 1000000000 ≤ nano → second % 60 = 59
deriving DecidableEq, Repr

namespace Instant

/-- Midnight at the start of a date. -/
def midnight (date : Date) : Instant := ⟨date, 0, 0, by decide, by decide, by decide⟩

instance : Inhabited Instant := ⟨midnight default⟩

def compare (a b : Instant) : Ordering :=
  (Date.compare a.date b.date).then
    ((Ord.compare a.second b.second).then (Ord.compare a.nano b.nano))

instance : Ord Instant := ⟨compare⟩

/-- The moment at a date, a second of the day and a nanosecond, if there is one. -/
def of? (date : Date) (second nano : Nat) : Option Instant :=
  if h : second < 86400 ∧ nano < 2000000000 ∧ (1000000000 ≤ nano → second % 60 = 59) then
    some ⟨date, second, nano, h.1, h.2.1, h.2.2⟩
  else none

/-- The moment of universal time at which a clock that is `offset` seconds ahead shows a date and a
second of the day. -/
def ofLocal? (date : Date) (second nano : Nat) (offset : Int) : Option Instant :=
  let second : Int := second - offset
  if second < 0 then do of? (← date.previous?) (second + 86400).toNat nano
  else if 86400 ≤ second then do of? (← date.next?) (second - 86400).toNat nano
  else of? date second.toNat nano

/-- The same moment without what is shorter than a microsecond. -/
def truncate (t : Instant) : Instant :=
  { t with
    nano := t.nano / 1000 * 1000
    nano_lt := by have := t.nano_lt; omega
    leap_last := fun h => t.leap_last (by omega) }

end Instant

/-- Seconds since midnight, and nanoseconds, that the fields determine. Hours and minutes are
required; nanoseconds need seconds. -/
def Fields.time? (f : Fields) : Option (Nat × Nat) := do
  let half ← f.halfDay
  let hour ← f.hourOfHalf
  let minute ← f.minute
  if f.nanosecond.isSome ∧ f.second.isNone then none
  else
    let second := f.second.getD 0
    let nano := f.nanosecond.getD 0
    let clock := ((half * 12 + hour) * 60 + minute) * 60
    if second = 60 then return ((clock + 59).toNat, (nano + 1000000000).toNat)
    else return ((clock + second).toNat, nano.toNat)

/-- The moment that the fields determine. -/
def Fields.instant? (f : Fields) : Option Instant := do
  let offset ← f.offset
  let date ← f.date?
  let (second, nano) ← f.time?
  if offset.natAbs < 86400 then Instant.ofLocal? date second nano offset else none

/-- Read a moment leniently: years with a sign, blanks between the parts, `UTC` for the distance
from universal time. -/
def Instant.read? (text : String) : Option Instant := do
  let (f, rest) ← ({} : Fields).readInstant text.toList
  if (rest.dropWhile Docket.Unicode.isWhitespace).isEmpty then f.instant? else none

/-- Read a moment in the strict form: four digits of the year, two of all else, and a distance from
universal time below a day. -/
def Instant.readStrict? (text : String) : Option Instant := do
  let number (digits : Nat) (field : NumberField) (f : Fields) (s : List Char) :
      Option (Fields × List Char) := do
    let (v, s) ← readNumber digits (some digits) s
    return (← f.set field v, s)
  let (f, s) ← number 4 .year {} text.toList
  let (f, s) ← number 2 .month f (← expect '-' s)
  let (f, s) ← number 2 .day f (← expect '-' s)
  let s ← match s with
    | 't' :: rest | 'T' :: rest | ' ' :: rest => some rest
    | _ => none
  let (f, s) ← number 2 .hour f s
  let (f, s) ← number 2 .minute f (← expect ':' s)
  let (f, s) ← number 2 .second f (← expect ':' s)
  let (f, s) ← match s with
    | '.' :: rest => do
      let (v, rest) ← readFraction rest
      pure (← f.set .nanosecond v, rest)
    | s => pure (f, s)
  let (offset, s) ← readOffset dropColon true false s
  if s.isEmpty ∧ offset.natAbs ≤ (23 * 60 + 59) * 60 then (← f.setOffset offset).instant? else none

/-- A number in decimal, filled up with zeros to a width. -/
def padded (width n : Nat) : String :=
  let digits := Nat.toDigits 10 n
  String.ofList (List.replicate (width - digits.length) '0' ++ digits)

/-- A year: four digits from 0 to 9999, and a sign before four or more digits elsewhere. -/
def yearText (year : Int) : String :=
  if year < 0 then "-" ++ padded 4 year.natAbs
  else if year ≤ 9999 then padded 4 year.toNat
  else "+" ++ padded 4 year.toNat

namespace Instant

/-- The text of a moment up to the seconds. -/
def textToSeconds (t : Instant) : String :=
  let second := t.second % 60 + t.nano / 1000000000
  yearText t.date.year ++ "-" ++ padded 2 t.date.month ++ "-" ++ padded 2 t.date.day ++ "T" ++
    padded 2 (t.second / 3600) ++ ":" ++ padded 2 (t.second / 60 % 60) ++ ":" ++ padded 2 second

/-- The text of a moment with exactly six digits of the fraction. All such texts of years from 0 to
9999 have one length, so that they sort like the moments. -/
def toMicrosText (t : Instant) : String :=
  t.textToSeconds ++ "." ++ padded 6 (t.nano % 1000000000 / 1000) ++ "Z"

/-- The text of a moment with no, three, six or nine digits of the fraction, as few as hold it. -/
def toText (t : Instant) : String :=
  let nano := t.nano % 1000000000
  let fraction :=
    if nano = 0 then ""
    else if nano % 1000000 = 0 then "." ++ padded 3 (nano / 1000000)
    else if nano % 1000 = 0 then "." ++ padded 6 (nano / 1000)
    else "." ++ padded 9 nano
  t.textToSeconds ++ fraction ++ "Z"

end Instant

end Docket.Calendar
