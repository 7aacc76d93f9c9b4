import Docket.Calendar.Date
import Docket.Unicode.Property

/-!
Reading dates and times by a format such as `%d.%m.%Y`.

A format is a list of items.  Reading goes through them once and collects fields: a year, a month, a
week, an hour.  A field that occurs twice must have the same value both times.  The date is then the
one that the fields determine, and it must agree with every field, also with those that were not
needed to determine it.
-/

namespace Docket.Calendar

open Docket.Unicode (isWhitespace)

/-- What a number in a text counts. -/
inductive NumberField where
  | year
  | century
  | yearOfCentury
  | isoYear
  | isoYearOfCentury
  | quarter
  | month
  | day
  | weekFromSunday
  | weekFromMonday
  | isoWeek
  /-- A weekday from 0 for Sunday to 6. -/
  | dayFromSunday
  /-- A weekday from 1 for Monday to 7. -/
  | dayFromMonday
  | ordinal
  | hour
  | hour12
  | minute
  | second
  | nanosecond
  | timestamp
deriving DecidableEq, Repr

/-- One item of a format. -/
inductive Item where
  | literal (c : Char)
  | blank
  | number (field : NumberField)
  | monthName (long : Bool)
  | weekdayName (long : Bool)
  | meridiem
  /-- A fraction of a second behind a point, if there is a point; a fixed count of digits or any. -/
  | fraction (digits : Option Nat)
  /-- A fraction of a second without a point. -/
  | bareFraction (digits : Nat)
  | zoneName
  /-- A distance from universal time; `lax` ones may leave out the minutes or be a `Z`. -/
  | zoneOffset (lax : Bool)
  /-- A complete date and time with its distance from universal time. -/
  | instant
  /-- A specifier that does not exist. -/
  | unknown
deriving DecidableEq, Repr

/-- The number that a specifier letter stands for. -/
def NumberField.ofLetter? : Char → Option NumberField
  | 'C' => some .century
  | 'G' => some .isoYear
  | 'H' => some .hour
  | 'I' => some .hour12
  | 'M' => some .minute
  | 'S' => some .second
  | 'U' => some .weekFromSunday
  | 'V' => some .isoWeek
  | 'W' => some .weekFromMonday
  | 'Y' => some .year
  | 'd' => some .day
  | 'e' => some .day
  | 'f' => some .nanosecond
  | 'g' => some .isoYearOfCentury
  | 'j' => some .ordinal
  | 'k' => some .hour
  | 'l' => some .hour12
  | 'm' => some .month
  | 'q' => some .quarter
  | 's' => some .timestamp
  | 'u' => some .dayFromMonday
  | 'w' => some .dayFromSunday
  | 'y' => some .yearOfCentury
  | _ => none

/-- The items that a specifier letter is short for. -/
def Item.ofLetter? : Char → Option (List Item)
  | 'A' => some [.weekdayName true]
  | 'B' => some [.monthName true]
  | 'D' => some monthDayYear
  | 'F' => some [.number .year, .literal '-', .number .month, .literal '-', .number .day]
  | 'P' => some [.meridiem]
  | 'R' => some [.number .hour, .literal ':', .number .minute]
  | 'T' => some clock
  | 'X' => some clock
  | 'Z' => some [.zoneName]
  | 'a' => some [.weekdayName false]
  | 'b' => some [.monthName false]
  | 'c' => some ([.weekdayName false, .blank, .monthName false, .blank, .number .day, .blank] ++
      clock ++ [.blank, .number .year])
  | 'h' => some [.monthName false]
  | 'n' => some [.blank]
  | 'p' => some [.meridiem]
  | 'r' => some [.number .hour12, .literal ':', .number .minute, .literal ':', .number .second,
      .blank, .meridiem]
  | 't' => some [.blank]
  | 'v' => some [.number .day, .literal '-', .monthName false, .literal '-', .number .year]
  | 'x' => some monthDayYear
  | 'z' => some [.zoneOffset false]
  | '+' => some [.instant]
  | '%' => some [.literal '%']
  | _ => none
where
  monthDayYear : List Item :=
    [.number .month, .literal '/', .number .day, .literal '/', .number .yearOfCentury]
  clock : List Item :=
    [.number .hour, .literal ':', .number .minute, .literal ':', .number .second]

/-- The item of a specifier, and what follows it. A padding character is allowed before a single
number and nowhere else. -/
def Item.ofSpecifier (padded : Bool) : List Char → List Item × List Char
  | [] => ([.unknown], [])
  | c :: rest =>
    match NumberField.ofLetter? c with
    | some field => ([.number field], rest)
    | none =>
      if padded then ([.unknown], rest)
      else match Item.ofLetter? c with
      | some items => (items, rest)
      | none =>
        match c, rest with
        | ':', ':' :: ':' :: 'z' :: rest => ([.zoneOffset false], rest)
        | ':', ':' :: 'z' :: rest => ([.zoneOffset false], rest)
        | ':', 'z' :: rest => ([.zoneOffset false], rest)
        | '.', '3' :: 'f' :: rest => ([.fraction (some 3)], rest)
        | '.', '6' :: 'f' :: rest => ([.fraction (some 6)], rest)
        | '.', '9' :: 'f' :: rest => ([.fraction (some 9)], rest)
        | '.', 'f' :: rest => ([.fraction none], rest)
        | '3', 'f' :: rest => ([.bareFraction 3], rest)
        | '6', 'f' :: rest => ([.bareFraction 6], rest)
        | '9', 'f' :: rest => ([.bareFraction 9], rest)
        | _, _ => ([.unknown], rest)

/-- The items of a format. Each step takes a character, so its length is fuel enough. -/
def Item.ofFormat : (fuel : Nat) → List Char → List Item
  | 0, _ => []
  | _, [] => []
  | fuel + 1, '%' :: rest =>
    let (items, rest) := match rest with
      | '-' :: rest | '0' :: rest | '_' :: rest => Item.ofSpecifier true rest
      | '#' :: 'z' :: rest => ([.zoneOffset true], rest)
      | '#' :: rest => ([.unknown], rest)
      | rest => Item.ofSpecifier false rest
    items ++ Item.ofFormat fuel rest
  | fuel + 1, c :: rest =>
    (if isWhitespace c then .blank else .literal c) :: Item.ofFormat fuel rest

/-- The fields that have been read so far. -/
structure Fields where
  year : Option Int := none
  century : Option Int := none
  yearOfCentury : Option Int := none
  isoYear : Option Int := none
  isoYearOfCentury : Option Int := none
  quarter : Option Int := none
  month : Option Int := none
  day : Option Int := none
  weekFromSunday : Option Int := none
  weekFromMonday : Option Int := none
  isoWeek : Option Int := none
  weekday : Option Int := none
  ordinal : Option Int := none
  /-- Before noon 0, after it 1. -/
  halfDay : Option Int := none
  hourOfHalf : Option Int := none
  minute : Option Int := none
  second : Option Int := none
  nanosecond : Option Int := none
  timestamp : Option Int := none
  /-- Seconds ahead of universal time. -/
  offset : Option Int := none
deriving Repr, Inhabited

/-- The value of a field after one more occurrence, which must not contradict the first. -/
def agree (old : Option Int) (new : Int) : Option (Option Int) :=
  match old with
  | none => some (some new)
  | some old => if old = new then some (some old) else none

namespace Fields

def setWeekday (f : Fields) (day : Int) : Option Fields := do
  return { f with weekday := ← agree f.weekday day }

def setHalfDay (f : Fields) (half : Int) : Option Fields := do
  return { f with halfDay := ← agree f.halfDay half }

/-- Record the distance from universal time. -/
def setOffset (f : Fields) (seconds : Int) : Option Fields := do
  return { f with offset := ← agree f.offset seconds }

/-- Record a number, which must lie in the range of its field. -/
def set (f : Fields) (field : NumberField) (v : Int) : Option Fields := do
  let within (lo hi : Int) : Option Unit := if lo ≤ v ∧ v ≤ hi then some () else none
  match field with
  | .year =>
    within (-Int.pow 2 31) (Int.pow 2 31 - 1)
    return { f with year := ← agree f.year v }
  | .century =>
    within 0 (Int.pow 2 31 - 1)
    return { f with century := ← agree f.century v }
  | .yearOfCentury =>
    within 0 99
    return { f with yearOfCentury := ← agree f.yearOfCentury v }
  | .isoYear =>
    within (-Int.pow 2 31) (Int.pow 2 31 - 1)
    return { f with isoYear := ← agree f.isoYear v }
  | .isoYearOfCentury =>
    within 0 99
    return { f with isoYearOfCentury := ← agree f.isoYearOfCentury v }
  | .quarter =>
    within 1 4
    return { f with quarter := ← agree f.quarter v }
  | .month =>
    within 1 12
    return { f with month := ← agree f.month v }
  | .day =>
    within 1 31
    return { f with day := ← agree f.day v }
  | .weekFromSunday =>
    within 0 53
    return { f with weekFromSunday := ← agree f.weekFromSunday v }
  | .weekFromMonday =>
    within 0 53
    return { f with weekFromMonday := ← agree f.weekFromMonday v }
  | .isoWeek =>
    within 1 53
    return { f with isoWeek := ← agree f.isoWeek v }
  | .dayFromSunday =>
    within 0 6
    f.setWeekday ((v + 6) % 7)
  | .dayFromMonday =>
    within 1 7
    f.setWeekday (v - 1)
  | .ordinal =>
    within 1 366
    return { f with ordinal := ← agree f.ordinal v }
  | .hour =>
    within 0 23
    let f ← f.setHalfDay (v / 12)
    return { f with hourOfHalf := ← agree f.hourOfHalf (v % 12) }
  | .hour12 =>
    within 1 12
    return { f with hourOfHalf := ← agree f.hourOfHalf (v % 12) }
  | .minute =>
    within 0 59
    return { f with minute := ← agree f.minute v }
  | .second =>
    within 0 60
    return { f with second := ← agree f.second v }
  | .nanosecond =>
    within 0 999999999
    return { f with nanosecond := ← agree f.nanosecond v }
  | .timestamp =>
    return { f with timestamp := ← agree f.timestamp v }

end Fields

/-- At most `count` decimal digits at the start of a text: their value, their number, and the rest.
`none` for `count` takes all digits. -/
def takeDigits : (count : Option Nat) → List Char → Nat → Nat → Nat × Nat × List Char
  | some 0, s, value, n => (value, n, s)
  | _, [], value, n => (value, n, [])
  | count, c :: rest, value, n =>
    if c.isDigit then
      takeDigits (count.map (· - 1)) rest (value * 10 + (c.toNat - '0'.toNat)) (n + 1)
    else (value, n, c :: rest)

/-- A number of at least `min` and at most `max` digits that fits into 64 signed bits. -/
def readNumber (min : Nat) (max : Option Nat) (s : List Char) : Option (Int × List Char) :=
  let (value, n, rest) := takeDigits max s 0 0
  if n < min ∨ Nat.pow 2 63 ≤ value then none else some (value, rest)

/-- How many digits a field takes where there is no sign: all that there are for a timestamp. -/
def NumberField.width : NumberField → Option Nat
  | .year | .isoYear => some 4
  | .century | .yearOfCentury | .isoYearOfCentury | .month | .day | .weekFromSunday
  | .weekFromMonday | .isoWeek | .hour | .hour12 | .minute | .second => some 2
  | .quarter | .dayFromSunday | .dayFromMonday => some 1
  | .ordinal => some 3
  | .nanosecond => some 9
  | .timestamp => none

/-- The number of a field. Years may have a sign, and with a sign any count of digits. -/
def NumberField.read (field : NumberField) (s : List Char) : Option (Int × List Char) :=
  let s := s.dropWhile isWhitespace
  if field = .year ∨ field = .isoYear then
    match s with
    | '-' :: rest => (readNumber 1 none rest).map fun (v, rest) => (-v, rest)
    | '+' :: rest => readNumber 1 none rest
    | s => readNumber 1 field.width s
  else readNumber 1 field.width s

/-- Drop a word from the start of a text, whatever the case of its ASCII letters. -/
def dropWord? : List Char → List Char → Option (List Char)
  | [], s => some s
  | _ :: _, [] => none
  | w :: word, c :: s => if w = c.toLower then dropWord? word s else none

/-- The names of the months, and of the weekdays from Monday. -/
def monthNames : List String := ["january", "february", "march", "april", "may", "june", "july",
  "august", "september", "october", "november", "december"]

@[inherit_doc monthNames]
def weekdayNames : List String :=
  ["monday", "tuesday", "wednesday", "thursday", "friday", "saturday", "sunday"]

/-- The index of a name, given by its first three letters, or by those and, where `long` allows it,
the others. -/
def readName (names : List String) (long : Bool) (s : List Char) : Option (Nat × List Char) :=
  let rec go (index : Nat) : List String → Option (Nat × List Char)
    | [] => none
    | name :: names =>
      match dropWord? (name.toList.take 3) s with
      | none => go (index + 1) names
      | some rest =>
        if long then some (index, (dropWord? (name.toList.drop 3) rest).getD rest)
        else some (index, rest)
  go 0 names

/-- A fraction of a second in nanoseconds: all its digits, of which nine count. -/
def readFraction (s : List Char) : Option (Int × List Char) :=
  let (value, n, rest) := takeDigits (some 9) s 0 0
  if n = 0 then none else some ((value * Nat.pow 10 (9 - n) : Nat), rest.dropWhile Char.isDigit)

/-- A fraction of a second with a fixed count of digits. -/
def readFixedFraction (digits : Nat) (s : List Char) : Option (Int × List Char) :=
  let (value, n, rest) := takeDigits (some digits) s 0 0
  if n = digits then some ((value * Nat.pow 10 (9 - digits) : Nat), rest) else none

def twoDigits? : List Char → Option (Nat × List Char)
  | a :: b :: rest =>
    if a.isDigit && b.isDigit then
      some ((a.toNat - '0'.toNat) * 10 + (b.toNat - '0'.toNat), rest)
    else none
  | _ => none

/-- The number of bytes of a text in UTF-8. -/
def byteCount (s : List Char) : Nat := (s.map Char.utf8Size).foldl (· + ·) 0

/-- A distance from universal time in seconds. `separator` drops what may stand between hours and
minutes, or fails; `zulu` allows a `Z`, and `shortened` allows the minutes to be left out. -/
def readOffset (separator : List Char → Option (List Char)) (zulu shortened : Bool) (s : List Char) :
    Option (Int × List Char) := do
  let signed (negative : Bool) (s : List Char) : Option (Int × List Char) := do
    let (hours, s) ← twoDigits? s
    let s ← separator s
    let (minutes, s) ←
      if byteCount s < 2 then
        (if shortened ∧ s.isEmpty then some (0, s) else none)
      else
        (twoDigits? s).filter (·.1 < 60)
    let seconds : Int := hours * 3600 + minutes * 60
    return (if negative then -seconds else seconds, s)
  match s with
  | 'Z' :: rest | 'z' :: rest => if zulu then some (0, rest) else none
  | '+' :: rest => signed false rest
  | '-' :: rest => signed true rest
  | '\u2212' :: rest => signed true rest
  | _ => none

/-- Colons and blanks between hours and minutes, as many as there are. -/
def dropColonsAndBlanks (s : List Char) : Option (List Char) :=
  some (s.dropWhile fun c => c = ':' || isWhitespace c)

/-- One colon between hours and minutes. -/
def dropColon : List Char → Option (List Char)
  | ':' :: rest => some rest
  | _ => none

/-- One character that must come next. -/
def expect (c : Char) : List Char → Option (List Char)
  | c' :: rest => if c = c' then some rest else none
  | [] => none

def Fields.readNumber (f : Fields) (field : NumberField) (s : List Char) :
    Option (Fields × List Char) := do
  let (v, s) ← field.read s
  return (← f.set field v, s)

/-- A complete date and time in the usual order, with blanks wherever they do no harm. -/
def Fields.readInstant (f : Fields) (s : List Char) : Option (Fields × List Char) := do
  let blank (s : List Char) := s.dropWhile isWhitespace
  let (f, s) ← f.readNumber .year s
  let (f, s) ← f.readNumber .month (← expect '-' (blank s))
  let (f, s) ← f.readNumber .day (← expect '-' (blank s))
  let s ← match s with
    | 't' :: rest | 'T' :: rest | ' ' :: rest => some rest
    | _ => none
  let (f, s) ← f.readNumber .hour s
  let (f, s) ← f.readNumber .minute (← expect ':' (blank s))
  let (f, s) ← f.readNumber .second (← expect ':' (blank s))
  let (f, s) ← match s with
    | '.' :: rest => do
      let (v, rest) ← readFraction rest
      pure (← f.set .nanosecond v, rest)
    | s => pure (f, s)
  let s := blank s
  let (offset, s) ← match dropWord? "utc".toList s with
    | some rest => pure (0, rest)
    | none => readOffset dropColonsAndBlanks true false s
  return (← f.setOffset offset, s)

def Fields.readItem (f : Fields) (item : Item) (s : List Char) : Option (Fields × List Char) := do
  match item with
  | .literal c => return (f, ← expect c s)
  | .blank => return (f, s.dropWhile isWhitespace)
  | .number field => f.readNumber field s
  | .monthName long =>
    let (index, s) ← readName monthNames long s
    return (← f.set .month (index + 1), s)
  | .weekdayName long =>
    let (index, s) ← readName weekdayNames long s
    return (← f.setWeekday index, s)
  | .meridiem =>
    match dropWord? "am".toList s with
    | some rest => return (← f.setHalfDay 0, rest)
    | none => return (← f.setHalfDay 1, ← dropWord? "pm".toList s)
  | .fraction digits =>
    match s with
    | '.' :: rest =>
      let (v, rest) ← match digits with
        | none => readFraction rest
        | some n => readFixedFraction n rest
      return (← f.set .nanosecond v, rest)
    | s => return (f, s)
  | .bareFraction digits =>
    let (v, rest) ← readFixedFraction digits s
    return (← f.set .nanosecond v, rest)
  | .zoneName => return (f, s.dropWhile (!isWhitespace ·))
  | .zoneOffset lax =>
    let (v, rest) ← readOffset dropColonsAndBlanks lax lax (s.dropWhile isWhitespace)
    return (← f.setOffset v, rest)
  | .instant => f.readInstant s
  | .unknown => none

/-- Read all items; nothing may be left over. -/
def Fields.readItems (f : Fields) : List Item → List Char → Option Fields
  | [], s => if s.isEmpty then some f else none
  | item :: items, s => do
    let (f, s) ← f.readItem item s
    f.readItems items s

/-- The year that a full year, a century and a year of a century determine together, if they say
anything about it. A year of a century on its own lies between 1970 and 2069. -/
def resolveYear (year century yearOfCentury : Option Int) : Option (Option Int) :=
  match year, century, yearOfCentury with
  | year, none, none => some year
  | some y, c, r =>
    if y < 0 then none
    else if c.getD (y / 100) = y / 100 ∧ r.getD (y % 100) = y % 100 then some (some y)
    else none
  | none, some c, some r => if c * 100 + r < Int.pow 2 31 then some (some (c * 100 + r)) else none
  | none, none, some r => some (some (if r < 70 then r + 2000 else r + 1900))
  | none, some _, none => none

/-- Whether a field is absent or has a value. -/
def permits (field : Option Int) (value : Int) : Bool := field.all (· = value)

/-- Whether the fields of a year agree with it. Only years from zero on have a century. -/
def agreesWithYear (year century yearOfCentury : Option Int) (actual : Int) : Bool :=
  permits year actual &&
    (if actual < 0 then century.isNone && yearOfCentury.isNone
      else permits century (actual / 100) && permits yearOfCentury (actual % 100))

namespace Fields

/-- Whether a date has the year, month and day of the fields. -/
def agreesWithYmd (f : Fields) (d : Date) : Bool :=
  agreesWithYear f.year f.century f.yearOfCentury d.year && permits f.month d.month &&
    permits f.day d.day

/-- Whether a date has the week-based year, the week and the weekday of the fields. -/
def agreesWithIsoWeek (f : Fields) (d : Date) : Bool :=
  let (year, week) := d.isoWeek
  agreesWithYear f.isoYear none f.isoYearOfCentury year && permits f.isoWeek week &&
    permits f.weekday d.weekday.val

/-- Whether a date has the day of the year and the week numbers of the fields. -/
def agreesWithOrdinal (f : Fields) (d : Date) : Bool :=
  permits f.ordinal d.ordinal && permits f.weekFromSunday (d.weekFrom .sunday) &&
    permits f.weekFromMonday (d.weekFrom .monday)

/-- The date that the fields determine. They are tried in a fixed order: year, month and day; year
and day of the year; year, week and weekday; week-based year, week and weekday. -/
def date? (f : Fields) : Option Date := do
  let year ← resolveYear f.year f.century f.yearOfCentury
  let isoYear ← resolveYear f.isoYear none f.isoYearOfCentury
  let weekday : Option Weekday := f.weekday.map fun w => .ofNat w.toNat
  let check (found : Option Date) (ok : Date → Bool) : Option Date := found.filter ok
  let all (d : Date) := f.agreesWithYmd d && f.agreesWithIsoWeek d && f.agreesWithOrdinal d
  let date ← match year, f.month, f.day, f.ordinal, f.weekFromSunday, f.weekFromMonday, isoYear,
      f.isoWeek, weekday with
    | some y, some m, some d, _, _, _, _, _, _ =>
      check (Date.ofYmd? y m.toNat d.toNat)
        (fun d => f.agreesWithIsoWeek d && f.agreesWithOrdinal d)
    | some y, _, _, some n, _, _, _, _, _ => check (Date.ofOrdinal? y n.toNat) all
    | some y, _, _, _, some w, _, _, _, some day => check (Date.ofWeek? y w.toNat day .sunday) all
    | some y, _, _, _, _, some w, _, _, some day => check (Date.ofWeek? y w.toNat day .monday) all
    | _, _, _, _, _, _, some y, some w, some day =>
      check (Date.ofIsoWeek? y w.toNat day) (fun d => f.agreesWithYmd d && f.agreesWithOrdinal d)
    | _, _, _, _, _, _, _, _, _ => none
  if permits f.quarter ((date.month - 1) / 3 + 1 : Nat) then some date else none

end Fields

def Date.read? (text format : List Char) : Option Date := do
  let f ← ({} : Fields).readItems (Item.ofFormat format.length format) text
  f.date?

end Docket.Calendar
