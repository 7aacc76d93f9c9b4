/-!
Dates of the Gregorian calendar, extended to all years in a range of more than half a million.
-/

namespace Docket.Calendar

/-- The first and the last year that a date may have. -/
def minYear : Int := -262143

@[inherit_doc minYear]
def maxYear : Int := 262142

/-- Leap years: every fourth, but of the full centuries only every fourth. -/
def isLeap (year : Int) : Bool := year % 4 = 0 && (year % 100 ≠ 0 || year % 400 = 0)

def daysInMonth (year : Int) (month : Nat) : Nat :=
  if month = 2 then (if isLeap year then 29 else 28)
  else if month = 4 ∨ month = 6 ∨ month = 9 ∨ month = 11 then 30
  else 31

def daysInYear (year : Int) : Nat := if isLeap year then 366 else 365

/-- A day of the week, counted from Monday. -/
abbrev Weekday := Fin 7

def Weekday.monday : Weekday := 0

def Weekday.sunday : Weekday := 6

/-- The day of the week with a number, counted round. -/
def Weekday.ofNat (n : Nat) : Weekday := Fin.ofNat 7 n

/-- How many days a weekday comes after another. -/
def Weekday.since (day start : Weekday) : Nat := (day.val + 7 - start.val) % 7

/-- A date that exists. -/
structure Date where
  year : Int
  month : Nat
  day : Nat
  year_ge : minYear ≤ year
  year_le : year ≤ maxYear
  month_pos : 1 ≤ month
  month_le : month ≤ 12
  day_pos : 1 ≤ day
  day_le : day ≤ daysInMonth year month
deriving DecidableEq, Repr

namespace Date

/-- The date with a year, a month and a day, if there is one. -/
def ofYmd? (year : Int) (month day : Nat) : Option Date :=
  if h : minYear ≤ year ∧ year ≤ maxYear ∧ 1 ≤ month ∧ month ≤ 12 ∧ 1 ≤ day ∧
      day ≤ daysInMonth year month then
    some ⟨year, month, day, h.1, h.2.1, h.2.2.1, h.2.2.2.1, h.2.2.2.2.1, h.2.2.2.2.2⟩
  else none

/-- The first day of 1970. -/
def epoch : Date := ⟨1970, 1, 1, by decide, by decide, by decide, by decide, by decide, by decide⟩

instance : Inhabited Date := ⟨epoch⟩

/-- Earlier or later: by year, then month, then day. -/
def compare (a b : Date) : Ordering :=
  (Ord.compare a.year b.year).then ((Ord.compare a.month b.month).then (Ord.compare a.day b.day))

instance : Ord Date := ⟨compare⟩

/-- The days of the months before one. -/
def daysBefore (year : Int) : (month : Nat) → Nat
  | 0 | 1 => 0
  | month + 1 => daysBefore year month + daysInMonth year month

/-- The day of the year, counted from one. -/
def ordinal (d : Date) : Nat := daysBefore d.year d.month + d.day

/-- The number of days from the start of year 1, where that start is day one. -/
def dayNumber (d : Date) : Int :=
  let before := d.year - 1
  365 * before + before / 4 - before / 100 + before / 400 + d.ordinal

/-- The day of the week. The first day of year 1 is a Monday. -/
def weekday (d : Date) : Weekday := Fin.ofNat 7 ((d.dayNumber - 1) % 7).toNat

/-- The date that comes a number of days after the first of a month, searching month by month. -/
def fromMonth (year : Int) : (months : Nat) → (day : Nat) → Option Date
  | 0, _ => none
  | months + 1, day =>
    let month := 12 - months
    if day ≤ daysInMonth year month then ofYmd? year month day
    else fromMonth year months (day - daysInMonth year month)

/-- The date with a year and a day of the year, if there is one. -/
def ofOrdinal? (year : Int) (ordinal : Nat) : Option Date :=
  if ordinal = 0 then none else fromMonth year 12 ordinal

def next? (d : Date) : Option Date :=
  if d.day < daysInMonth d.year d.month then ofYmd? d.year d.month (d.day + 1)
  else if d.month < 12 then ofYmd? d.year (d.month + 1) 1
  else ofYmd? (d.year + 1) 1 1

def previous? (d : Date) : Option Date :=
  if 1 < d.day then ofYmd? d.year d.month (d.day - 1)
  else if 1 < d.month then ofYmd? d.year (d.month - 1) (daysInMonth d.year (d.month - 1))
  else ofYmd? (d.year - 1) 12 31

/-- The week of the year, where weeks start on a given day and days before the first such day are
in week zero. -/
def weekFrom (d : Date) (start : Weekday) : Int :=
  ((d.ordinal : Int) - (d.weekday.since start : Int) + 6) / 7

def firstWeekday (year : Int) : Weekday :=
  let before := year - 1
  Fin.ofNat 7 ((365 * before + before / 4 - before / 100 + before / 400) % 7).toNat

/-- The number of weeks of a week-based year: 53 where it starts on a Thursday, or is a leap year
that starts on a Wednesday. -/
def weeksInYear (year : Int) : Nat :=
  if firstWeekday year = 3 ∨ (firstWeekday year = 2 ∧ isLeap year) then 53 else 52

/-- The week-based year and the week in it. Weeks start on Monday, and the first week of a year is
the one with its first Thursday. -/
def isoWeek (d : Date) : Int × Nat :=
  let week := ((d.ordinal : Int) - (d.weekday.val + 1 : Int) + 10) / 7
  if week < 1 then (d.year - 1, weeksInYear (d.year - 1))
  else if (weeksInYear d.year : Int) < week then (d.year + 1, 1)
  else (d.year, week.toNat)

/-- The date of a weekday in a week of a week-based year, if there is one. -/
def ofIsoWeek? (year : Int) (week : Nat) (weekday : Weekday) : Option Date :=
  if week = 0 ∨ weeksInYear year < week then none
  else
    let first := (firstWeekday year).val
    -- the Monday of the first week, as a day of the year, may be as early as day -2
    let monday : Int := if first ≤ 3 then 1 - (first : Int) else 8 - (first : Int)
    let ordinal := monday + 7 * ((week : Int) - 1) + weekday.val
    if ordinal < 1 then ofOrdinal? (year - 1) (ordinal + daysInYear (year - 1)).toNat
    else if (daysInYear year : Int) < ordinal then
      ofOrdinal? (year + 1) (ordinal - daysInYear year).toNat
    else ofOrdinal? year ordinal.toNat

/-- The date of a weekday in a week of a year, where weeks start on a given day and the first week
starts with the first such day. -/
def ofWeek? (year : Int) (week : Nat) (weekday start : Weekday) : Option Date :=
  if 53 < week then none
  else
    let ordinal := 1 + (start.since (firstWeekday year) : Int) + ((week : Int) - 1) * 7 +
      (weekday.since start : Int)
    if ordinal ≤ 0 then none else ofOrdinal? year ordinal.toNat

end Date

end Docket.Calendar
