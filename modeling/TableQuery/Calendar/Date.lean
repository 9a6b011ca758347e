/-!
# Calendar dates

Dates of the proleptic Gregorian calendar from the year -262143 to the year 262142, with the days
before and after. Every date holds the proof that it exists.
-/

namespace TableQuery

namespace Calendar

/-- Every fourth year is a leap year, except the centuries that 400 does not divide. -/
def isLeapYear (year : Int) : Bool := year % 4 = 0 && (year % 100 ≠ 0 || year % 400 = 0)

/-- The number of days in a month. -/
def daysIn (year : Int) (month : Nat) : Nat :=
  if month = 2 then (if isLeapYear year then 29 else 28)
  else if month = 4 ∨ month = 6 ∨ month = 9 ∨ month = 11 then 30
  else 31

/-- The earliest year. -/
def firstYear : Int := -262143

/-- The latest year. -/
def lastYear : Int := 262142

/-- Whether a year, a month and a day name a date of the supported range. -/
def isDate (year : Int) (month day : Nat) : Bool :=
  firstYear ≤ year && year ≤ lastYear && 1 ≤ month && month ≤ 12 && 1 ≤ day
    && day ≤ daysIn year month

/-- A month has at least 28 and at most 31 days. -/
theorem daysIn_bounds (year : Int) (month : Nat) :
    28 ≤ daysIn year month ∧ daysIn year month ≤ 31 := by
  unfold daysIn; split <;> split <;> omega

end Calendar

/-- A date that exists. -/
structure Date where
  year : Int
  month : Nat
  day : Nat
  onCalendar : Calendar.isDate year month day = true
  deriving DecidableEq

namespace Date

/-- The date of a year, a month and a day, when it exists. -/
def ofYmd? (year : Int) (month day : Nat) : Option Date :=
  if h : Calendar.isDate year month day = true then some ⟨year, month, day, h⟩ else none

/-- Dates are ordered by year, then month, then day. -/
def compare : Date → Date → Ordering :=
  compareLex (compareOn Date.year) (compareLex (compareOn Date.month) (compareOn Date.day))

/-- The following day, when it is in range. -/
def next? (d : Date) : Option Date :=
  if d.day < Calendar.daysIn d.year d.month then ofYmd? d.year d.month (d.day + 1)
  else if d.month < 12 then ofYmd? d.year (d.month + 1) 1
  else ofYmd? (d.year + 1) 1 1

/-- The preceding day, when it is in range. -/
def previous? (d : Date) : Option Date :=
  if 1 < d.day then ofYmd? d.year d.month (d.day - 1)
  else if 1 < d.month then ofYmd? d.year (d.month - 1) (Calendar.daysIn d.year (d.month - 1))
  else ofYmd? (d.year - 1) 12 31

/-- The parts of a date name it. -/
theorem ofYmd?_parts (d : Date) : ofYmd? d.year d.month d.day = some d := by
  simp [ofYmd?, d.onCalendar]

end Date

end TableQuery
