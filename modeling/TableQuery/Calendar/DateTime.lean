import TableQuery.Calendar.Date

/-!
# Times of day and date-times

A time of day has whole nanoseconds and may lie in a leap second, whose number is 60; leap seconds
are allowed in every minute. A date-time has no time zone; one with an offset is moved to UTC.
-/

namespace TableQuery

/-- A time of day. -/
structure TimeOfDay where
  hour : Nat
  minute : Nat
  second : Nat
  nanosecond : Nat
  hour_lt : hour < 24
  minute_lt : minute < 60
  second_le : second ≤ 60
  nanosecond_lt : nanosecond < 1000000000
  deriving DecidableEq

namespace TimeOfDay

/-- The time with the given parts, when they are in range. -/
def ofParts? (hour minute second nanosecond : Nat) : Option TimeOfDay :=
  if h : hour < 24 ∧ minute < 60 ∧ second ≤ 60 ∧ nanosecond < 1000000000 then
    some ⟨hour, minute, second, nanosecond, h.1, h.2.1, h.2.2.1, h.2.2.2⟩
  else none

/-- Midnight. -/
def midnight : TimeOfDay := ⟨0, 0, 0, 0, by decide, by decide, by decide, by decide⟩

/-- Times are ordered part by part, so a leap second lies after second 59 of its minute. -/
def compare : TimeOfDay → TimeOfDay → Ordering :=
  compareLex (compareOn hour) (compareLex (compareOn minute)
    (compareLex (compareOn second) (compareOn nanosecond)))

/-- The parts of a time name it. -/
theorem ofParts?_parts (t : TimeOfDay) :
    ofParts? t.hour t.minute t.second t.nanosecond = some t :=
  dif_pos ⟨t.hour_lt, t.minute_lt, t.second_le, t.nanosecond_lt⟩

end TimeOfDay

/-- A date and a time of day. -/
structure DateTime where
  date : Date
  time : TimeOfDay
  deriving DecidableEq

namespace DateTime

/-- Date-times are ordered by date, then by time. -/
def compare (a b : DateTime) : Ordering := (a.date.compare b.date).then (a.time.compare b.time)

/-- The UTC date-time of a civil one that is `offset` minutes ahead of UTC, less than a day either
way. Only the hour, the minute and the date change. -/
def toUtc? (civil : DateTime) (offset : Int) : Option DateTime := do
  let minutes : Int := civil.time.hour * 60 + civil.time.minute - offset
  let date ←
    if minutes < 0 then civil.date.previous?
    else if 1440 ≤ minutes then civil.date.next?
    else some civil.date
  let minuteOfDay := (minutes % 1440).toNat
  let time ← TimeOfDay.ofParts? (minuteOfDay / 60) (minuteOfDay % 60) civil.time.second
    civil.time.nanosecond
  pure ⟨date, time⟩

end DateTime

end TableQuery
