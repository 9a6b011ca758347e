import TableQuery.Calendar.DateTime
import TableQuery.Decimal.Digits
import TableQuery.Text.Blank

/-!
# Date and date-time text

Dates are written `YYYY-MM-DD` and date-times `YYYY-MM-DDTHH:MM:SS` with the fewest of 0, 3, 6 or 9
fraction digits that are exact. Reading is more liberal: numbers may have fewer digits and blanks
before them, and date-times come in four layouts. Every reader of a part returns what is left of the
text; the readers of dates and date-times take the whole text.
-/

namespace TableQuery.Calendar

/-! ## Writing -/

/-- A number with zeros in front up to a width. -/
def padded (width n : Nat) : List Char :=
  let digits := Decimal.writeNat n
  List.replicate (width - digits.length) '0' ++ digits

/-- A year has at least four digits, and a sign unless it lies between 0 and 9999. -/
def writeYear (year : Int) : List Char :=
  if year < 0 then '-' :: padded 4 year.natAbs
  else if 9999 < year then '+' :: Decimal.writeNat year.natAbs
  else padded 4 year.natAbs

/-- A date as `YYYY-MM-DD`. -/
def writeDate (d : Date) : List Char :=
  writeYear d.year ++ '-' :: padded 2 d.month ++ '-' :: padded 2 d.day

/-- A time to the second, as `HH:MM:SS`. -/
def writeClock (t : TimeOfDay) : List Char :=
  padded 2 t.hour ++ ':' :: padded 2 t.minute ++ ':' :: padded 2 t.second

/-- A fraction of a second: nothing, or a point and the fewest of 3, 6 or 9 digits. -/
def writeFraction (nanosecond : Nat) : List Char :=
  if nanosecond = 0 then []
  else if nanosecond % 1000000 = 0 then '.' :: padded 3 (nanosecond / 1000000)
  else if nanosecond % 1000 = 0 then '.' :: padded 6 (nanosecond / 1000)
  else '.' :: padded 9 nanosecond

/-- A date-time with a mark between date and time. -/
def writeDateTime (mark : Char) (t : DateTime) : List Char :=
  writeDate t.date ++ mark :: writeClock t.time ++ writeFraction t.time.nanosecond

/-- A date-time with a blank between date and time and always six fraction digits, cut off. -/
def writeMicroseconds (t : DateTime) : List Char :=
  writeDate t.date ++ ' ' :: writeClock t.time ++ '.' :: padded 6 (t.time.nanosecond / 1000)

/-! ## Reading parts -/

/-- Read the leading digits, at least one and at most `width`. -/
def readDigits? (width : Nat) (s : List Char) : Option (Nat × List Char) :=
  let digits := (s.take width).takeWhile Char.isDigit
  if digits = [] then none else some (Decimal.digitsValue digits, s.drop digits.length)

/-- Read exactly `width` digits. -/
def readExactly? (width : Nat) (s : List Char) : Option (Nat × List Char) :=
  let digits := (s.take width).takeWhile Char.isDigit
  if digits.length = width then some (Decimal.digitsValue digits, s.drop width) else none

/-- Read one given character. -/
def readMark? (mark : Char) : List Char → Option (List Char)
  | [] => none
  | c :: rest => if c = mark then some rest else none

/-- Read a number of one or two digits, after blanks. -/
def readTwo? (s : List Char) : Option (Nat × List Char) := readDigits? 2 (Text.skipBlanks s)

/-- Read a year after blanks: up to four digits, or any number of digits after a sign. -/
def readYear? (s : List Char) : Option (Int × List Char) :=
  match Text.skipBlanks s with
  | '-' :: rest => (readDigits? rest.length rest).map fun p => (-(p.1 : Int), p.2)
  | '+' :: rest => (readDigits? rest.length rest).map fun p => ((p.1 : Int), p.2)
  | s => (readDigits? 4 s).map fun p => ((p.1 : Int), p.2)

/-- Read a fraction of a second: nothing, or a point and digits, those past the ninth ignored. -/
def readFraction? : List Char → Option (Nat × List Char)
  | '.' :: rest =>
    let digits := rest.takeWhile Char.isDigit
    if digits = [] then none
    else
      let nine := digits.take 9
      some (Decimal.digitsValue nine * Nat.pow 10 (9 - nine.length), rest.dropWhile Char.isDigit)
  | s => some (0, s)

/-- Read a date as year, month and day with hyphens between. -/
def readDatePart? (s : List Char) : Option (Date × List Char) := do
  let (year, s) ← readYear? s
  let s ← readMark? '-' s
  let (month, s) ← readTwo? s
  let s ← readMark? '-' s
  let (day, s) ← readTwo? s
  let date ← Date.ofYmd? year month day
  pure (date, s)

/-- Read a time as hour, minute and second with colons between, and a fraction. -/
def readTimePart? (s : List Char) : Option (TimeOfDay × List Char) := do
  let (hour, s) ← readTwo? s
  let s ← readMark? ':' s
  let (minute, s) ← readTwo? s
  let s ← readMark? ':' s
  let (second, s) ← readTwo? s
  let (nanosecond, s) ← readFraction? s
  let time ← TimeOfDay.ofParts? hour minute second nanosecond
  pure (time, s)

/-- Read an offset from UTC in minutes: `Z`, or a sign, two digits for the hours and two for the
minutes. The sign may be U+2212; the offset is less than a day. -/
def readOffset? : List Char → Option (Int × List Char)
  | [] => none
  | c :: rest =>
    if c = 'Z' ∨ c = 'z' then some (0, rest)
    else do
      let ahead ←
        if c = '+' then some true
        else if c = '-' ∨ c = Char.ofNat 0x2212 then some false
        else none
      let (hours, rest) ← readExactly? 2 rest
      let rest ← readMark? ':' rest
      let (minutes, rest) ← readExactly? 2 rest
      if minutes < 60 ∧ hours < 24 then
        let offset : Int := hours * 60 + minutes
        some (if ahead then offset else -offset, rest)
      else none

/-! ## Reading whole texts -/

/-- What was read, when nothing is left. -/
def complete? {α : Type} : α × List Char → Option α
  | (a, []) => some a
  | (_, _ :: _) => none

/-- Read a date. -/
def readDate? (s : List Char) : Option Date := (readDatePart? s).bind complete?

/-- Read a date, the letter `T` and a time. -/
def readMarked? (s : List Char) : Option DateTime := do
  let (date, s) ← readDatePart? s
  let s ← readMark? 'T' s
  let time ← (readTimePart? s).bind complete?
  pure ⟨date, time⟩

/-- Read a date, any number of blanks, also none, and a time. -/
def readBlanked? (s : List Char) : Option DateTime := do
  let (date, s) ← readDatePart? s
  let time ← (readTimePart? (Text.skipBlanks s)).bind complete?
  pure ⟨date, time⟩

/-- Read the internet layout: every number with its exact width, `T`, `t` or a blank between date
and time, and an offset, which is taken off. -/
def readOffsetted? (s : List Char) : Option DateTime := do
  let (year, s) ← readExactly? 4 s
  let s ← readMark? '-' s
  let (month, s) ← readExactly? 2 s
  let s ← readMark? '-' s
  let (day, s) ← readExactly? 2 s
  let s ← readMark? 'T' s <|> readMark? 't' s <|> readMark? ' ' s
  let (hour, s) ← readExactly? 2 s
  let s ← readMark? ':' s
  let (minute, s) ← readExactly? 2 s
  let s ← readMark? ':' s
  let (second, s) ← readExactly? 2 s
  let (nanosecond, s) ← readFraction? s
  let offset ← (readOffset? s).bind complete?
  let date ← Date.ofYmd? year month day
  let time ← TimeOfDay.ofParts? hour minute second nanosecond
  DateTime.toUtc? ⟨date, time⟩ offset

/-- Read a date alone, as its midnight. -/
def readMidnight? (s : List Char) : Option DateTime :=
  (readDate? s).map fun date => ⟨date, .midnight⟩

/-- Read a date-time in the first of the four layouts that fits. -/
def readDateTime? (s : List Char) : Option DateTime :=
  readMarked? s <|> readBlanked? s <|> readOffsetted? s <|> readMidnight? s

end TableQuery.Calendar
