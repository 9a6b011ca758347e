import Mathlib.Algebra.Group.Nat.Defs
import Mathlib.Data.List.TakeWhile
import TableQuery.Calendar.Text
import TableQuery.Proofs.Text.Trimming

/-!
# Written dates and date-times read back

A number that is padded to a width has this width if it fits, and is read back from in front of any
text that does not continue its digits. Part by part, every date and every date-time is read back
from what is written for it; a date-time also when a blank stands between date and time.
-/

namespace TableQuery

namespace Calendar

/-! ## Padded numbers -/

/-- A padded number consists of digits. -/
theorem isDigit_of_mem_padded {width n : Nat} {c : Char} (h : c ∈ padded width n) :
    c.isDigit = true := by
  rcases List.mem_append.1 h with h | h
  · rw [(List.mem_replicate.1 h).2]
    decide
  · exact Decimal.isDigit_of_mem_writeNat h

/-- A padded number has at least one digit. -/
theorem padded_ne_nil (width n : Nat) : padded width n ≠ [] := by
  intro h
  exact Decimal.writeNat_ne_nil n (List.append_eq_nil_iff.1 h).2

/-- The digits of a padded number denote it. -/
theorem digitsValue_padded (width n : Nat) : Decimal.digitsValue (padded width n) = n := by
  have hvalue := Decimal.digitsValue_writeNat n
  unfold Decimal.digitsValue at hvalue ⊢
  rw [padded, Nat.ofDigitChars_append, Nat.ofDigitChars_replicate_zero, Nat.mul_zero, hvalue]

/-- A number that fits a width is padded to this width. -/
theorem length_padded {width n : Nat} (hwidth : 0 < width) (h : n < 10 ^ width) :
    (padded width n).length = width := by
  have hle : (Decimal.writeNat n).length ≤ width :=
    (Nat.length_toDigits_le_iff (by decide) hwidth).2 h
  rw [padded, List.length_append, List.length_replicate]
  omega

/-- A padded number begins with a digit. -/
theorem exists_padded_eq_cons (width n : Nat) :
    ∃ c rest, padded width n = c :: rest ∧ c.isDigit = true := by
  cases hpadded : padded width n with
  | nil => exact absurd hpadded (padded_ne_nil width n)
  | cons c rest => exact ⟨c, rest, rfl, isDigit_of_mem_padded (hpadded ▸ List.mem_cons_self)⟩

/-- Blanks are skipped in front of a padded number, which begins with none. -/
theorem skipBlanks_padded (width n : Nat) (rest : List Char) :
    Text.skipBlanks (padded width n ++ rest) = padded width n ++ rest := by
  obtain ⟨c, more, hpadded, hdigit⟩ := exists_padded_eq_cons width n
  rw [hpadded, List.cons_append, Text.skipBlanks_cons (Text.isBlank_of_isDigit hdigit)]

/-! ## Reading parts -/

/-- A text does not begin with a digit. -/
def NoDigitAhead (s : List Char) : Prop := ∀ c rest, s = c :: rest → c.isDigit = false

/-- Before a text that does not begin with a digit, the leading digits are all digits there are. -/
theorem takeWhile_isDigit_append {digits rest : List Char} (hdigits : ∀ c ∈ digits, c.isDigit = true)
    (hrest : NoDigitAhead rest) : (digits ++ rest).takeWhile Char.isDigit = digits := by
  rw [List.takeWhile_append_of_pos hdigits]
  cases rest with
  | nil => simp
  | cons c rest => rw [List.takeWhile_cons_of_neg (by simp [hrest c rest rfl]), List.append_nil]

/-- Digits are read whole when no digit follows them. -/
theorem readDigits?_append {width : Nat} {digits rest : List Char} (hne : digits ≠ [])
    (hdigits : ∀ c ∈ digits, c.isDigit = true) (hlength : digits.length ≤ width)
    (hrest : NoDigitAhead rest) :
    readDigits? width (digits ++ rest) = some (Decimal.digitsValue digits, rest) := by
  have htake : NoDigitAhead (rest.take (width - digits.length)) := by
    intro c more h
    cases rest with
    | nil => simp at h
    | cons d rest =>
      cases hcount : width - digits.length with
      | zero => simp [hcount] at h
      | succ count =>
        rw [hcount, List.take_succ_cons, List.cons.injEq] at h
        exact hrest c rest (by rw [h.1])
  rw [readDigits?, List.take_append, List.take_of_length_le hlength,
    takeWhile_isDigit_append hdigits htake, if_neg hne, List.drop_left]

/-- As many digits as the width allows are read whatever follows them. -/
theorem readDigits?_of_length_eq {width : Nat} {digits : List Char} (hne : digits ≠ [])
    (hdigits : ∀ c ∈ digits, c.isDigit = true) (hlength : digits.length = width)
    (rest : List Char) :
    readDigits? width (digits ++ rest) = some (Decimal.digitsValue digits, rest) := by
  rw [readDigits?, List.take_left' hlength, List.takeWhile_eq_self_iff.2 hdigits, if_neg hne,
    List.drop_left]

/-- A number of two digits is read back, whatever follows it. -/
theorem readTwo?_padded {n : Nat} (h : n < 100) (rest : List Char) :
    readTwo? (padded 2 n ++ rest) = some (n, rest) := by
  rw [readTwo?, skipBlanks_padded, readDigits?_of_length_eq (padded_ne_nil 2 n)
    (fun _ => isDigit_of_mem_padded) (length_padded (by decide) h), digitsValue_padded]

/-- A mark is read. -/
theorem readMark?_cons (mark : Char) (rest : List Char) : readMark? mark (mark :: rest) = some rest :=
  if_pos rfl

/-- A year is read back from in front of a hyphen. -/
theorem readYear?_writeYear (year : Int) (rest : List Char) :
    readYear? (writeYear year ++ '-' :: rest) = some (year, '-' :: rest) := by
  have hhyphen : NoDigitAhead ('-' :: rest) := by
    intro c more h
    rw [List.cons.injEq] at h
    exact h.1 ▸ by decide
  have hwhole {digits : List Char} (hne : digits ≠ []) (hdigits : ∀ c ∈ digits, c.isDigit = true) :
      readDigits? (digits ++ '-' :: rest).length (digits ++ '-' :: rest) =
        some (Decimal.digitsValue digits, '-' :: rest) :=
    readDigits?_append hne hdigits (by simp) hhyphen
  unfold writeYear
  split
  next hnegative =>
    rw [List.cons_append, readYear?, Text.skipBlanks_cons (by decide)]
    simp only [hwhole (padded_ne_nil 4 _) fun _ => isDigit_of_mem_padded, digitsValue_padded,
      Option.map_some, Option.some.injEq, Prod.mk.injEq, and_true]
    omega
  next hnegative =>
    split
    next hlarge =>
      rw [List.cons_append, readYear?, Text.skipBlanks_cons (by decide)]
      simp only [hwhole (Decimal.writeNat_ne_nil _) fun _ => Decimal.isDigit_of_mem_writeNat,
        Decimal.digitsValue_writeNat, Option.map_some, Option.some.injEq, Prod.mk.injEq, and_true]
      omega
    next hlarge =>
      have hread := readDigits?_append (padded_ne_nil 4 year.natAbs) (fun _ => isDigit_of_mem_padded)
        (Nat.le_of_eq (length_padded (by decide) (by omega))) hhyphen
      rw [digitsValue_padded] at hread
      obtain ⟨c, more, hpadded, hdigit⟩ := exists_padded_eq_cons 4 year.natAbs
      rw [readYear?, skipBlanks_padded, hpadded, List.cons_append]
      split
      next h => exact absurd hdigit (by simp [(List.cons.inj h).1])
      next h => exact absurd hdigit (by simp [(List.cons.inj h).1])
      next =>
        rw [← List.cons_append, ← hpadded, hread, Option.map_some, Option.some.injEq, Prod.mk.injEq]
        exact ⟨by omega, rfl⟩

/-- A date is read back, whatever follows it. -/
theorem readDatePart?_writeDate (d : Date) (rest : List Char) :
    readDatePart? (writeDate d ++ rest) = some (d, rest) := by
  have hvalid := d.onCalendar
  simp only [isDate, Bool.and_eq_true, decide_eq_true_eq] at hvalid
  have hdays := daysIn_bounds d.year d.month
  simp only [readDatePart?, writeDate, List.append_assoc, List.cons_append, readYear?_writeYear,
    readMark?_cons, readTwo?_padded (show d.month < 100 by omega),
    readTwo?_padded (show d.day < 100 by omega), Date.ofYmd?_parts, Option.bind_eq_bind,
    Option.bind_some, Option.pure_def]

/-- A fraction is read back at the end of a text. -/
theorem readFraction?_point {width n : Nat} (hwidth : 0 < width) (hnine : width ≤ 9)
    (h : n < 10 ^ width) :
    readFraction? ('.' :: padded width n) = some (n * 10 ^ (9 - width), []) := by
  have hlength := length_padded hwidth h
  have hdigits : ∀ c ∈ padded width n, c.isDigit = true := fun _ => isDigit_of_mem_padded
  have hnothing : (padded width n).dropWhile Char.isDigit = [] := List.dropWhile_eq_nil_iff.2 hdigits
  rw [readFraction?, List.takeWhile_eq_self_iff.2 hdigits, hnothing]
  simp only [if_neg (padded_ne_nil width n)]
  rw [List.take_of_length_le (by omega), digitsValue_padded, hlength]
  rfl

/-- The fraction of a second is read back at the end of a text. -/
theorem readFraction?_writeFraction {nanosecond : Nat} (h : nanosecond < 1000000000) :
    readFraction? (writeFraction nanosecond) = some (nanosecond, []) := by
  unfold writeFraction
  split
  next hzero => rw [hzero]; rfl
  next =>
    split
    next hmilli =>
      rw [readFraction?_point (by decide) (by decide) (by omega), Option.some.injEq, Prod.mk.injEq]
      exact ⟨by omega, rfl⟩
    next =>
      split
      next hmicro =>
        rw [readFraction?_point (by decide) (by decide) (by omega), Option.some.injEq, Prod.mk.injEq]
        exact ⟨by omega, rfl⟩
      next =>
        rw [readFraction?_point (by decide) (by decide) (by omega), Option.some.injEq, Prod.mk.injEq]
        exact ⟨by omega, rfl⟩

/-- A time of day is read back at the end of a text. -/
theorem readTimePart?_write (t : TimeOfDay) :
    readTimePart? (writeClock t ++ writeFraction t.nanosecond) = some (t, []) := by
  have hhour := t.hour_lt
  have hminute := t.minute_lt
  have hsecond := t.second_le
  simp only [readTimePart?, writeClock, List.append_assoc, List.cons_append, readMark?_cons,
    readTwo?_padded (show t.hour < 100 by omega), readTwo?_padded (show t.minute < 100 by omega),
    readTwo?_padded (show t.second < 100 by omega), readFraction?_writeFraction t.nanosecond_lt,
    TimeOfDay.ofParts?_parts, Option.bind_eq_bind, Option.bind_some, Option.pure_def]

/-! ## Reading whole texts -/

/-- Every date is read back from its text. -/
theorem readDate?_writeDate (d : Date) : readDate? (writeDate d) = some d := by
  have h := readDatePart?_writeDate d []
  rw [List.append_nil] at h
  rw [readDate?, h]
  rfl

/-- Every date-time is read back from its text with the letter `T`. -/
theorem readDateTime?_writeDateTime (t : DateTime) :
    readDateTime? (writeDateTime 'T' t) = some t := by
  have h : readMarked? (writeDateTime 'T' t) = some t := by
    simp only [readMarked?, writeDateTime, List.append_assoc, List.cons_append,
      readDatePart?_writeDate, readMark?_cons, readTimePart?_write, Option.bind_eq_bind,
      Option.bind_some, complete?, Option.pure_def]
  rw [readDateTime?, h]
  rfl

/-- Every date-time is read back from its text with a blank. -/
theorem readBlanked?_writeDateTime (t : DateTime) :
    readBlanked? (writeDateTime ' ' t) = some t := by
  have hskip : Text.skipBlanks (' ' :: (writeClock t.time ++ writeFraction t.time.nanosecond)) =
      writeClock t.time ++ writeFraction t.time.nanosecond := by
    have hblank : Text.isBlank ' ' = true := by decide
    rw [Text.skipBlanks, List.dropWhile_cons_of_pos hblank, writeClock, List.append_assoc,
      List.append_assoc]
    exact skipBlanks_padded _ _ _
  simp only [readBlanked?, writeDateTime, List.append_assoc, List.cons_append,
    readDatePart?_writeDate, hskip, readTimePart?_write, Option.bind_eq_bind, Option.bind_some,
    complete?, Option.pure_def]

end Calendar

end TableQuery
