import Mathlib.Data.List.TakeWhile
import TableQuery.Calendar.Text
import TableQuery.Proofs.Text.Trimming

/-!
# Blanks around dates

The readers of dates and date-times skip blanks in front of the year, except for a date-time with an
offset, and every text that they accept ends in a digit or in the letter of an offset. The text of a
date is therefore read alike after trimming.
-/

namespace TableQuery.Calendar

open Text (Behind skipBlanks trimBlanks)

variable {s rest : List Char} {width n : Nat}

/-! ## What readers leave -/

/-- Digits are read up to the last of them. -/
theorem behind_of_readDigits? (h : readDigits? width s = some (n, rest)) : Behind s rest := by
  dsimp only [readDigits?] at h
  split at h
  next => contradiction
  next hne =>
    obtain ⟨-, rfl⟩ := Prod.mk.inj (Option.some.inj h)
    have hprefix := (List.takeWhile_prefix (l := s.take width) Char.isDigit).trans
      (List.take_prefix width s)
    have hbehind := Text.behind_append hne
      (fun c hc => Text.isBlank_of_isDigit (List.mem_takeWhile_imp hc))
      (s.drop ((s.take width).takeWhile Char.isDigit).length)
    rwa [List.prefix_iff_eq_append.1 hprefix] at hbehind

/-- A number of exactly so many digits is one of at most so many. -/
theorem readDigits?_of_readExactly? (hwidth : 0 < width)
    (h : readExactly? width s = some (n, rest)) : readDigits? width s = some (n, rest) := by
  dsimp only [readExactly?] at h
  split at h
  next hlength =>
    have hne : (s.take width).takeWhile Char.isDigit ≠ [] := by
      intro hnil
      rw [hnil] at hlength
      exact hwidth.ne hlength
    rw [readDigits?, if_neg hne, hlength]
    exact h
  next => contradiction

/-- So many digits are read up to the last of them. -/
theorem behind_of_readExactly? (hwidth : 0 < width) (h : readExactly? width s = some (n, rest)) :
    Behind s rest :=
  behind_of_readDigits? (readDigits?_of_readExactly? hwidth h)

/-- A text that is read as digits begins with one. -/
theorem exists_digit_of_readDigits? (h : readDigits? width s = some (n, rest)) :
    ∃ c more, s = c :: more ∧ c.isDigit = true := by
  dsimp only [readDigits?] at h
  split at h
  next => contradiction
  next hne =>
    cases s with
    | nil => simp at hne
    | cons c more =>
      refine ⟨c, more, rfl, ?_⟩
      cases width with
      | zero => simp at hne
      | succ width =>
        rw [List.take_succ_cons, List.takeWhile_cons] at hne
        by_contra hdigit
        exact hne (if_neg hdigit)

/-- A mark is the first character. -/
theorem eq_of_readMark? {mark : Char} (h : readMark? mark s = some rest) : s = mark :: rest := by
  cases s with
  | nil => contradiction
  | cons c s =>
    simp only [readMark?, Option.ite_none_right_eq_some, Option.some.injEq] at h
    rw [h.1, h.2]

/-- What stands behind a mark is a part at the end. -/
theorem suffix_of_readMark? {mark : Char} (h : readMark? mark s = some rest) : rest <:+ s :=
  eq_of_readMark? h ▸ List.suffix_cons mark rest

/-- A number of two digits is read up to the last of them. -/
theorem behind_of_readTwo? (h : readTwo? s = some (n, rest)) : Behind s rest :=
  (behind_of_readDigits? h).of_suffix (Text.skipBlanks_suffix s)

/-- A year is read up to the last of its digits. -/
theorem behind_of_readYear? {year : Int} (h : readYear? s = some (year, rest)) : Behind s rest := by
  refine Behind.of_suffix (Text.skipBlanks_suffix s) ?_
  unfold readYear? at h
  split at h
  next after hskip =>
    obtain ⟨_, hread, heq⟩ := Option.map_eq_some_iff.1 h
    rw [hskip, ← (Prod.mk.inj heq).2]
    exact (behind_of_readDigits? hread).of_suffix (List.suffix_cons _ after)
  next after hskip =>
    obtain ⟨_, hread, heq⟩ := Option.map_eq_some_iff.1 h
    rw [hskip, ← (Prod.mk.inj heq).2]
    exact (behind_of_readDigits? hread).of_suffix (List.suffix_cons _ after)
  next =>
    obtain ⟨_, hread, heq⟩ := Option.map_eq_some_iff.1 h
    rw [← (Prod.mk.inj heq).2]
    exact behind_of_readDigits? hread

/-- A fraction is missing, or is read up to the last of its digits. -/
theorem eq_or_behind_of_readFraction? (h : readFraction? s = some (n, rest)) :
    rest = s ∨ Behind s rest := by
  unfold readFraction? at h
  split at h
  next after =>
    dsimp only at h
    split at h
    next => contradiction
    next hne =>
      obtain ⟨-, rfl⟩ := Prod.mk.inj (Option.some.inj h)
      have hbehind := Text.behind_append hne
        (fun c hc => Text.isBlank_of_isDigit (List.mem_takeWhile_imp hc))
        (after.dropWhile Char.isDigit)
      rw [List.takeWhile_append_dropWhile] at hbehind
      exact Or.inr (hbehind.of_suffix (List.suffix_cons '.' after))
  next => exact Or.inl (Prod.mk.inj (Option.some.inj h)).2.symm

/-- A date is read up to the last digit of its day. -/
theorem behind_of_readDatePart? {d : Date} (h : readDatePart? s = some (d, rest)) :
    Behind s rest := by
  simp only [readDatePart?, Option.bind_eq_bind, Option.bind_eq_some_iff, Option.pure_def,
    Option.some.injEq, Prod.mk.injEq, Prod.exists] at h
  obtain ⟨_, _, hyear, _, hfirst, _, _, hmonth, _, hsecond, _, _, hday, _, _, _, rfl⟩ := h
  have hsuffix := (suffix_of_readMark? hsecond).trans ((behind_of_readTwo? hmonth).suffix.trans
    ((suffix_of_readMark? hfirst).trans (behind_of_readYear? hyear).suffix))
  exact (behind_of_readTwo? hday).of_suffix hsuffix

/-- A time is read up to the last digit of its seconds or of their fraction. -/
theorem behind_of_readTimePart? {t : TimeOfDay} (h : readTimePart? s = some (t, rest)) :
    Behind s rest := by
  simp only [readTimePart?, Option.bind_eq_bind, Option.bind_eq_some_iff, Option.pure_def,
    Option.some.injEq, Prod.mk.injEq, Prod.exists] at h
  obtain ⟨_, _, hhour, _, hfirst, _, _, hminute, _, hsecond, _, _, hseconds, _, _, hfraction, _, _, _,
    rfl⟩ := h
  have hsuffix := (suffix_of_readMark? hsecond).trans ((behind_of_readTwo? hminute).suffix.trans
    ((suffix_of_readMark? hfirst).trans (behind_of_readTwo? hhour).suffix))
  have hbehind := (behind_of_readTwo? hseconds).of_suffix hsuffix
  rcases eq_or_behind_of_readFraction? hfraction with rfl | hlater
  · exact hbehind
  · exact hlater.of_suffix hbehind.suffix

/-- An offset is read up to its letter or to the last digit of its minutes. -/
theorem behind_of_readOffset? {offset : Int} (h : readOffset? s = some (offset, rest)) :
    Behind s rest := by
  unfold readOffset? at h
  split at h
  next => contradiction
  next c after =>
    split at h
    next hletter =>
      obtain ⟨-, rfl⟩ := Prod.mk.inj (Option.some.inj h)
      refine ⟨[], c, ?_, rfl⟩
      rcases hletter with rfl | rfl <;> decide
    next =>
      -- The sign decides the value only, not what is read behind it.
      have hnumbers : ∃ hours minutes middle later, readExactly? 2 after = some (hours, middle) ∧
          readMark? ':' middle = some later ∧ readExactly? 2 later = some (minutes, rest) := by
        split at h
        case' isFalse => split at h
        all_goals
          simp only [Option.bind_eq_bind, Option.bind_some, Option.bind_none, Option.bind_eq_some_iff,
            Option.ite_none_right_eq_some, Option.some.injEq, Prod.mk.injEq, Prod.exists,
            reduceCtorEq] at h
        all_goals
          obtain ⟨hours, middle, hhours, later, hcolon, minutes, _, hminutes, _, _, rfl⟩ := h
          exact ⟨hours, minutes, middle, later, hhours, hcolon, hminutes⟩
      obtain ⟨_, _, _, _, hhours, hcolon, hminutes⟩ := hnumbers
      have hsuffix := (suffix_of_readMark? hcolon).trans
        ((behind_of_readExactly? Nat.two_pos hhours).suffix.trans
          (List.suffix_cons c after))
      exact (behind_of_readExactly? Nat.two_pos hminutes).of_suffix hsuffix

/-! ## Whole texts -/

/-- A text is read whole when its reader leaves nothing. -/
theorem bind_complete?_eq_some_iff {α : Type} {read : Option (α × List Char)} {a : α} :
    read.bind complete? = some a ↔ read = some (a, []) := by
  rcases read with _ | ⟨b, _ | ⟨c, more⟩⟩ <;> simp [complete?]

variable {d : Date} {t : DateTime}

/-- The text of a date ends in no blank. -/
theorem behind_of_readDate? (h : readDate? s = some d) : Behind s [] :=
  behind_of_readDatePart? (bind_complete?_eq_some_iff.1 h)

/-- A date-time with the letter `T` is a date and, behind the letter, a time up to the end. -/
theorem exists_of_readMarked? (h : readMarked? s = some t) :
    ∃ clock, readDatePart? s = some (t.date, 'T' :: clock) ∧
      readTimePart? clock = some (t.time, []) := by
  simp only [readMarked?, Option.bind_eq_bind, Option.bind_eq_some_iff, Prod.exists, Option.pure_def,
    Option.some.injEq] at h
  obtain ⟨_, _, hdate, clock, hmark, _, ⟨_, _, htime, hcomplete⟩, rfl⟩ := h
  rw [eq_of_readMark? hmark] at hdate
  exact ⟨clock, hdate,
    bind_complete?_eq_some_iff.1 (Option.bind_eq_some_iff.2 ⟨_, htime, hcomplete⟩)⟩

/-- The text of a date-time with the letter `T` ends in no blank. -/
theorem behind_of_readMarked? (h : readMarked? s = some t) : Behind s [] := by
  obtain ⟨clock, hdate, htime⟩ := exists_of_readMarked? h
  exact (behind_of_readTimePart? htime).of_suffix
    ((List.suffix_cons 'T' clock).trans (behind_of_readDatePart? hdate).suffix)

/-- A time is read behind blanks. -/
theorem readTimePart?_skipBlanks (s : List Char) : readTimePart? (skipBlanks s) = readTimePart? s := by
  rw [readTimePart?, readTimePart?, readTwo?, readTwo?, Text.skipBlanks_skipBlanks]

/-- A date-time with blanks in it is a date and a time up to the end, which skips the blanks. -/
theorem exists_of_readBlanked? (h : readBlanked? s = some t) :
    ∃ rest, readDatePart? s = some (t.date, rest) ∧ readTimePart? rest = some (t.time, []) := by
  simp only [readBlanked?, Option.bind_eq_bind, Option.bind_eq_some_iff, Prod.exists,
    Option.pure_def, Option.some.injEq] at h
  obtain ⟨_, rest, hdate, _, ⟨_, _, htime, hcomplete⟩, rfl⟩ := h
  rw [readTimePart?_skipBlanks] at htime
  exact ⟨rest, hdate,
    bind_complete?_eq_some_iff.1 (Option.bind_eq_some_iff.2 ⟨_, htime, hcomplete⟩)⟩

/-- The text of a date-time with blanks in it ends in none. -/
theorem behind_of_readBlanked? (h : readBlanked? s = some t) : Behind s [] := by
  obtain ⟨rest, hdate, htime⟩ := exists_of_readBlanked? h
  exact (behind_of_readTimePart? htime).of_suffix (behind_of_readDatePart? hdate).suffix

/-- A number of exactly two digits is one that may have blanks in front. -/
theorem readTwo?_of_readExactly? (h : readExactly? 2 s = some (n, rest)) :
    readTwo? s = some (n, rest) := by
  have hread := readDigits?_of_readExactly? Nat.two_pos h
  obtain ⟨c, more, rfl, hdigit⟩ := exists_digit_of_readDigits? hread
  rw [readTwo?, Text.skipBlanks_cons (Text.isBlank_of_isDigit hdigit), hread]

/-- A year of exactly four digits is one that may have blanks in front. -/
theorem readYear?_of_readExactly? (h : readExactly? 4 s = some (n, rest)) :
    readYear? s = some ((n : Int), rest) := by
  have hread := readDigits?_of_readExactly? (Nat.zero_lt_succ 3) h
  obtain ⟨c, more, rfl, hdigit⟩ := exists_digit_of_readDigits? hread
  rw [readYear?, Text.skipBlanks_cons (Text.isBlank_of_isDigit hdigit)]
  split
  next heq => exact absurd hdigit (by simp [(List.cons.inj heq).1])
  next heq => exact absurd hdigit (by simp [(List.cons.inj heq).1])
  next => rw [hread, Option.map_some]

/-- One of three marks is the first character. -/
theorem exists_mark_of_readMark? {first second third : Char}
    (h : (readMark? first s <|> readMark? second s <|> readMark? third s) = some rest) :
    ∃ c, (c = first ∨ c = second ∨ c = third) ∧ s = c :: rest := by
  cases hfirst : readMark? first s with
  | some found =>
    rw [hfirst] at h
    obtain rfl : found = rest := Option.some.inj h
    exact ⟨first, Or.inl rfl, eq_of_readMark? hfirst⟩
  | none =>
    rw [hfirst] at h
    cases hsecond : readMark? second s with
    | some found =>
      rw [hsecond] at h
      obtain rfl : found = rest := Option.some.inj h
      exact ⟨second, Or.inr (Or.inl rfl), eq_of_readMark? hsecond⟩
    | none =>
      rw [hsecond] at h
      exact ⟨third, Or.inr (Or.inr rfl), eq_of_readMark? h⟩

/-- A date-time with an offset is a date, a mark, a time and an offset, and begins with a digit. -/
theorem of_readOffsetted? (h : readOffsetted? s = some t) :
    skipBlanks s = s ∧ ∃ d c after time zone offset, (c = 'T' ∨ c = 't' ∨ c = ' ') ∧
      readDatePart? s = some (d, c :: after) ∧ readTimePart? after = some (time, zone) ∧
      readOffset? zone = some (offset, []) := by
  -- One step of the reader after the other: taking all of them apart at once is slow.
  unfold readOffsetted? at h
  obtain ⟨⟨year, _⟩, hyear, h⟩ := Option.bind_eq_some_iff.1 h
  obtain ⟨_, hfirst, h⟩ := Option.bind_eq_some_iff.1 h
  obtain ⟨⟨month, _⟩, hmonth, h⟩ := Option.bind_eq_some_iff.1 h
  obtain ⟨_, hsecond, h⟩ := Option.bind_eq_some_iff.1 h
  obtain ⟨⟨day, behind⟩, hday, h⟩ := Option.bind_eq_some_iff.1 h
  obtain ⟨after, hmark, h⟩ := Option.bind_eq_some_iff.1 h
  obtain ⟨⟨_, _⟩, hhour, h⟩ := Option.bind_eq_some_iff.1 h
  obtain ⟨_, hcolon, h⟩ := Option.bind_eq_some_iff.1 h
  obtain ⟨⟨_, _⟩, hminute, h⟩ := Option.bind_eq_some_iff.1 h
  obtain ⟨_, hpoint, h⟩ := Option.bind_eq_some_iff.1 h
  obtain ⟨⟨_, _⟩, hseconds, h⟩ := Option.bind_eq_some_iff.1 h
  obtain ⟨⟨_, zone⟩, hfraction, h⟩ := Option.bind_eq_some_iff.1 h
  obtain ⟨offset, hoffset, h⟩ := Option.bind_eq_some_iff.1 h
  obtain ⟨d, hd, h⟩ := Option.bind_eq_some_iff.1 h
  obtain ⟨time, htime, _⟩ := Option.bind_eq_some_iff.1 h
  have hoffset := bind_complete?_eq_some_iff.1 hoffset
  obtain ⟨c, hc, rfl⟩ := exists_mark_of_readMark? hmark
  refine ⟨?_, d, c, after, time, zone, offset, hc, ?_, ?_, hoffset⟩
  · obtain ⟨first, more, rfl, hdigit⟩ :=
      exists_digit_of_readDigits? (readDigits?_of_readExactly? (Nat.zero_lt_succ 3) hyear)
    exact Text.skipBlanks_cons (Text.isBlank_of_isDigit hdigit)
  · simp only [readDatePart?, readYear?_of_readExactly? hyear, hfirst,
      readTwo?_of_readExactly? hmonth, hsecond, readTwo?_of_readExactly? hday, hd,
      Option.bind_eq_bind, Option.bind_some, Option.pure_def]
  · simp only [readTimePart?, readTwo?_of_readExactly? hhour, hcolon,
      readTwo?_of_readExactly? hminute, hpoint, readTwo?_of_readExactly? hseconds, hfraction, htime,
      Option.bind_eq_bind, Option.bind_some, Option.pure_def]

/-- The text of a date-time with an offset does not end in a blank. -/
theorem behind_of_readOffsetted? (h : readOffsetted? s = some t) : Behind s [] := by
  obtain ⟨_, d, c, after, time, zone, offset, _, hdate, htime, hoffset⟩ := of_readOffsetted? h
  exact (behind_of_readOffset? hoffset).of_suffix ((behind_of_readTimePart? htime).suffix.trans
    ((List.suffix_cons c after).trans (behind_of_readDatePart? hdate).suffix))

/-! ## Blanks in front -/

/-- A year is read behind blanks. -/
theorem readYear?_skipBlanks (s : List Char) : readYear? (skipBlanks s) = readYear? s := by
  rw [readYear?, readYear?, Text.skipBlanks_skipBlanks]

/-- A date is read behind blanks. -/
theorem readDatePart?_skipBlanks (s : List Char) : readDatePart? (skipBlanks s) = readDatePart? s := by
  rw [readDatePart?, readDatePart?, readYear?_skipBlanks]

/-- A date-time with the letter `T` is read behind blanks. -/
theorem readMarked?_skipBlanks (s : List Char) : readMarked? (skipBlanks s) = readMarked? s := by
  rw [readMarked?, readMarked?, readDatePart?_skipBlanks]

/-- A date-time with blanks in it is read behind others. -/
theorem readBlanked?_skipBlanks (s : List Char) : readBlanked? (skipBlanks s) = readBlanked? s := by
  rw [readBlanked?, readBlanked?, readDatePart?_skipBlanks]

/-- A date alone is read behind blanks. -/
theorem readDate?_skipBlanks (s : List Char) : readDate? (skipBlanks s) = readDate? s := by
  rw [readDate?, readDate?, readDatePart?_skipBlanks]

/-- A text that is read as a date is read as the same date after trimming. -/
theorem readDate?_trimBlanks (h : readDate? s = some d) : readDate? (trimBlanks s) = some d := by
  rw [Text.trimBlanks_of_behind (behind_of_readDate? h), readDate?_skipBlanks, h]

end TableQuery.Calendar
