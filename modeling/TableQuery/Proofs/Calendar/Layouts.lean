import TableQuery.Proofs.Calendar.Blanks

/-!
# At most one layout reads a text

What stands behind its date tells the layout of a date-time. It is nothing, a time up to the end, after
a letter if not, or else a time with an offset behind it. A time begins with a digit after blanks, so
that the letter is no part of it, and the blanks in front of it may as well be its own. Whichever order
the layouts are tried in, a text is therefore read alike. Trimming a text keeps its layout, and so what
it is read as.
-/

namespace TableQuery.Calendar

open Text (Behind skipBlanks trimBlanks)

variable {s rest : List Char} {t : DateTime}

/-- A time begins with a blank or a digit. -/
theorem readTimePart?_cons_eq_none {c : Char} (hblank : Text.isBlank c = false)
    (hdigit : c.isDigit = false) (rest : List Char) : readTimePart? (c :: rest) = none := by
  cases hread : readTimePart? (c :: rest) with
  | none => rfl
  | some read =>
    rw [readTimePart?, Option.bind_eq_bind, Option.bind_eq_some_iff] at hread
    obtain ⟨_, hhour, _⟩ := hread
    rw [readTwo?, Text.skipBlanks_cons hblank] at hhour
    obtain ⟨first, more, heq, hfirst⟩ := exists_digit_of_readDigits? hhour
    rw [← (List.cons.inj heq).1, hdigit] at hfirst
    contradiction

/-- The layouts of a date-time. -/
inductive Layout where
  | marked
  | blanked
  | offsetted
  | midnight
  deriving DecidableEq

namespace Layout

/-- The layouts in the order in which they are tried. -/
def all : List Layout := [marked, blanked, offsetted, midnight]

/-- All layouts are tried. -/
theorem mem_all (l : Layout) : l ∈ all := by
  cases l <;> decide

/-- Read a date-time in a layout. -/
def read? : Layout → List Char → Option DateTime
  | marked => readMarked?
  | blanked => readBlanked?
  | offsetted => readOffsetted?
  | midnight => readMidnight?

/-- The layout that a text can have whose date is followed by `rest`. -/
def behindDate (rest : List Char) : Layout :=
  match rest, readTimePart? rest with
  | [], _ => midnight
  | _ :: _, some (_, []) => blanked
  | _ :: _, some (_, _ :: _) => offsetted
  | _ :: clock, none =>
    match readTimePart? clock with
    | some (_, []) => marked
    | _ => offsetted

/-- A time behind one of the marks, with something behind it, makes a date-time with an offset. -/
theorem behindDate_mark {c d : Char} {clock zone : List Char} {time : TimeOfDay}
    (hc : c = 'T' ∨ c = 't' ∨ c = ' ') (htime : readTimePart? clock = some (time, d :: zone)) :
    behindDate (c :: clock) = offsetted := by
  unfold behindDate
  rcases hc with rfl | rfl | rfl
  · rw [readTimePart?_cons_eq_none (by decide) (by decide)]
    simp only [htime]
  · rw [readTimePart?_cons_eq_none (by decide) (by decide)]
    simp only [htime]
  · have hblank : skipBlanks (' ' :: clock) = skipBlanks clock :=
      List.dropWhile_cons_of_pos (by decide)
    rw [← readTimePart?_skipBlanks, hblank, readTimePart?_skipBlanks, htime]

/-- A text that is read in a layout begins with a date, and what follows allows this layout only. -/
theorem exists_behindDate_of_read? {l : Layout} (h : l.read? s = some t) :
    ∃ d rest, readDatePart? s = some (d, rest) ∧ behindDate rest = l := by
  cases l with
  | marked =>
    obtain ⟨clock, hdate, htime⟩ := exists_of_readMarked? h
    refine ⟨_, _, hdate, ?_⟩
    unfold behindDate
    rw [readTimePart?_cons_eq_none (by decide) (by decide)]
    simp only [htime]
  | blanked =>
    obtain ⟨rest, hdate, htime⟩ := exists_of_readBlanked? h
    refine ⟨_, rest, hdate, ?_⟩
    cases rest with
    | nil => contradiction
    | cons c clock => simp only [behindDate, htime]
  | offsetted =>
    obtain ⟨_, d, c, clock, time, zone, offset, hc, hdate, htime, hoffset⟩ := of_readOffsetted? h
    refine ⟨d, _, hdate, ?_⟩
    cases zone with
    | nil => contradiction
    | cons first zone => exact behindDate_mark hc htime
  | midnight =>
    obtain ⟨d, hdate, _⟩ := Option.map_eq_some_iff.1 h
    exact ⟨d, [], bind_complete?_eq_some_iff.1 hdate, rfl⟩

/-- Two layouts that read a text are the same. -/
theorem eq_of_read? {l other : Layout} {u : DateTime} (h : l.read? s = some t)
    (hother : other.read? s = some u) : l = other := by
  obtain ⟨d, rest, hdate, hl⟩ := exists_behindDate_of_read? h
  obtain ⟨e, behind, hsame, hbehind⟩ := exists_behindDate_of_read? hother
  obtain ⟨-, rfl⟩ := Prod.mk.inj (Option.some.inj (hdate.symm.trans hsame))
  exact hl.symm.trans hbehind

/-- A text is read in the first layout that fits. -/
theorem readDateTime?_eq_findSome? (s : List Char) :
    readDateTime? s = all.findSome? fun l => l.read? s := by
  simp only [readDateTime?, all, List.findSome?_cons, List.findSome?_nil, read?]
  cases readMarked? s <;> cases readBlanked? s <;> cases readOffsetted? s <;>
    cases readMidnight? s <;> rfl

/-- Trying all layouts in any order finds what some layout reads. -/
theorem findSome?_eq_some_iff {order : List Layout} (horder : ∀ l, l ∈ order) :
    (order.findSome? fun l => l.read? s) = some t ↔ ∃ l : Layout, l.read? s = some t := by
  refine ⟨fun h => ?_, fun ⟨l, hl⟩ => ?_⟩
  · obtain ⟨l, _, hl⟩ := List.exists_of_findSome?_eq_some h
    exact ⟨l, hl⟩
  · have hsome : (order.findSome? fun l => l.read? s).isSome = true :=
      List.findSome?_isSome_iff.2 ⟨l, horder l, by rw [hl, Option.isSome_some]⟩
    obtain ⟨u, hu⟩ := Option.isSome_iff_exists.1 hsome
    obtain ⟨other, _, hother⟩ := List.exists_of_findSome?_eq_some hu
    rw [eq_of_read? hother hl, hl] at hother
    rw [hu, hother]

/-- A text is read as what some layout reads. -/
theorem readDateTime?_eq_some_iff : readDateTime? s = some t ↔ ∃ l : Layout, l.read? s = some t := by
  rw [readDateTime?_eq_findSome?, findSome?_eq_some_iff mem_all]

/-- At most one layout reads a text, and what it reads is what the text is read as, in whichever order
the layouts are tried. -/
theorem read?_exclusive (s : List Char) :
    (∀ l other : Layout, (l.read? s).isSome = true → (other.read? s).isSome = true → l = other) ∧
    (∀ t, readDateTime? s = some t ↔ ∃ l : Layout, l.read? s = some t) ∧
    ∀ order : List Layout, (∀ l, l ∈ order) →
      (order.findSome? fun l => l.read? s) = readDateTime? s := by
  refine ⟨fun l other hl hother => ?_, fun t => readDateTime?_eq_some_iff,
    fun order horder => Option.ext fun t => ?_⟩
  · obtain ⟨t, ht⟩ := Option.isSome_iff_exists.1 hl
    obtain ⟨u, hu⟩ := Option.isSome_iff_exists.1 hother
    exact eq_of_read? ht hu
  · rw [findSome?_eq_some_iff horder, readDateTime?_eq_some_iff]

/-- A date and a time with nothing between them are read in one layout, and alike in reverse order. -/
theorem read?_exclusive_adjoining :
    let s := "2024-01-0210:30:00".toList
    (blanked.read? s).isSome = true ∧ (∀ l : Layout, (l.read? s).isSome = true → l = blanked) ∧
      ([midnight, offsetted, blanked, marked].findSome? fun l => l.read? s) = readDateTime? s := by
  intro s
  have hread : (blanked.read? s).isSome = true := by decide
  obtain ⟨hexclusive, _, horder⟩ := read?_exclusive s
  exact ⟨hread, fun l hl => hexclusive l blanked hl hread, horder _ fun l => by cases l <;> decide⟩

/-- The text of a date-time ends in no blank, whatever its layout. -/
theorem behind_of_read? {l : Layout} (h : l.read? s = some t) : Behind s [] := by
  cases l with
  | marked => exact behind_of_readMarked? h
  | blanked => exact behind_of_readBlanked? h
  | offsetted => exact behind_of_readOffsetted? h
  | midnight =>
    obtain ⟨d, hd, _⟩ := Option.map_eq_some_iff.1 h
    exact behind_of_readDate? hd

/-- A date-time is read in the same layout without the blanks in front of it. -/
theorem read?_skipBlanks {l : Layout} (h : l.read? s = some t) : l.read? (skipBlanks s) = some t := by
  cases l with
  | marked => exact (readMarked?_skipBlanks s).trans h
  | blanked => exact (readBlanked?_skipBlanks s).trans h
  | offsetted => rwa [(of_readOffsetted? h).1]
  | midnight =>
    rw [read?, readMidnight?, readDate?_skipBlanks]
    exact h

end Layout

/-- A text that is read as a date-time is read as the same date-time after trimming. -/
theorem readDateTime?_trimBlanks (h : readDateTime? s = some t) :
    readDateTime? (trimBlanks s) = some t := by
  obtain ⟨l, hl⟩ := Layout.readDateTime?_eq_some_iff.1 h
  rw [Text.trimBlanks_of_behind (Layout.behind_of_read? hl)]
  exact Layout.readDateTime?_eq_some_iff.2 ⟨l, Layout.read?_skipBlanks hl⟩

end TableQuery.Calendar
