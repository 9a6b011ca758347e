/-!
# Blank characters

The characters with the Unicode property White_Space, and cutting them off the ends of a text.
Values, limits, sort entries and comma-separated entries are read after such a cut.
-/

namespace TableQuery.Text

/-- The first and the last code point of each run of White_Space characters. -/
def blankRuns : List (Nat × Nat) :=
  [(0x09, 0x0D), (0x20, 0x20), (0x85, 0x85), (0xA0, 0xA0), (0x1680, 0x1680), (0x2000, 0x200A),
    (0x2028, 0x2029), (0x202F, 0x202F), (0x205F, 0x205F), (0x3000, 0x3000)]

/-- A character is blank when its code point lies in one of the runs. -/
def isBlank (c : Char) : Bool := blankRuns.any fun run => run.1 ≤ c.toNat && c.toNat ≤ run.2

/-- Drop the blanks at the front. -/
def skipBlanks (s : List Char) : List Char := s.dropWhile isBlank

/-- Drop the blanks at both ends. -/
def trimBlanks (s : List Char) : List Char := (skipBlanks (skipBlanks s).reverse).reverse

/-- What remains after skipping blanks is empty or starts with a character that is not blank. -/
theorem skipBlanks_eq_nil_or (s : List Char) :
    skipBlanks s = [] ∨ ∃ c rest, skipBlanks s = c :: rest ∧ isBlank c = false := by
  induction s with
  | nil => exact Or.inl rfl
  | cons c rest ih =>
    cases hc : isBlank c with
    | true => simpa only [skipBlanks, List.dropWhile_cons, hc, if_true] using ih
    | false => exact Or.inr ⟨c, rest, by simp [skipBlanks, hc], hc⟩

end TableQuery.Text
