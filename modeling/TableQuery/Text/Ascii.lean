/-!
# ASCII letters and digits

Hexadecimal digits with their values, and the folding of `A`–`Z` to `a`–`z`. Characters outside
ASCII are never folded and are never digits.
-/

namespace TableQuery.Text

/-- The value of a hexadecimal digit in either case. -/
def hexDigit? (c : Char) : Option (Fin 16) :=
  if '0' ≤ c ∧ c ≤ '9' then some (Fin.ofNat 16 (c.toNat - '0'.toNat))
  else if 'a' ≤ c ∧ c ≤ 'f' then some (Fin.ofNat 16 (c.toNat - 'a'.toNat + 10))
  else if 'A' ≤ c ∧ c ≤ 'F' then some (Fin.ofNat 16 (c.toNat - 'A'.toNat + 10))
  else none

/-- The lower-case hexadecimal digit of a value. -/
def hexChar (d : Fin 16) : Char := Nat.digitChar d.val

/-- An ASCII capital becomes the small letter; every other character stays. -/
def foldChar (c : Char) : Char := c.toLower

/-- A text with its ASCII capitals folded. -/
def foldCase (s : String) : String := String.ofList (s.toList.map foldChar)

/-- A hexadecimal digit reads back as its value. -/
theorem hexDigit?_hexChar (d : Fin 16) : hexDigit? (hexChar d) = some d := by
  revert d; decide

end TableQuery.Text
