/-!
# Whole numbers as digits

Writing whole numbers in decimal and reading them back. A reader takes the whole text: at least one
ASCII digit, after a sign where signs are allowed. Leading zeros are allowed.
-/

namespace TableQuery.Decimal

/-- The decimal digits of a number, without leading zeros. -/
def writeNat (n : Nat) : List Char := Nat.toDigits 10 n

/-- The decimal digits of an integer, after a minus sign when it is negative. -/
def writeInt (n : Int) : List Char := if n < 0 then '-' :: writeNat n.natAbs else writeNat n.natAbs

/-- The number that a run of digits denotes. -/
def digitsValue (s : List Char) : Nat := Nat.ofDigitChars 10 s 0

/-- Read digits. -/
def readDigits? (s : List Char) : Option Nat :=
  if s ≠ [] ∧ s.all Char.isDigit then some (digitsValue s) else none

/-- Read digits after an optional plus sign. -/
def readNat? : List Char → Option Nat
  | '+' :: rest => readDigits? rest
  | s => readDigits? s

/-- Read digits after an optional sign. -/
def readInt? : List Char → Option Int
  | '-' :: rest => (readDigits? rest).map fun n => -(n : Int)
  | s => (readNat? s).map Int.ofNat

/-- The first number that does not fit 64 bits. -/
def wordBound : Nat := 0x10000000000000000

/-- Read a number of 64 bits. -/
def readWord? (s : List Char) : Option Nat := (readNat? s).filter (· < wordBound)

/-- The 64-bit integer of a value, when it is in range. -/
def toInt64? (n : Int) : Option Int64 :=
  if -0x8000000000000000 ≤ n ∧ n < 0x8000000000000000 then some (Int64.ofInt n) else none

/-- Read an integer that fits 64 bits with a sign. -/
def readInt64? (s : List Char) : Option Int64 := (readInt? s).bind toInt64?

/-- The digits of a number read back as the number. -/
theorem digitsValue_writeNat (n : Nat) : digitsValue (writeNat n) = n :=
  Nat.ofDigitChars_toDigits (by decide) (by decide)

/-- A number has at least one digit. -/
theorem writeNat_ne_nil (n : Nat) : writeNat n ≠ [] := by
  simp [writeNat]

/-- A number is written in digits. -/
theorem isDigit_of_mem_writeNat {n : Nat} {c : Char} (h : c ∈ writeNat n) : c.isDigit = true :=
  Nat.isDigit_of_mem_toDigits (b := 10) (by decide) (by decide) h

/-- Writing then reading a number gives it back. -/
theorem readDigits?_writeNat (n : Nat) : readDigits? (writeNat n) = some n := by
  have h : (writeNat n).all Char.isDigit = true :=
    List.all_eq_true.2 fun _ hc => isDigit_of_mem_writeNat hc
  simp [readDigits?, writeNat_ne_nil, h, digitsValue_writeNat]

end TableQuery.Decimal
