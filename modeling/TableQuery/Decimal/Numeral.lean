import TableQuery.Decimal.Binary64
import TableQuery.Decimal.Digits

/-!
# Decimal numerals

A numeral is a sign, digits and a power of ten. Numerals are read with an optional sign, digits with
an optional point on either side of them, and an optional exponent; their value is the nearest
floating-point datum.
-/

namespace TableQuery

/-- The number `digits * 10 ^ exponent`, negated when `negative`. -/
structure Numeral where
  negative : Bool
  digits : Nat
  exponent : Int
  deriving DecidableEq

namespace Numeral

/-- The nearest datum. Numbers of at least `10 ^ 400` are infinite and those below `10 ^ -400` are
zero, which keeps the powers of ten small. -/
def toBinary64 (n : Numeral) : Binary64 :=
  let leading : Int := (Decimal.writeNat n.digits).length + n.exponent
  if n.digits = 0 ∨ leading < -400 then .zero n.negative
  else if 400 < leading then .infinity n.negative
  else if 0 ≤ n.exponent then .nearest n.negative (n.digits * Nat.pow 10 n.exponent.toNat) 1
  else .nearest n.negative n.digits (Nat.pow 10 (-n.exponent).toNat)

/-- Split off the leading digits. -/
def spanDigits (s : List Char) : List Char × List Char :=
  (s.takeWhile Char.isDigit, s.dropWhile Char.isDigit)

/-- Read a nothing, or an exponent mark with a whole number after it. -/
def readExponent? : List Char → Option Int
  | [] => some 0
  | c :: rest => if c = 'e' ∨ c = 'E' then Decimal.readInt? rest else none

/-- Read a numeral without a sign: at least one digit on one side of the point. -/
def readUnsigned? (negative : Bool) (s : List Char) : Option Numeral :=
  let (whole, rest) := spanDigits s
  let (fraction, rest) := match rest with
    | '.' :: rest => spanDigits rest
    | rest => ([], rest)
  if whole = [] ∧ fraction = [] then none
  else (readExponent? rest).map fun exponent =>
    ⟨negative, Decimal.digitsValue (whole ++ fraction), exponent - fraction.length⟩

/-- Read a numeral with an optional sign. -/
def read? : List Char → Option Numeral
  | '-' :: rest => readUnsigned? true rest
  | '+' :: rest => readUnsigned? false rest
  | s => readUnsigned? false s

end Numeral

end TableQuery
