import TableQuery.Decimal.Binary64
import TableQuery.Decimal.Digits

/-!
# Shortest decimal text

The fewest decimal digits that read back as the same datum, and of those the nearest. A datum is
read back from every number of the interval between the midpoints to its neighbours, ends included
when its magnitude is even. The digits are laid out in two ways: the JSON layout always shows a
point or an exponent, the plain layout never shows an exponent.
-/

namespace TableQuery

/-- Which of two equally near decimals is taken. -/
inductive Tie where
  | toEven
  | up
  deriving DecidableEq

namespace Binary64

/-- The interval of a positive finite datum in quarters of the unit: its ends, the datum between
them, and whether the ends belong to it. -/
structure ReadBack where
  low : Nat
  middle : Nat
  high : Nat
  closed : Bool

/-- The numbers that read back as a positive finite datum. The gap below a power of two is half the
gap above it. -/
def readBack (x : Binary64) : ReadBack :=
  let exponent := x.magnitude / fractionBound
  let step := Nat.pow 2 (exponent - 1)
  let below := if x.magnitude % fractionBound = 0 ∧ 1 < exponent then step else 2 * step
  ⟨4 * x.units - below, 4 * x.units, 4 * x.units + 2 * step, x.magnitude % 2 = 0⟩

/-- Whether `num / den` reads back. -/
def ReadBack.contains (r : ReadBack) (num den : Nat) : Bool :=
  if r.closed then r.low * den ≤ num && num ≤ r.high * den
  else r.low * den < num && num < r.high * den

/-- Of the two neighbours of the datum on the grid of multiples of `10 ^ exponent`, the one that
reads back, the nearer one when both do. -/
def ReadBack.onGrid (r : ReadBack) (tie : Tie) (exponent : Int) : Option Nat :=
  -- With `unit = scale / den` for one grid step, `middle = num / den` grid steps.
  let scale := Nat.pow 10 exponent.toNat * (4 * unitsInOne)
  let den := Nat.pow 10 (-exponent).toNat
  let num := r.middle * den
  let lower := num / scale
  let twice := 2 * (num % scale)
  let lowerFirst := twice < scale ∨ (twice = scale ∧ tie = .toEven ∧ lower % 2 = 0)
  let reads (n : Nat) : Bool := r.contains (n * scale) den
  let candidates := if lowerFirst then [lower, lower + 1] else [lower + 1, lower]
  candidates.find? reads

/-- The exponent of the leading digit of a positive finite datum. -/
def ReadBack.leading (r : ReadBack) : Int :=
  let one := 4 * unitsInOne
  if one ≤ r.middle then (Decimal.writeNat (r.middle / one)).length - 1
  else -(Decimal.writeNat ((one - 1) / r.middle)).length

/-- What is found on the first of the grids of `count` digits and more on which something is found, and
the exponent of this grid. At most `fuel` grids are searched. -/
def firstGrid (onGrid : Int → Option Nat) (leading : Int) : Nat → Nat → Nat × Int
  | 0, count => (0, -(count : Int))
  | fuel + 1, count =>
    let exponent := leading - count
    match onGrid exponent with
    | some digits => (digits, exponent)
    | none => firstGrid onGrid leading fuel (count + 1)

/-- Search the grids of `count` digits and more, at most `fuel` of them. -/
def ReadBack.search (r : ReadBack) (tie : Tie) (fuel count : Nat) : Nat × Int :=
  firstGrid (r.onGrid tie) r.leading fuel count

/-- The shortest digits of a positive finite datum, without trailing zeros, and the number of
places before the point. Seventeen digits always suffice. -/
def shortest (x : Binary64) (tie : Tie) : List Char × Int :=
  let found := x.readBack.search tie 17 0
  let written := Decimal.writeNat found.1
  ((written.reverse.dropWhile (· = '0')).reverse, written.length + found.2)

/-- Digits with a point after `places` of them; `whole` follows when nothing stands after it. -/
def layPoint (digits : List Char) (places : Int) (whole : List Char) : List Char :=
  if places ≤ 0 then '0' :: '.' :: (List.replicate (-places).toNat '0' ++ digits)
  else if digits.length ≤ places then
    digits ++ List.replicate (places.toNat - digits.length) '0' ++ whole
  else digits.take places.toNat ++ '.' :: digits.drop places.toNat

/-- Digits with a point after the first of them, and a signed power of ten. -/
def layExponent (digits : List Char) (exponent : Int) : List Char :=
  let mantissa := match digits with
    | [] => []
    | [d] => [d]
    | d :: rest => d :: '.' :: rest
  let sign := if exponent < 0 then '-' else '+'
  mantissa ++ 'e' :: sign :: Decimal.writeNat exponent.natAbs

/-- Write a minus sign before the text of a negative datum. -/
def signed (x : Binary64) (text : List Char) : List Char := if x.negative then '-' :: text else text

/-- The JSON layout of a finite datum: positional from `10 ^ -5` to below `10 ^ 16`. -/
def jsonText (x : Binary64) : List Char :=
  x.signed <|
    if x.magnitude = 0 then ['0', '.', '0']
    else
      let (digits, places) := x.shortest .toEven
      if -5 < places ∧ places ≤ 16 then layPoint digits places ['.', '0']
      else layExponent digits (places - 1)

/-- The plain layout: positional always, and words for what is not finite. -/
def plainText (x : Binary64) : List Char :=
  if x.isNan then ['N', 'a', 'N']
  else x.signed <|
    if x.magnitude = 0 then ['0']
    else if !x.isFinite then ['i', 'n', 'f']
    else
      let (digits, places) := x.shortest .up
      layPoint digits places []

end Binary64

end TableQuery
