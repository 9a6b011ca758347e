/-!
# Binary floating point of 64 bits

A sign and a magnitude: the other 63 bits read as a number. The magnitude orders the absolute
values, the infinity lies above every finite one and the NaNs above the infinity, so comparing is
comparing signed magnitudes. Values are measured in units of the least positive one, `2 ^ -1074`.
-/

namespace TableQuery

/-- A 64-bit floating-point datum, NaN payloads included. -/
structure Binary64 where
  negative : Bool
  magnitude : Nat
  magnitude_lt : magnitude < 0x8000000000000000
  deriving DecidableEq

namespace Binary64

/-- The number of fractions that share an exponent. -/
def fractionBound : Nat := 0x10000000000000

/-- The magnitude of the infinities: the largest exponent and no fraction. -/
def infinityMagnitude : Nat := 0x7FF0000000000000

/-- The number of units in one. -/
def unitsInOne : Nat := Nat.pow 2 1074

/-- The datum with the given 64 bits. -/
def ofBits (bits : Nat) : Binary64 :=
  ⟨decide (0x8000000000000000 ≤ bits % 0x10000000000000000), bits % 0x8000000000000000,
    Nat.mod_lt _ (by decide)⟩

/-- The 64 bits of a datum. -/
def bits (x : Binary64) : Nat :=
  if x.negative then 0x8000000000000000 + x.magnitude else x.magnitude

/-- Whether a datum denotes no number. -/
def isNan (x : Binary64) : Bool := infinityMagnitude < x.magnitude

/-- Whether a datum denotes a real number. -/
def isFinite (x : Binary64) : Bool := x.magnitude < infinityMagnitude

/-- The signed magnitude; both zeros have key 0. -/
def key (x : Binary64) : Int := if x.negative then -(x.magnitude : Int) else x.magnitude

/-- The order of the denoted numbers; a NaN is comparable with nothing. -/
def compare? (x y : Binary64) : Option Ordering :=
  if x.isNan || y.isNan then none else some (compare x.key y.key)

/-- The denoted absolute value in units. -/
def units (x : Binary64) : Nat :=
  let exponent := x.magnitude / fractionBound
  let fraction := x.magnitude % fractionBound
  if exponent = 0 then fraction else (fractionBound + fraction) * Nat.pow 2 (exponent - 1)

/-- The denoted number in units. -/
def signedUnits (x : Binary64) : Int := if x.negative then -(x.units : Int) else x.units

/-- A quotient rounded to the nearest whole number, halves to the even neighbour. -/
def roundQuotient (num den : Nat) : Nat :=
  let quotient := num / den
  let twice := 2 * (num % den)
  if twice < den ∨ (twice = den ∧ quotient % 2 = 0) then quotient else quotient + 1

/-- The magnitude nearest to `num / den`: 53 significant bits, fewer below `2 ^ -1022`, and the
infinity from halfway past the largest finite number on. -/
def nearestMagnitude (num den : Nat) : Nat :=
  let scaled := num * unitsInOne
  let exponent := (scaled / den).log2 - 52
  min (exponent * fractionBound + roundQuotient scaled (den * Nat.pow 2 exponent)) infinityMagnitude

/-- The datum nearest to `num / den`, with a sign. -/
def nearest (negative : Bool) (num den : Nat) : Binary64 :=
  ⟨negative, nearestMagnitude num den, Nat.lt_of_le_of_lt (Nat.min_le_right _ _) (by decide)⟩

/-- The datum nearest to an integer. -/
def ofInt (n : Int) : Binary64 := nearest (n < 0) n.natAbs 1

/-- The zero with a sign. -/
def zero (negative : Bool) : Binary64 := ⟨negative, 0, by decide⟩

/-- The infinity with a sign. -/
def infinity (negative : Bool) : Binary64 := ⟨negative, infinityMagnitude, by decide⟩

/-- A finite datum is comparable with itself, as equal. -/
theorem compare?_self {x : Binary64} (h : x.isFinite = true) : x.compare? x = some .eq := by
  have hle : ¬ infinityMagnitude < x.magnitude := by
    have : x.magnitude < infinityMagnitude := by simpa [isFinite] using h
    omega
  simp [compare?, isNan, hle]

end Binary64

end TableQuery
