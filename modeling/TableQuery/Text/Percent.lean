import TableQuery.Text.Ascii
import TableQuery.Text.Split
import TableQuery.Text.Utf8

/-!
# Percent encoding

`%` and two hexadecimal digits stand for one byte; any other `%` stands for itself. Query texts
are decoded with replacement of ill-formed bytes, path segments only when they are well formed.
-/

namespace TableQuery.Text

/-- The value of a byte that is a hexadecimal digit. -/
def hexByte? (b : UInt8) : Option (Fin 16) := hexDigit? (Char.ofNat b.toNat)

/-- The byte that two hexadecimal digits after a `%` name. -/
def percentByte? (high low : UInt8) : Option UInt8 := do
  let high ← hexByte? high
  let low ← hexByte? low
  pure (UInt8.ofNat (high.val * 16 + low.val))

/-- Replace every percent triplet by the byte it names. -/
def percentDecode : List UInt8 → List UInt8
  | b0 :: b1 :: b2 :: rest =>
    if b0 = 0x25 then
      match percentByte? b1 b2 with
      | some b => b :: percentDecode rest
      | none => b0 :: percentDecode (b1 :: b2 :: rest)
    else b0 :: percentDecode (b1 :: b2 :: rest)
  | bytes => bytes

/-- One name or value of a form: `+` is a blank, triplets are decoded, faults are replaced. -/
def formDecode (s : List Char) : String :=
  let bytes := (utf8Bytes s).map fun b => if b = 0x2B then 0x20 else b
  String.ofList (utf8Replaced (percentDecode bytes))

/-- The pairs of an `application/x-www-form-urlencoded` text: cut at `&`, empty pieces dropped,
each piece cut at its first `=`. -/
def formPairs (query : String) : List (String × String) :=
  let pieces := (query.toList.splitOn '&').filter fun piece => !piece.isEmpty
  pieces.map fun piece =>
    match cut '=' piece with
    | some (name, value) => (formDecode name, formDecode value)
    | none => (formDecode piece, "")

/-- One segment of a path, when its bytes are well-formed UTF-8. -/
def segmentDecode? (s : List Char) : Option String :=
  (utf8Strict (percentDecode (utf8Bytes s))).map String.ofList

end TableQuery.Text
