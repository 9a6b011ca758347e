/-!
# UTF-8

Writing characters as bytes, and reading bytes with a mark in place of every maximal ill-formed
prefix: the longest start of a well-formed sequence counts as one fault, any other byte by itself.
-/

namespace TableQuery.Text

/-- The bytes of a text. -/
def utf8Bytes (s : List Char) : List UInt8 := s.flatMap String.utf8EncodeChar

/-- The range of the second byte and the number of bytes after the first, by the first byte. -/
def utf8Lead (b : UInt8) : Option (UInt8 × UInt8 × Nat) :=
  if 0xC2 ≤ b ∧ b ≤ 0xDF then some (0x80, 0xBF, 1)
  else if b = 0xE0 then some (0xA0, 0xBF, 2)
  else if b = 0xED then some (0x80, 0x9F, 2)
  else if 0xE1 ≤ b ∧ b ≤ 0xEF then some (0x80, 0xBF, 2)
  else if b = 0xF0 then some (0x90, 0xBF, 3)
  else if 0xF1 ≤ b ∧ b ≤ 0xF3 then some (0x80, 0xBF, 3)
  else if b = 0xF4 then some (0x80, 0x8F, 3)
  else none

/-- Whether a byte lies between two others. -/
def byteIn (low high b : UInt8) : Bool := low ≤ b && b ≤ high

/-- The six low bits that a continuation byte carries. -/
def tailBits (b : UInt8) : Nat := b.toNat % 64

/-- The characters of a byte sequence, `none` standing for each maximal ill-formed prefix. -/
def utf8Chars : List UInt8 → List (Option Char)
  | [] => []
  | b0 :: r0 =>
    if b0 < 0x80 then some (Char.ofNat b0.toNat) :: utf8Chars r0
    else match utf8Lead b0 with
      | none => none :: utf8Chars r0
      | some (low, high, count) =>
        match r0 with
        | [] => [none]
        | b1 :: r1 =>
          if !byteIn low high b1 then none :: utf8Chars (b1 :: r1)
          else if count = 1 then
            some (Char.ofNat (b0.toNat % 32 * 64 + tailBits b1)) :: utf8Chars r1
          else match r1 with
            | [] => [none]
            | b2 :: r2 =>
              if !byteIn 0x80 0xBF b2 then none :: utf8Chars (b2 :: r2)
              else if count = 2 then
                some (Char.ofNat ((b0.toNat % 16 * 64 + tailBits b1) * 64 + tailBits b2)) ::
                  utf8Chars r2
              else match r2 with
                | [] => [none]
                | b3 :: r3 =>
                  if !byteIn 0x80 0xBF b3 then none :: utf8Chars (b3 :: r3)
                  else
                    some (Char.ofNat (((b0.toNat % 8 * 64 + tailBits b1) * 64 + tailBits b2) * 64
                      + tailBits b3)) :: utf8Chars r3

/-- The characters of a byte sequence, with U+FFFD for each ill-formed prefix. -/
def utf8Replaced (bytes : List UInt8) : List Char :=
  (utf8Chars bytes).map fun c => c.getD (Char.ofNat 0xFFFD)

/-- The characters of a well-formed byte sequence. -/
def utf8Strict (bytes : List UInt8) : Option (List Char) := (utf8Chars bytes).mapM id

end TableQuery.Text
