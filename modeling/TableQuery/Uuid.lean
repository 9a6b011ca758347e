import TableQuery.Text.Ascii

/-!
# Universally unique identifiers

Thirty-two hexadecimal digits, written in lower case in groups of 8, 4, 4, 4 and 12 with hyphens
between. They are read in either case, with the hyphens or without any; the hyphenated form may also
stand in braces or after `urn:uuid:`.
-/

namespace TableQuery

/-- An identifier of 128 bits. -/
structure Uuid where
  digits : List (Fin 16)
  length_digits : digits.length = 32
  deriving DecidableEq

namespace Uuid

/-- Identifiers are ordered by their digits from the left. -/
def compare (a b : Uuid) : Ordering := Ord.compare a.digits b.digits

/-- The sizes of the written groups. -/
def groups : List Nat := [8, 4, 4, 4, 12]

/-- The identifier with the given digits, when there are thirty-two. -/
def ofDigits? (digits : List (Fin 16)) : Option Uuid :=
  if h : digits.length = 32 then some ⟨digits, h⟩ else none

/-- Lower-case digits in groups with hyphens between. -/
def write (u : Uuid) : List Char :=
  let s := u.digits.map Text.hexChar
  s.take 8 ++ '-' :: (s.drop 8).take 4 ++ '-' :: (s.drop 12).take 4 ++ '-' :: (s.drop 16).take 4
    ++ '-' :: s.drop 20

/-- Read digits without hyphens. -/
def readPlain? (s : List Char) : Option Uuid := (s.mapM Text.hexDigit?).bind ofDigits?

/-- Read the groups with hyphens between. -/
def readGrouped? (s : List Char) : Option Uuid :=
  let parts := s.splitOn '-'
  if parts.map List.length = groups then readPlain? parts.flatten else none

/-- Read the groups inside braces. -/
def readBraced? : List Char → Option Uuid
  | '{' :: rest => if rest.getLast? = some '}' then readGrouped? rest.dropLast else none
  | _ => none

/-- Read the groups after `urn:uuid:`, in any case. -/
def readUrn? (s : List Char) : Option Uuid :=
  if (s.take 9).map Text.foldChar = "urn:uuid:".toList then readGrouped? (s.drop 9) else none

/-- Read an identifier in any of the four forms. -/
def read? (s : List Char) : Option Uuid :=
  readPlain? s <|> readGrouped? s <|> readBraced? s <|> readUrn? s

end Uuid

end TableQuery
