import TableQuery.Decimal.Numeral
import TableQuery.Json.Basic
import TableQuery.Text.Ascii

/-!
# Reading JSON text

Standard JSON with any blanks between the tokens. A number without point and exponent is an integer
when it lies from `-2 ^ 63` to below `2 ^ 64` and is not `-0`; every other number is the nearest
floating-point datum. A name that occurs twice in an object keeps its first place and its last
value.
-/

namespace TableQuery.Json

/-- Drop blanks: space, tab, line feed and carriage return. -/
def skipSpace (s : List Char) : List Char :=
  s.dropWhile fun c => c = ' ' || c = '\t' || c = '\n' || c = '\r'

/-- The number that four hexadecimal digits denote. -/
def unit? (a b c d : Char) : Option Nat := do
  let a ← Text.hexDigit? a
  let b ← Text.hexDigit? b
  let c ← Text.hexDigit? c
  let d ← Text.hexDigit? d
  pure (((a.val * 16 + b.val) * 16 + c.val) * 16 + d.val)

/-- The character that a backslash and a letter stand for. -/
def unescape? (c : Char) : Option Char :=
  if c = '"' ∨ c = '\\' ∨ c = '/' then some c
  else if c = 'b' then some (Char.ofNat 0x08)
  else if c = 'f' then some (Char.ofNat 0x0C)
  else if c = 'n' then some '\n'
  else if c = 'r' then some '\r'
  else if c = 't' then some '\t'
  else none

/-- Read the rest of a string up to its closing quote. A high surrogate needs a low one after it. -/
def readString? : List Char → Option (List Char × List Char)
  | [] => none
  | '"' :: rest => some ([], rest)
  | '\\' :: 'u' :: a :: b :: c :: d :: rest => do
    let high ← unit? a b c d
    if 0xD800 ≤ high ∧ high < 0xDC00 then
      match rest with
      | '\\' :: 'u' :: e :: f :: g :: h :: rest => do
        let low ← unit? e f g h
        if 0xDC00 ≤ low ∧ low < 0xE000 then
          let (chars, rest) ← readString? rest
          some (Char.ofNat (0x10000 + (high - 0xD800) * 0x400 + (low - 0xDC00)) :: chars, rest)
        else none
      | _ => none
    else if 0xDC00 ≤ high ∧ high < 0xE000 then none
    else
      let (chars, rest) ← readString? rest
      some (Char.ofNat high :: chars, rest)
  | '\\' :: c :: rest => do
    let c ← unescape? c
    let (chars, rest) ← readString? rest
    some (c :: chars, rest)
  | c :: rest =>
    if c.toNat < 0x20 ∨ c = '\\' then none
    else do
      let (chars, rest) ← readString? rest
      some (c :: chars, rest)

/-- Whether a text is a number as JSON writes it: no plus sign and no superfluous zero in front, and
digits on both sides of a point. -/
def isNumber (s : List Char) : Bool :=
  let unsigned := match s with
    | '-' :: rest => rest
    | s => s
  let (whole, rest) := Numeral.spanDigits unsigned
  let fraction := match rest with
    | '.' :: rest => !(Numeral.spanDigits rest).1.isEmpty
    | _ => true
  !whole.isEmpty && (whole.length = 1 || whole.head? ≠ some '0') && fraction

/-- The value of a whole number token. -/
def ofNumber? (token : List Char) : Option Json :=
  if !isNumber token then none
  else
    let whole := token.all fun c => c.isDigit || c = '-'
    let integer := (Decimal.readInt? token).filter fun (n : Int) =>
      -0x8000000000000000 ≤ n && n < Decimal.wordBound && !(n = 0 && token.head? = some '-')
    match whole, integer with
    | true, some n => some (.int n)
    | _, _ =>
      (Numeral.read? token).bind fun numeral =>
        let x := numeral.toBinary64
        if x.isFinite then some (.float x) else none

/-- Read a number. -/
def readNumber? (s : List Char) : Option (Json × List Char) :=
  let inNumber (c : Char) : Bool :=
    c.isDigit || c = '-' || c = '+' || c = '.' || c = 'e' || c = 'E'
  (ofNumber? (s.takeWhile inNumber)).map fun value => (value, s.dropWhile inNumber)

/-- Read a given word. -/
def readWord? (word : List Char) (value : Json) (s : List Char) : Option (Json × List Char) :=
  if word.isPrefixOf s then some (value, s.drop word.length) else none

mutual

/-- Read a value after blanks; `fuel` bounds the number of nested steps. -/
def readValue? : Nat → List Char → Option (Json × List Char)
  | 0, _ => none
  | fuel + 1, s =>
    match skipSpace s with
    | '"' :: rest => (readString? rest).map fun p => (.str (String.ofList p.1), p.2)
    | '[' :: rest =>
      match skipSpace rest with
      | ']' :: rest => some (.arr [], rest)
      | rest => (readItems? fuel rest).map fun p => (.arr p.1, p.2)
    | '\x7b' :: rest =>
      match skipSpace rest with
      | '\x7d' :: rest => some (.obj [], rest)
      | rest => (readMembers? fuel [] rest).map fun p => (.obj p.1, p.2)
    | 'n' :: rest => readWord? ['u', 'l', 'l'] .null rest
    | 't' :: rest => readWord? ['r', 'u', 'e'] (.bool true) rest
    | 'f' :: rest => readWord? ['a', 'l', 's', 'e'] (.bool false) rest
    | s => readNumber? s

/-- Read the items of an array and its closing bracket. -/
def readItems? : Nat → List Char → Option (List Json × List Char)
  | 0, _ => none
  | fuel + 1, s => do
    let (item, s) ← readValue? fuel s
    match skipSpace s with
    | ',' :: rest =>
      let (items, rest) ← readItems? fuel rest
      some (item :: items, rest)
    | ']' :: rest => some ([item], rest)
    | _ => none

/-- Read the members of an object and its closing brace, adding to those already read. -/
def readMembers? : Nat → List (String × Json) → List Char →
    Option (List (String × Json) × List Char)
  | 0, _, _ => none
  | fuel + 1, members, s =>
    match skipSpace s with
    | '"' :: rest => do
      let (name, rest) ← readString? rest
      match skipSpace rest with
      | ':' :: rest =>
        let (value, rest) ← readValue? fuel rest
        let members := setMember (String.ofList name) value members
        match skipSpace rest with
        | ',' :: rest => readMembers? fuel members rest
        | '\x7d' :: rest => some (members, rest)
        | _ => none
      | _ => none
    | _ => none

end

/-- Read a whole text. A text has fewer nested steps than twice its length. -/
def read? (s : String) : Option Json :=
  match readValue? (2 * s.length + 2) s.toList with
  | some (value, rest) => if skipSpace rest = [] then some value else none
  | none => none

end TableQuery.Json
