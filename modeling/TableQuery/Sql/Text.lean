import TableQuery.Calendar.Text
import TableQuery.Decimal.Shortest
import TableQuery.Sql.Statement

/-!
# SQL text

A statement is written once, as pieces of text with holes for the bound values. From the pieces come
the text with placeholders, the values that go with it, and the text with the values written in.
Dialects differ in the quotes of names, the placeholders, one function and the escapes in strings.
-/

namespace TableQuery.Sql

/-- A database whose SQL is written. -/
inductive Dialect where
  | sqlite
  | mysql
  | postgres
  deriving DecidableEq

/-- A part of a written statement. -/
inductive Piece where
  | text (s : String)
  | hole (b : Bound)
  deriving DecidableEq

namespace Dialect

/-- The character around names. -/
def nameQuote : Dialect → Char
  | mysql => '\x60'
  | sqlite | postgres => '"'

/-- The function that finds a text in another. -/
def positionName : Dialect → String
  | postgres => "strpos"
  | sqlite | mysql => "instr"

/-- A name in quotes; quotes inside it are doubled. -/
def quoteName (d : Dialect) (name : String) : String :=
  let q := d.nameQuote
  String.ofList (q :: (name.toList.flatMap fun c => if c = q then [q, q] else [c]) ++ [q])

end Dialect

/-- The sign of a comparison. -/
def Comparison.sign : Comparison → String
  | greater => " > "
  | greaterOrEqual => " >= "
  | less => " < "
  | lessOrEqual => " <= "
  | equal => " = "
  | notEqual => " <> "

/-- The word of a junction. -/
def Junction.word : Junction → String
  | and => " AND "
  | or => " OR "

/-- Pieces with a text between each two. -/
def separate (separator : String) : List (List Piece) → List Piece
  | [] => []
  | [only] => only
  | first :: rest => first ++ .text separator :: separate separator rest

/-- The pieces of a term. -/
def Term.pieces (d : Dialect) : Term → List Piece
  | column name => [.text (d.quoteName name)]
  | bound b => [.hole b]
  | lower t => .text "LOWER(" :: t.pieces d ++ [.text ")"]
  | position within wanted =>
    .text d.positionName :: .text "(" :: within.pieces d ++ .text ", " :: wanted.pieces d
      ++ [.text ")"]

namespace Expression

/-- Whether an operand of a junction needs parentheses: it does when it is a junction itself, unless
it is the left operand of the same junction. -/
def needsParentheses (outer : Junction) (isLeft : Bool) : Expression → Bool
  | join inner _ _ => !(isLeft && inner = outer)
  | _ => false

/-- Pieces in parentheses when needed. -/
def enclose (needed : Bool) (pieces : List Piece) : List Piece :=
  if needed then .text "(" :: pieces ++ [.text ")"] else pieces

/-- The pieces of an expression. -/
def pieces (d : Dialect) : Expression → List Piece
  | constant truth => [.text (if truth then "TRUE" else "FALSE")]
  | compare op left right => left.pieces d ++ .text op.sign :: right.pieces d
  | isIn t values negated =>
    t.pieces d ++ .text (if negated then " NOT IN (" else " IN (")
      :: separate ", " (values.map fun v => [.hole v]) ++ [.text ")"]
  | join junction left right =>
    enclose (needsParentheses junction true left) (pieces d left) ++ .text junction.word
      :: enclose (needsParentheses junction false right) (pieces d right)

end Expression

namespace Statement

/-- The pieces of what a statement returns. -/
def outputPieces (d : Dialect) : Output → List Piece
  | .columns names => separate ", " (names.map fun name => [.text (d.quoteName name)])
  | .count => [.text "COUNT(*) AS ", .text (d.quoteName "count")]

/-- The pieces of an order. -/
def orderPieces (d : Dialect) : List SortKey → List Piece
  | [] => []
  | keys => .text " ORDER BY " :: separate ", " (keys.map fun key =>
      [.text (d.quoteName key.column), .text " ", .text key.direction.literal])

/-- A word and a number, when there is one. -/
def wordPieces (word : String) : Option Nat → List Piece
  | none => []
  | some n => [.text word, .hole (.word n)]

/-- The pieces of a condition, when there is one. -/
def conditionPieces (d : Dialect) : Option Expression → List Piece
  | none => []
  | some e => .text " WHERE " :: e.pieces d

/-- The pieces of a statement. -/
def pieces (d : Dialect) (s : Statement) : List Piece :=
  .text "SELECT " :: outputPieces d s.output ++ .text " FROM " :: .text (d.quoteName s.table)
    :: conditionPieces d s.condition ++ orderPieces d s.order
    ++ wordPieces " LIMIT " s.limit ++ wordPieces " OFFSET " s.offset

end Statement

/-! ## Text with placeholders -/

/-- The placeholder of the value with a number; only Postgres counts its placeholders. -/
def Dialect.placeholder : Dialect → Nat → String
  | postgres, n => String.ofList ('$' :: Decimal.writeNat n)
  | _, _ => "?"

/-- The texts of pieces with placeholders, which are counted from `next`. -/
def placeholderTexts (d : Dialect) (next : Nat) : List Piece → List String
  | [] => []
  | .text s :: rest => s :: placeholderTexts d next rest
  | .hole _ :: rest => d.placeholder next :: placeholderTexts d (next + 1) rest

/-- The bound values of pieces, in order. -/
def boundValues : List Piece → List Bound
  | [] => []
  | .text _ :: rest => boundValues rest
  | .hole b :: rest => b :: boundValues rest

/-- The text of a statement with placeholders. -/
def Statement.placeholderText (d : Dialect) (s : Statement) : String :=
  String.join (placeholderTexts d 1 (s.pieces d))

/-- The bound values of a statement; they do not depend on the dialect. -/
def Statement.values (s : Statement) : List Bound := boundValues (s.pieces .sqlite)

/-! ## Text with the values written in -/

/-- A character in a string that is escaped by backslashes. -/
def escapeChar (c : Char) : List Char :=
  if c = '\\' ∨ c = '"' ∨ c = '\x27' then ['\\', c]
  else if c = Char.ofNat 0x00 then ['\\', '0']
  else if c = Char.ofNat 0x08 then ['\\', 'b']
  else if c = '\t' then ['\\', 't']
  else if c = Char.ofNat 0x1A then ['\\', 'z']
  else if c = '\n' then ['\\', 'n']
  else if c = '\r' then ['\\', 'r']
  else [c]

/-- A character in a string in which quotes are doubled. -/
def doubleQuote (c : Char) : List Char := if c = '\x27' then ['\x27', '\x27'] else [c]

/-- Characters in single quotes. -/
def inQuotes (s : List Char) : List Char := '\x27' :: s ++ ['\x27']

/-- A text as a string of a dialect. SQLite doubles quotes and the others escape; Postgres marks a
string that has escapes. -/
def Dialect.quoteText (d : Dialect) (s : String) : List Char :=
  match d with
  | sqlite => inQuotes (s.toList.flatMap doubleQuote)
  | mysql => inQuotes (s.toList.flatMap escapeChar)
  | postgres =>
    let escaped := s.toList.flatMap escapeChar
    if '\\' ∈ escaped then 'E' :: inQuotes escaped else inQuotes escaped

/-- A value written into a statement. -/
def Dialect.writeValue (d : Dialect) : Value → List Char
  | .integer n => Decimal.writeInt n.toInt
  | .float x => x.plainText
  | .text s => d.quoteText s
  | .boolean b => (if b then "TRUE" else "FALSE").toList
  | .date date => inQuotes (Calendar.writeDate date)
  | .dateTime t => inQuotes (Calendar.writeMicroseconds t)
  | .uuid u => inQuotes u.write

/-- A bound value written into a statement. -/
def Dialect.writeBound (d : Dialect) : Bound → String
  | .number n => String.ofList (Decimal.writeNat n)
  | .word n => String.ofList (Decimal.writeNat n)
  | .value v => String.ofList (d.writeValue v)

/-- A piece with its value written in. -/
def Dialect.writePiece (d : Dialect) : Piece → String
  | .text s => s
  | .hole b => d.writeBound b

/-- The text of a statement with the values written in. -/
def Statement.inlineText (d : Dialect) (s : Statement) : String :=
  String.join ((s.pieces d).map d.writePiece)

end TableQuery.Sql
