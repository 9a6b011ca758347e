import TableQuery.Calendar.Text
import TableQuery.Sql.Statement

/-!
# What conditions mean

The value of a condition on a stored row, in the three-valued logic of SQL: a comparison with null
is unknown, and a row is selected only when the condition is true. Cells are stored the way SQLite
stores them, with dates and date-times as text and identifiers as bytes.
-/

namespace TableQuery.Sql

/-- A stored cell. -/
inductive Stored where
  | null
  | integer (n : Int)
  | real (x : Binary64)
  | text (s : String)
  | blob (u : Uuid)
  deriving DecidableEq

/-- A stored row: cells by column. -/
abbrev StoredRow := List (String × Stored)

namespace Stored

/-- The rank of a storage class: numbers before texts before bytes. -/
def rank : Stored → Nat
  | null => 0
  | integer _ | real _ => 1
  | text _ => 2
  | blob _ => 3

/-- The order of two cells that are not null, and null before everything else. Numbers are compared
exactly. -/
def order : Stored → Stored → Ordering
  | integer a, integer b => compare a b
  | integer a, real b => compare (a * Binary64.unitsInOne) b.signedUnits
  | real a, integer b => compare a.signedUnits (b * Binary64.unitsInOne)
  | real a, real b => compare a.key b.key
  | text a, text b => compare a b
  | blob a, blob b => a.compare b
  | a, b => compare a.rank b.rank

/-- The order of two cells, unknown when one is null. -/
def compare? : Stored → Stored → Option Ordering
  | null, _ => none
  | _, null => none
  | a, b => some (a.order b)

end Stored

/-- A value as it is stored. A number that is none is stored as null. -/
def storeValue : Value → Stored
  | .integer n => .integer n.toInt
  | .float x => if x.isNan then .null else .real x
  | .text s => .text s
  | .boolean b => .integer (if b then 1 else 0)
  | .date d => .text (String.ofList (Calendar.writeDate d))
  | .dateTime t => .text (String.ofList (Calendar.writeDateTime ' ' t))
  | .uuid u => .blob u

/-- A bound value as the database sees it. -/
def Bound.stored : Bound → Stored
  | number n => .integer n
  | word n => .integer n
  | value v => storeValue v

/-- The number of characters before the first occurrence of a text, and one more; 0 when it does
not occur. -/
def positionOf (wanted : List Char) : List Char → Nat
  | [] => if wanted = [] then 1 else 0
  | c :: rest =>
    if wanted.isPrefixOf (c :: rest) then 1
    else
      match positionOf wanted rest with
      | 0 => 0
      | n + 1 => n + 2

/-- The value of a term on a row. Functions of texts are null on null; folding leaves other cells
alone, and nothing is found in them. -/
def Term.eval (row : StoredRow) : Term → Stored
  | column name => (row.lookup name).getD .null
  | bound b => b.stored
  | lower t =>
    match t.eval row with
    | .text s => .text (Text.foldCase s)
    | cell => cell
  | position within wanted =>
    match within.eval row, wanted.eval row with
    | .text s, .text w => .integer (positionOf w.toList s.toList)
    | .null, _ => .null
    | _, .null => .null
    | _, _ => .integer 0

/-- Whether a comparison accepts an order. -/
def Comparison.accepts : Comparison → Ordering → Bool
  | greater, order => order = .gt
  | greaterOrEqual, order => order ≠ .lt
  | less, order => order = .lt
  | lessOrEqual, order => order ≠ .gt
  | equal, order => order = .eq
  | notEqual, order => order ≠ .eq

/-- Conjunction of three truth values: false when one is false, else unknown when one is. -/
def and? : Option Bool → Option Bool → Option Bool
  | some false, _ => some false
  | _, some false => some false
  | some true, some true => some true
  | _, _ => none

/-- Disjunction of three truth values: true when one is true, else unknown when one is. -/
def or? : Option Bool → Option Bool → Option Bool
  | some true, _ => some true
  | _, some true => some true
  | some false, some false => some false
  | _, _ => none

/-- Whether a cell equals one of several: the disjunction of the comparisons. -/
def isIn? (cell : Stored) (cells : List Stored) : Option Bool :=
  cells.foldr (fun c rest => or? ((cell.compare? c).map fun order => order = .eq) rest) (some false)

/-- The truth of an expression on a row. -/
def Expression.eval (row : StoredRow) : Expression → Option Bool
  | constant truth => some truth
  | compare op left right => ((left.eval row).compare? (right.eval row)).map op.accepts
  | isIn t values negated => (isIn? (t.eval row) (values.map Bound.stored)).map (· != negated)
  | join .and left right => and? (left.eval row) (right.eval row)
  | join .or left right => or? (left.eval row) (right.eval row)

/-- Whether a row satisfies a condition; without one, every row does. -/
def satisfies (condition : Option Expression) (row : StoredRow) : Bool :=
  match condition with
  | none => true
  | some e => e.eval row = some true

end TableQuery.Sql
