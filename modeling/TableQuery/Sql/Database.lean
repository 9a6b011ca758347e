import TableQuery.Source.Fetch
import TableQuery.Sql.Evaluation

/-!
# A database as a row source

Tables of stored rows on which statements are executed, and whose cells are read back by the types
of the columns. A statement on a table that does not exist fails.
-/

namespace TableQuery.Sql

/-- Stored tables. -/
structure Database where
  tables : NameMap (List StoredRow)

/-- Read a cell back as a value of a type: none when it is null, a failure when it is of another
form. -/
def readStored (type : ColumnType) (cell : Stored) : Except Failure (Option Value) :=
  let found : Option Value :=
    match type, cell with
    | .integer, .integer n => (Json.toInt64? (.int n)).map .integer
    | .float, .real x => some (.float x)
    | .text, .text s => some (.text s)
    | .boolean, .integer n => some (.boolean (n ≠ 0))
    | .date, .text s => (Calendar.readDate? s.toList).map .date
    | .dateTime, .text s => (Calendar.readBlanked? s.toList).map .dateTime
    | .uuid, .blob u => some (.uuid u)
    | _, _ => none
  match cell, found with
  | .null, _ => .ok none
  | _, some v => .ok (some v)
  | _, none => .error (.database "a cell is not of the type of its column")

/-- A row with the columns of a table, read back from a stored row. -/
def readRow (table : Table) (row : StoredRow) : Except Failure Row := do
  let fields ← table.columns.mapM fun column => do
    let value ← readStored column.type ((row.lookup column.name).getD .null)
    .ok (column.name, (value.map Value.toJson).getD .null)
  .ok (Row.ofList fields)

/-- The stored form of a row of a table: every column as a value of its type, or null. -/
def storeRow (table : Table) (row : Row) : StoredRow :=
  table.columns.map fun column =>
    (column.name, ((table.cell? row column.name).map storeValue).getD .null)

/-- The order of two stored rows by sort keys; null comes first in an ascending order. -/
def compareStored (keys : List SortKey) (a b : StoredRow) : Ordering :=
  keys.foldr (fun key rest =>
    let cell (row : StoredRow) := (row.lookup key.column).getD .null
    (key.direction.apply ((cell a).order (cell b))).then rest) .eq

namespace Statement

/-- The stored rows that satisfy the condition of a statement. -/
def found (s : Statement) (rows : List StoredRow) : List StoredRow :=
  rows.filter (satisfies s.condition)

/-- The part of sorted rows inside the limit and the offset of a statement. -/
def cut (s : Statement) (sorted : List StoredRow) : List StoredRow :=
  let rest := sorted.drop (s.offset.getD 0)
  match s.limit with
  | none => rest
  | some limit => rest.take limit

/-- The rows that a statement selects: filtered, sorted and cut. -/
def selected (s : Statement) (rows : List StoredRow) : List StoredRow :=
  s.cut ((s.found rows).mergeSort fun a b => compareStored s.order a b ≠ .gt)

end Statement

namespace Database

/-- A database without tables. -/
def empty : Database := ⟨.empty⟩

/-- The rows of a table, which has to exist. -/
def rows (db : Database) (table : String) : Except Failure (List StoredRow) :=
  match db.tables.get? table with
  | some rows => .ok rows
  | none => .error (.database ("no such table: " ++ table))

/-- Create a table if it does not exist, and store rows after those that it has. -/
def append (db : Database) (table : Table) (rows : List Row) : Database :=
  ⟨db.tables.insert table.name
    ((db.tables.get? table.name).getD [] ++ rows.map (storeRow table))⟩

/-- A database as a row source: the statements of the questions, executed. -/
def source (db : Database) : RowSource where
  count table p := do
    let rows ← db.rows table.name
    .ok ((Statement.ofCount table p).selected rows).length
  select table query := do
    let rows ← db.rows table.name
    ((Statement.ofQuery table query).selected rows).mapM (readRow table)

end Database

end TableQuery.Sql
