import TableQuery.Row
import TableQuery.Schema.Table
import TableQuery.Value.Json

/-!
# Typed cells and projection

What a row holds in a column, read as the column's type, and the row that a table shows of a stored
row. Projecting does not change any typed cell.
-/

namespace TableQuery.Table

/-- The typed value of a column of a row. There is none when the column is not declared, or the cell
is missing, null or of another form. -/
def cell? (table : Table) (row : Row) (name : String) : Option Value :=
  (table.column? name).bind fun column => (row.get? name).bind (Value.ofJson? column.type)

/-- The columns of a table in order, as they stand in a row; missing cells are null. -/
def project (table : Table) (row : Row) : Row :=
  Row.ofList (table.columns.map fun column => (column.name, (row.get? column.name).getD .null))

end TableQuery.Table
