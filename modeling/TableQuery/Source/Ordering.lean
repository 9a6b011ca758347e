import TableQuery.Cell
import TableQuery.Request.Order

/-!
# Ordering rows

Rows are compared by their typed cells, sort key by sort key. A cell without a value comes first in
an ascending order and last in a descending one.
-/

namespace TableQuery

namespace Value

/-- The order of two optional values: none before some. Values that are not comparable tie. -/
def compareCells : Option Value → Option Value → Ordering
  | none, none => .eq
  | none, some _ => .lt
  | some _, none => .gt
  | some a, some b => (a.compare? b).getD .eq

end Value

namespace SortKey

/-- The order of two rows by one key; a column that is not declared ties all rows. -/
def compareRows (table : Table) (key : SortKey) (a b : Row) : Ordering :=
  key.direction.apply (Value.compareCells (table.cell? a key.column) (table.cell? b key.column))

/-- The order of two rows by the first key that tells them apart. -/
def compareAll (table : Table) (keys : List SortKey) (a b : Row) : Ordering :=
  keys.foldr (fun key rest => (key.compareRows table a b).then rest) .eq

/-- Rows in the order of sort keys; rows that tie keep their order. -/
def sort (table : Table) (keys : List SortKey) (rows : List Row) : List Row :=
  rows.mergeSort fun a b => compareAll table keys a b ≠ .gt

/-- Sorting keeps every occurrence of every row. -/
theorem sort_perm (table : Table) (keys : List SortKey) (rows : List Row) :
    (sort table keys rows).Perm rows :=
  List.mergeSort_perm _ _

end SortKey

end TableQuery
