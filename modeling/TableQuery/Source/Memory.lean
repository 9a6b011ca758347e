import TableQuery.Source.Fetch
import TableQuery.Source.Ordering

/-!
# Rows in memory

A row source over lists of rows, one list for each table. A table without a list has no rows.
-/

namespace TableQuery

/-- Stored rows by table. -/
structure Memory where
  tables : NameMap (List Row)

namespace Memory

/-- A memory without rows. -/
def empty : Memory := ⟨.empty⟩

/-- The stored rows of a table, in storage order. -/
def rows (memory : Memory) (table : String) : List Row := (memory.tables.get? table).getD []

/-- Store rows after those that a table has. -/
def append (memory : Memory) (table : String) (rows : List Row) : Memory :=
  ⟨memory.tables.insert table (memory.rows table ++ rows)⟩

/-- The stored rows of a table that satisfy a predicate. -/
def matching (memory : Memory) (table : Table) (predicate : Predicate) : List Row :=
  (memory.rows table.name).filter (predicate.holds table)

/-- The rows that a query selects: filtered, sorted, cut to the window and projected. -/
def select (memory : Memory) (table : Table) (query : SelectQuery) : List Row :=
  (query.window.apply (SortKey.sort table query.order (memory.matching table query.predicate))).map
    table.project

/-- A memory as a row source, which never fails. -/
def source (memory : Memory) : RowSource where
  count table predicate := .ok (memory.matching table predicate).length
  select table query := .ok (memory.select table query)

variable {memory : Memory} {table : Table} {query : SelectQuery}

/-- Nothing is selected where no row matches. -/
theorem select_of_matching_nil (h : memory.matching table query.predicate = []) :
    memory.select table query = [] := by
  have hnothing : query.window.apply ([] : List Row) = [] :=
    List.eq_nil_iff_forall_not_mem.2 fun _ hrow => List.not_mem_nil (Window.mem_of_mem_apply hrow)
  rw [select, h, SortKey.sort, List.mergeSort_nil, hnothing, List.map_nil]

/-- Of a single row that matches the window decides alone, whatever the order. -/
theorem select_of_matching_singleton {row : Row}
    (h : memory.matching table query.predicate = [row]) :
    memory.select table query = (query.window.apply [row]).map table.project := by
  rw [select, h, SortKey.sort, List.mergeSort_singleton]

end Memory

end TableQuery
