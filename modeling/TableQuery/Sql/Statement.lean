import TableQuery.Plan
import TableQuery.Sql.Expression

/-!
# SQL statements

The two statements that a source is asked with: the rows of a table, and their number. A condition
that always holds is left out. An offset needs a limit, so one without a limit gets the greatest
there is.
-/

namespace TableQuery.Sql

/-- What a statement returns. -/
inductive Output where
  | columns (names : List String)
  | count
  deriving DecidableEq

/-- A statement on one table. -/
structure Statement where
  output : Output
  table : String
  condition : Option Expression := none
  order : List SortKey := []
  limit : Option Nat := none
  offset : Option Nat := none
  deriving DecidableEq

namespace Statement

/-- The greatest limit that databases take. -/
def greatestLimit : Nat := 0x7FFFFFFFFFFFFFFF

/-- The condition of a predicate, unless it always holds. -/
def condition? (p : Predicate) : Option Expression :=
  if p.isAlways then none else some (.ofPredicate p)

/-- The limit of a window. -/
def limit? (w : Window) : Option Nat :=
  match w.limit with
  | some limit => some limit
  | none => if 0 < w.offset then some greatestLimit else none

/-- The offset of a window, unless it is 0. -/
def offset? (w : Window) : Option Nat := if 0 < w.offset then some w.offset else none

/-- The statement for the rows that a query selects. -/
def ofQuery (table : Table) (query : SelectQuery) : Statement where
  output := .columns (table.columns.map Column.name)
  table := table.name
  condition := condition? query.predicate
  order := query.order
  limit := limit? query.window
  offset := offset? query.window

/-- The statement for the number of rows that satisfy a predicate. -/
def ofCount (table : Table) (p : Predicate) : Statement where
  output := .count
  table := table.name
  condition := condition? p

end Statement

end TableQuery.Sql
