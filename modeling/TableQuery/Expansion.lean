import TableQuery.Json.Writer
import TableQuery.Response
import TableQuery.Source.Fetch

/-!
# Expanding relationships

The rows of a page with the rows that relationships lead to. Each relationship takes one question,
for the distinct values of its local column on the page, and none when there are no values. Values
are matched by their JSON text. Every relationship has its list on every row, which is empty when
nothing links to the row.
-/

namespace TableQuery

/-- Keep the first of the elements that share a key. -/
def distinctBy {α : Type} (key : α → String) : List α → List α
  | [] => []
  | a :: rest => a :: (distinctBy key rest).filter fun b => key b ≠ key a

namespace Value

/-- The text by which values are matched. -/
def joinText (value : Value) : String := value.toJson.text

end Value

namespace Table

/-- The text by which the column of a row is matched. -/
def joinText? (table : Table) (row : Row) (column : String) : Option String :=
  (table.cell? row column).map Value.joinText

/-- The distinct values of a column, in the order of their first rows. -/
def distinctKeys (table : Table) (column : String) (rows : List Row) : List Value :=
  distinctBy Value.joinText (rows.filterMap fun row => table.cell? row column)

end Table

/-- A relationship and the table that it leads to. -/
structure Link where
  relationship : Relationship
  target : Table

namespace Link

/-- Ask for the rows that a link leads to from the rows of a page. -/
def fetch (table : Table) (rows : List Row) (link : Link) : Fetch (List Row) :=
  match table.distinctKeys link.relationship.localColumn rows with
  | [] => .done []
  | keys => .askSelect link.target (.related link.target link.relationship keys)

/-- The fetched rows that a link leads to from one row. -/
def children (table : Table) (link : Link) (fetched : List Row) (row : Row) : List Row :=
  match table.joinText? row link.relationship.localColumn with
  | none => []
  | some text => fetched.filter fun child =>
      link.target.joinText? child link.relationship.targetColumn = some text

/-- Ask for the rows of each link in order. -/
def fetchAll (table : Table) (rows : List Row) : List Link → Fetch (List (Link × List Row))
  | [] => .done []
  | link :: rest => do
    let fetched ← link.fetch table rows
    let more ← fetchAll table rows rest
    .done ((link, fetched) :: more)

/-- A row with its related rows under the names of the links. -/
def attach (table : Table) (groups : List (Link × List Row)) (row : Row) : ResultRow where
  columns := row
  related := .ofList (groups.map fun group =>
    (group.1.relationship.name, group.1.children table group.2 row))

end Link

namespace Registry

/-- Find the target of every relationship of a table; the first that is missing is reported. -/
def links (registry : Registry) (table : Table) : List Relationship → Except Failure (List Link)
  | [] => .ok []
  | r :: rest =>
    match registry.table? r.target with
    | none => .error (.relationship r.name table.name)
    | some target => do
      let more ← registry.links table rest
      .ok (⟨r, target⟩ :: more)

/-- Attach to the rows of a page the rows that relationships lead to. -/
def expand (registry : Registry) (table : Table) (rows : List Row)
    (relationships : List Relationship) : Fetch (List ResultRow) := do
  let links ← Fetch.ofExcept (registry.links table relationships)
  let groups ← Link.fetchAll table rows links
  .done (rows.map (Link.attach table groups))

end Registry

end TableQuery
