import TableQuery.Json.Record
import TableQuery.Row
import TableQuery.Schema.Table

/-!
# Responses

A result row is a row with the rows that are related to it, under the names of the requested
relationships. A listing has the number of all matching rows and the result rows of one page. Their
JSON forms put the related rows into one more member of the row, after its columns.
-/

namespace TableQuery

namespace Row

/-- A row from an object. -/
def ofJson? : Json → Option Row
  | .obj members => some (ofList members)
  | _ => none

end Row

/-- A row and its related rows. -/
structure ResultRow where
  columns : Row
  related : NameMap (List Row) := .empty

namespace ResultRow

/-- The rows related under a name, if the relationship was requested. -/
def related? (row : ResultRow) (name : String) : Option (List Row) := row.related.get? name

/-- Related rows as an object. -/
def relatedJson (related : NameMap (List Row)) : Json :=
  .obj (related.entries.map fun entry => (entry.1, .arr (entry.2.map Row.toJson)))

/-- The JSON form of a result row: its columns, then its related rows. -/
def toJson (row : ResultRow) : Json :=
  .obj (row.columns.fields ++ [(relatedMember, relatedJson row.related)])

/-- A result row from its JSON form. Every other member is a column; a row without the member for
related rows has none. -/
def ofJson? : Json → Option ResultRow
  | .obj members => do
    let related ← Json.defaulted .empty (Json.toNameMap? (Json.toList? Row.ofJson?))
      (members.lookup relatedMember)
    pure ⟨Row.ofList (members.filter fun member => member.1 ≠ relatedMember), related⟩
  | _ => none

end ResultRow

/-- A page of a listing. -/
structure Listing where
  total : Nat
  result : List ResultRow

namespace Listing

/-- The number of rows on the page. -/
def returned (listing : Listing) : Nat := listing.result.length

/-- The JSON form of a listing. -/
def toJson (listing : Listing) : Json :=
  .obj [("total", .int listing.total), ("result", .arr (listing.result.map ResultRow.toJson))]

/-- A listing from its JSON form. -/
def ofJson? (value : Json) : Option Listing := do
  match ← value.record? ["total", "result"] with
  | [total, result] =>
    let total ← Json.required Json.toWord? total
    let result ← Json.required (Json.toList? ResultRow.ofJson?) result
    pure ⟨total, result⟩
  | _ => none

end Listing

end TableQuery
