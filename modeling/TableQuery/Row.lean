import TableQuery.Json.Basic

/-!
# Rows

A row is a list of named JSON values in which no name occurs twice. Setting a field keeps its place.
-/

namespace TableQuery

/-- A row of a table. -/
structure Row where
  fields : List (String × Json)
  nodup : (fields.map Prod.fst).Nodup

namespace Row

/-- The row without fields. -/
def empty : Row := ⟨[], .nil⟩

/-- Set a field: in place when the name occurs, at the end otherwise. -/
def set (row : Row) (name : String) (value : Json) : Row :=
  ⟨Json.setMember name value row.fields, by
    rw [Json.map_fst_setMember]
    split
    · exact row.nodup
    next h => exact List.nodup_append.2 ⟨row.nodup, by simp, by
        intro a ha b hb
        simp only [List.mem_singleton] at hb
        exact fun hab => h (hb ▸ hab ▸ ha)⟩⟩

/-- A row with the given fields set in order. -/
def ofList (fields : List (String × Json)) : Row :=
  fields.foldl (fun row field => row.set field.1 field.2) empty

/-- The value of a field. -/
def get? (row : Row) (name : String) : Option Json := row.fields.lookup name

/-- A row as a JSON object. -/
def toJson (row : Row) : Json := .obj row.fields

/-- A set field has its value, and every other field keeps its value. -/
theorem get?_set (row : Row) (name other : String) (value : Json) :
    (row.set name value).get? other = if other = name then some value else row.get? other :=
  Json.lookup_setMember name other value row.fields

end Row

end TableQuery
