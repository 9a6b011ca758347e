import TableQuery.Failure
import TableQuery.NameMap
import TableQuery.Schema.Table

/-!
# Registries

The tables that an engine serves, by name. A registry is valid when no table has a problem by
itself and every relationship leads to a registered table and a column of the same type.
-/

namespace TableQuery

/-- The tables of an engine. -/
structure Registry where
  tables : NameMap Table

namespace Registry

/-- The registry without tables. -/
def empty : Registry := ⟨.empty⟩

/-- Register a table under its name, in place of one of the same name. -/
def register (registry : Registry) (table : Table) : Registry :=
  ⟨registry.tables.insert table.name table⟩

/-- Declare a relationship on a table, if it is registered. -/
def declare (registry : Registry) (table : String) (r : Relationship) : Registry :=
  ⟨registry.tables.modify table fun t => t.withRelationship r⟩

/-- Declare a relationship between two tables in both directions, each named after its target. A
table that is not registered is passed over. -/
def link (registry : Registry) (left leftColumn right rightColumn : String) : Registry :=
  let forward := Relationship.named right leftColumn rightColumn
  (registry.declare left forward).declare right (forward.reversed left)

/-- The table under a name. -/
def table? (registry : Registry) (name : String) : Option Table := registry.tables.get? name

/-- The table under a name; a missing one is not found. -/
def require (registry : Registry) (name : String) : Except Failure Table :=
  match registry.table? name with
  | some table => .ok table
  | none => .error (.notFound name none)

/-- The problems of where a relationship leads. The types are compared only when the local column
is declared. -/
def targetProblems (registry : Registry) (table : Table) (r : Relationship) : List Problem :=
  match registry.table? r.target with
  | none => [.unknownTarget table.name r.name r.target]
  | some target =>
    match target.column? r.targetColumn with
    | none => [.unknownTargetColumn table.name r.name r.target r.targetColumn]
    | some remote =>
      match table.column? r.localColumn with
      | none => []
      | some near => if near.type = remote.type then [] else [.differentTypes table.name r.name]

/-- All problems, table by table. -/
def problems (registry : Registry) : List Problem :=
  registry.tables.values.flatMap fun table =>
    table.problems ++ table.relationships.flatMap (registry.targetProblems table)

/-- Refuse a registry with problems. -/
def validate (registry : Registry) : Except Failure Unit :=
  match registry.problems with
  | [] => .ok ()
  | problems => .error (.internal (.invalidRegistry problems))

/-- A registry is accepted exactly when it has no problems. -/
theorem validate_eq_ok_iff (registry : Registry) :
    registry.validate = .ok () ↔ registry.problems = [] := by
  unfold validate
  cases registry.problems <;> simp

end Registry

end TableQuery
