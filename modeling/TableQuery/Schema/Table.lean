import TableQuery.ColumnType
import TableQuery.Schema.Problem

/-!
# Tables

A table has named and typed columns in order, a primary key, and relationships to other tables. The
problems of a table by itself are listed in the order of its parts.
-/

namespace TableQuery

/-- The member of every result row that holds its related rows; no column may have this name. -/
def relatedMember : String := "relationship"

/-- A column of a table. -/
structure Column where
  name : String
  type : ColumnType
  nullable : Bool := false
  deriving DecidableEq

/-- A link from a column of the declaring table to a column of a target table. -/
structure Relationship where
  name : String
  target : String
  localColumn : String
  targetColumn : String
  deriving DecidableEq

namespace Relationship

/-- The relationship that is named after its target. -/
def named (target localColumn targetColumn : String) : Relationship :=
  ⟨target, target, localColumn, targetColumn⟩

/-- The same link seen from the target, leading back to `source`. -/
def reversed (r : Relationship) (source : String) : Relationship :=
  named source r.targetColumn r.localColumn

end Relationship

/-- A table. -/
structure Table where
  name : String
  columns : List Column := []
  primaryKey : List String := []
  relationships : List Relationship := []
  deriving DecidableEq

namespace Table

/-- The first column of a name. -/
def column? (table : Table) (name : String) : Option Column :=
  table.columns.find? fun column => column.name = name

/-- The first relationship of a name. -/
def relationship? (table : Table) (name : String) : Option Relationship :=
  table.relationships.find? fun r => r.name = name

/-- The relationship to a target, when there is exactly one. -/
def relationshipTo? (table : Table) (target : String) : Option Relationship :=
  match table.relationships.filter fun r => r.target = target with
  | [only] => some only
  | _ => none

/-- The column of a key that consists of one column. -/
def singleKey? (table : Table) : Option Column :=
  match table.primaryKey with
  | [only] => table.column? only
  | _ => none

/-- The table with one more column. -/
def withColumn (table : Table) (column : Column) : Table :=
  { table with columns := table.columns ++ [column] }

/-- The table with another primary key. -/
def withPrimaryKey (table : Table) (columns : List String) : Table :=
  { table with primaryKey := columns }

/-- The table with one more relationship. -/
def withRelationship (table : Table) (r : Relationship) : Table :=
  { table with relationships := table.relationships ++ [r] }

/-- The problems of columns after columns of the names in `seen`. -/
def columnProblems (table : String) (seen : List String) : List Column → List Problem
  | [] => []
  | column :: rest =>
    (if column.name ∈ seen then [.duplicateColumn table column.name] else [])
      ++ (if column.name = relatedMember then [.reservedColumn table column.name] else [])
      ++ columnProblems table (column.name :: seen) rest

/-- The problems of the primary key. -/
def keyProblems (table : Table) : List Problem :=
  (if table.primaryKey = [] then [.missingKey table.name] else [])
    ++ (table.primaryKey.filter fun name => (table.column? name).isNone).map
      (.undeclaredKeyColumn table.name)

/-- The problems of relationships after relationships of the names in `seen`. -/
def relationshipProblems (table : Table) (seen : List String) : List Relationship → List Problem
  | [] => []
  | r :: rest =>
    (if r.name ∈ seen then [.duplicateRelationship table.name r.name] else [])
      ++ (if (table.column? r.localColumn).isNone
        then [.unknownLocalColumn table.name r.name r.localColumn] else [])
      ++ relationshipProblems table (r.name :: seen) rest

/-- The problems of a table by itself. -/
def problems (table : Table) : List Problem :=
  columnProblems table.name [] table.columns ++ table.keyProblems
    ++ table.relationshipProblems [] table.relationships

/-- A column found by its name has that name and is declared. -/
theorem column?_eq_some {table : Table} {name : String} {column : Column}
    (h : table.column? name = some column) : column ∈ table.columns ∧ column.name = name :=
  ⟨List.mem_of_find?_eq_some h, by simpa using List.find?_some h⟩

/-- A declared column is found by its name, if the names are distinct. -/
theorem column?_of_mem {table : Table} {column : Column}
    (hnodup : (table.columns.map Column.name).Nodup) (h : column ∈ table.columns) :
    table.column? column.name = some column := by
  unfold column?
  generalize table.columns = columns at hnodup h
  induction columns with
  | nil => contradiction
  | cons first rest ih =>
    rw [List.map_cons, List.nodup_cons] at hnodup
    rcases List.mem_cons.1 h with rfl | h
    · exact List.find?_cons_of_pos (by simp)
    · have hne : first.name ≠ column.name := fun heq =>
        hnodup.1 (heq ▸ List.mem_map_of_mem h)
      rw [List.find?_cons_of_neg (by simpa using hne)]
      exact ih hnodup.2 h

/-- Columns of fresh and pairwise distinct names, none of them reserved, have no problems. -/
theorem columnProblems_eq_nil_iff (table : String) (seen : List String) (columns : List Column) :
    columnProblems table seen columns = [] ↔
      (columns.map Column.name).Nodup ∧ (∀ column ∈ columns, column.name ∉ seen) ∧
        ∀ column ∈ columns, column.name ≠ relatedMember := by
  induction columns generalizing seen with
  | nil => simp [columnProblems]
  | cons first rest ih =>
    simp only [columnProblems, List.append_eq_nil_iff, ih, List.map_cons, List.nodup_cons,
      List.mem_map, forall_eq_or_imp, List.mem_cons, not_or, ite_eq_right_iff,
      reduceCtorEq, imp_false, not_exists, not_and]
    constructor
    · rintro ⟨⟨hseen, hreserved⟩, hnodup, hfresh, hrest⟩
      exact ⟨⟨fun c hc => (hfresh c hc).1, hnodup⟩, ⟨hseen, fun c hc => (hfresh c hc).2⟩,
        hreserved, hrest⟩
    · rintro ⟨⟨hfirst, hnodup⟩, ⟨hseen, hfresh⟩, hreserved, hrest⟩
      exact ⟨⟨hseen, hreserved⟩, hnodup, fun c hc => ⟨hfirst c hc, hfresh c hc⟩, hrest⟩

end Table

end TableQuery
