import TableQuery.Json.Record
import TableQuery.Schema.Registry
import TableQuery.Settings

/-!
# Written schemas and settings

The JSON forms of settings and of schemas. Relationships, the nullability of a column and every
field of the settings have defaults.
-/

namespace TableQuery

namespace ColumnType

/-- A type as its name. -/
def toJson (type : ColumnType) : Json := .str type.literal

/-- A type from its name, alone or as the only member of an object with the value null. -/
def ofJson? : Json → Option ColumnType
  | .str name => ofLiteral? name
  | .obj [(name, .null)] => ofLiteral? name
  | _ => none

end ColumnType

namespace Column

/-- The written form of a column. -/
def toJson (column : Column) : Json :=
  .obj [("name", .str column.name), ("logical_type", column.type.toJson),
    ("nullable", .bool column.nullable)]

/-- A column from its written form; columns are not nullable unless they say so. -/
def ofJson? (value : Json) : Option Column := do
  match ← value.record? ["name", "logical_type", "nullable"] with
  | [name, type, nullable] =>
    let name ← Json.required Json.toString? name
    let type ← Json.required ColumnType.ofJson? type
    let nullable ← Json.defaulted false Json.toBool? nullable
    pure ⟨name, type, nullable⟩
  | _ => none

end Column

namespace Relationship

/-- The written form of a relationship. -/
def toJson (r : Relationship) : Json :=
  .obj [("name", .str r.name), ("target_table", .str r.target),
    ("local_column", .str r.localColumn), ("target_column", .str r.targetColumn)]

/-- A relationship from its written form. -/
def ofJson? (value : Json) : Option Relationship := do
  match ← value.record? ["name", "target_table", "local_column", "target_column"] with
  | [name, target, localColumn, targetColumn] =>
    let name ← Json.required Json.toString? name
    let target ← Json.required Json.toString? target
    let localColumn ← Json.required Json.toString? localColumn
    let targetColumn ← Json.required Json.toString? targetColumn
    pure ⟨name, target, localColumn, targetColumn⟩
  | _ => none

end Relationship

namespace Table

/-- The written form of a table. -/
def toJson (table : Table) : Json :=
  .obj [("name", .str table.name), ("columns", .arr (table.columns.map Column.toJson)),
    ("primary_key", Json.ofStrings table.primaryKey),
    ("relationships", .arr (table.relationships.map Relationship.toJson))]

/-- A table from its written form; it has no relationships unless it lists some. -/
def ofJson? (value : Json) : Option Table := do
  match ← value.record? ["name", "columns", "primary_key", "relationships"] with
  | [name, columns, primaryKey, relationships] =>
    let name ← Json.required Json.toString? name
    let columns ← Json.required (Json.toList? Column.ofJson?) columns
    let primaryKey ← Json.required (Json.toList? Json.toString?) primaryKey
    let relationships ← Json.defaulted [] (Json.toList? Relationship.ofJson?) relationships
    pure ⟨name, columns, primaryKey, relationships⟩
  | _ => none

end Table

namespace Registry

/-- The written form of a registry. -/
def toJson (registry : Registry) : Json :=
  .obj [("tables", .obj (registry.tables.entries.map fun entry => (entry.1, entry.2.toJson)))]

/-- A registry from its written form; each table is kept under the name it is listed with. -/
def ofJson? (value : Json) : Option Registry := do
  match ← value.record? ["tables"] with
  | [tables] =>
    let tables ← Json.required (Json.toNameMap? Table.ofJson?) tables
    pure ⟨tables⟩
  | _ => none

end Registry

namespace Settings

/-- The written form of settings. -/
def toJson (settings : Settings) : Json :=
  .obj [("default_limit", Json.ofLimit settings.defaultLimit),
    ("max_limit", Json.ofLimit settings.maxLimit),
    ("total_count_header", .str settings.countHeader)]

/-- Settings from their written form; every field has its default. -/
def ofJson? (value : Json) : Option Settings := do
  match ← value.record? ["default_limit", "max_limit", "total_count_header"] with
  | [defaultLimit, maxLimit, countHeader] =>
    let defaultLimit ← Json.defaulted none (Json.toNullable? Json.toWord?) defaultLimit
    let maxLimit ← Json.defaulted none (Json.toNullable? Json.toWord?) maxLimit
    let countHeader ← Json.defaulted defaultCountHeader Json.toString? countHeader
    pure ⟨defaultLimit, maxLimit, countHeader⟩
  | _ => none

end Settings

end TableQuery
