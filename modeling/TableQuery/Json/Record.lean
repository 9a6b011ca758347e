import TableQuery.Json.Basic
import TableQuery.NameMap

/-!
# Records in JSON

Reading records and collections from JSON values. A record is read from an object, whose unknown
members are ignored, or from an array of its fields in order. A field that is absent has its default
if it has one; otherwise the record is refused.
-/

namespace TableQuery.Json

/-- The fields of a record by their names, or by their places in an array that is not too long. -/
def record? (names : List String) : Json → Option (List (Option Json))
  | .obj members => some (names.map fun name => members.lookup name)
  | .arr items =>
    if items.length ≤ names.length then
      some (items.map some ++ List.replicate (names.length - items.length) none)
    else none
  | _ => none

/-- A field that has to be present. -/
def required {α : Type} (read : Json → Option α) (field : Option Json) : Option α :=
  field.bind read

/-- A field that has a default. -/
def defaulted {α : Type} (fallback : α) (read : Json → Option α) : Option Json → Option α
  | none => some fallback
  | some value => read value

/-- A string. -/
def toString? : Json → Option String
  | .str s => some s
  | _ => none

/-- A truth value. -/
def toBool? : Json → Option Bool
  | .bool b => some b
  | _ => none

/-- An array, each of whose items is read. -/
def toList? {α : Type} (read : Json → Option α) : Json → Option (List α)
  | .arr items => items.mapM read
  | _ => none

/-- Null, or a value that is read. -/
def toNullable? {α : Type} (read : Json → Option α) : Json → Option (Option α)
  | .null => some none
  | value => (read value).map some

/-- An object, each of whose members is read, with its names in order. -/
def toNameMap? {α : Type} (read : Json → Option α) : Json → Option (NameMap α)
  | .obj members =>
    (members.mapM fun member => (read member.2).map fun value => (member.1, value)).map
      NameMap.ofList
  | _ => none

/-- An array of strings. -/
def ofStrings (names : List String) : Json := .arr (names.map .str)

/-- A natural number or null. -/
def ofLimit : Option Nat → Json
  | some n => .int n
  | none => .null

end TableQuery.Json
