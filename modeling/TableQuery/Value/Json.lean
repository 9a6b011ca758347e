import TableQuery.Calendar.Text
import TableQuery.Json.Basic
import TableQuery.Value.Basic

/-!
# Values as JSON

The JSON form of a value, and reading a stored cell as a value of its column's type. A cell that is
null, or of a form that its type does not have, has no value.
-/

namespace TableQuery.Value

/-- The JSON form of a value. -/
def toJson : Value → Json
  | integer n => .ofInt64 n
  | float x => .ofBinary64 x
  | text s => .str s
  | boolean b => .bool b
  | date d => .str (String.ofList (Calendar.writeDate d))
  | dateTime t => .str (String.ofList (Calendar.writeDateTime 'T' t))
  | uuid u => .str (String.ofList u.write)

/-- Read a cell as a value of a type. An integer also reads as a floating-point number, and as a
truth value that is false for zero; texts are not trimmed. -/
def ofJson? : ColumnType → Json → Option Value
  | .integer, .int n => (Json.toInt64? (.int n)).map integer
  | .float, cell => (Json.toBinary64? cell).map float
  | .boolean, .bool b => some (boolean b)
  | .boolean, .int n => (Json.toInt64? (.int n)).map fun n => boolean (n ≠ 0)
  | .text, .str s => some (text s)
  | .date, .str s => (Calendar.readDate? s.toList).map date
  | .dateTime, .str s => (Calendar.readDateTime? s.toList).map dateTime
  | .uuid, .str s => (Uuid.read? s.toList).map uuid
  | _, _ => none

/-- A value read from a cell is of the type asked for. -/
theorem type_of_ofJson? {type : ColumnType} {cell : Json} {v : Value}
    (h : ofJson? type cell = some v) : v.type = type := by
  cases type <;> cases cell <;> simp only [ofJson?, reduceCtorEq, Option.map_eq_some_iff,
    Option.some.injEq] at h
  all_goals obtain ⟨_, _, rfl⟩ := h; rfl

end TableQuery.Value
