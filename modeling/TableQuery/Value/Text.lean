import TableQuery.Calendar.Text
import TableQuery.Decimal.Numeral
import TableQuery.Text.Blank
import TableQuery.Value.Basic

/-!
# Values as request text

Reading the texts that requests carry. Blanks around a value are ignored, except that a text value
is taken as it stands.
-/

namespace TableQuery.Value

/-- Read a truth value by one of its names, in any case of the ASCII letters. -/
def readBoolean? (s : List Char) : Option Bool :=
  let name := String.ofList (s.map Text.foldChar)
  if name = "true" ∨ name = "1" ∨ name = "yes" ∨ name = "on" then some true
  else if name = "false" ∨ name = "0" ∨ name = "no" ∨ name = "off" then some false
  else none

/-- Read a finite floating-point number. -/
def readFloat? (s : List Char) : Option Binary64 :=
  ((Numeral.read? s).map Numeral.toBinary64).filter Binary64.isFinite

/-- Read a value of a type. -/
def read? (type : ColumnType) (raw : String) : Option Value :=
  let s := Text.trimBlanks raw.toList
  match type with
  | .integer => (Decimal.readInt64? s).map integer
  | .float => (readFloat? s).map float
  | .text => some (text raw)
  | .boolean => (readBoolean? s).map boolean
  | .date => (Calendar.readDate? s).map date
  | .dateTime => (Calendar.readDateTime? s).map dateTime
  | .uuid => (Uuid.read? s).map uuid

/-- What is said of a text that is no value of a type. -/
def unreadable (type : ColumnType) (raw : String) : String :=
  "expected " ++ type.phrase ++ ", got '" ++ raw ++ "'"

/-- A value read for a type is of that type. -/
theorem type_of_read? {type : ColumnType} {raw : String} {v : Value} (h : read? type raw = some v) :
    v.type = type := by
  cases type <;> simp only [read?, Option.map_eq_some_iff, Option.some.injEq] at h
  case text => exact h ▸ rfl
  all_goals obtain ⟨_, _, rfl⟩ := h; rfl

end TableQuery.Value
