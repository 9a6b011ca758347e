/-!
# Column types

The logical type of a column decides how texts are read as values of it and which kinds of filters
apply to it.
-/

namespace TableQuery

/-- The logical type of a column. -/
inductive ColumnType where
  | integer
  | float
  | text
  | boolean
  | date
  | dateTime
  | uuid
  deriving DecidableEq

namespace ColumnType

/-- All types. -/
def all : List ColumnType := [integer, float, text, boolean, date, dateTime, uuid]

/-- The name of a type in a written schema. -/
def literal : ColumnType → String
  | integer => "integer"
  | float => "float"
  | text => "string"
  | boolean => "boolean"
  | date => "date"
  | dateTime => "date_time"
  | uuid => "uuid"

/-- The type with a given name. -/
def ofLiteral? (name : String) : Option ColumnType := all.find? fun type => type.literal = name

/-- Numbers, dates and date-times have ranges. -/
def supportsRange : ColumnType → Bool
  | integer | float | date | dateTime => true
  | text | boolean | uuid => false

/-- Only texts are matched against patterns. -/
def supportsMatch : ColumnType → Bool
  | text => true
  | _ => false

/-- What a text of this type should be, in words. -/
def phrase : ColumnType → String
  | integer => "an integer"
  | float => "a number"
  | text => "a string"
  | boolean => "a boolean"
  | date => "a date (YYYY-MM-DD)"
  | dateTime => "a date-time (YYYY-MM-DDTHH:MM:SS)"
  | uuid => "a UUID"

/-- Every type is found by its name. -/
theorem ofLiteral?_literal (type : ColumnType) : ofLiteral? type.literal = some type := by
  cases type <;> decide

end ColumnType

end TableQuery
