import TableQuery.Calendar.DateTime
import TableQuery.ColumnType
import TableQuery.Decimal.Binary64
import TableQuery.Uuid

/-!
# Typed values

The values that columns hold and filters compare with. Values of one type are ordered, NaN apart; an
integer is compared with a floating-point number after rounding it to the nearest one. Values of
other different types are not comparable.
-/

namespace TableQuery

/-- A value of one of the column types. -/
inductive Value where
  | integer (n : Int64)
  | float (x : Binary64)
  | text (s : String)
  | boolean (b : Bool)
  | date (d : Date)
  | dateTime (t : DateTime)
  | uuid (u : Uuid)
  deriving DecidableEq

namespace Value

/-- The type of a value. -/
def type : Value → ColumnType
  | integer _ => .integer
  | float _ => .float
  | text _ => .text
  | boolean _ => .boolean
  | date _ => .date
  | dateTime _ => .dateTime
  | uuid _ => .uuid

/-- The floating-point number nearest to an integer. -/
def rounded (n : Int64) : Binary64 := .ofInt n.toInt

/-- The order of two values, when they are comparable. -/
def compare? : Value → Value → Option Ordering
  | integer a, integer b => some (compare a.toInt b.toInt)
  | integer a, float b => (rounded a).compare? b
  | float a, integer b => a.compare? (rounded b)
  | float a, float b => a.compare? b
  | text a, text b => some (compare a b)
  | boolean a, boolean b => some (compare a b)
  | date a, date b => some (a.compare b)
  | dateTime a, dateTime b => some (a.compare b)
  | uuid a, uuid b => some (a.compare b)
  | _, _ => none

/-- Whether two values are comparable and equal. -/
def equals (a b : Value) : Bool := a.compare? b = some .eq

/-- The text of a text value. -/
def asText? : Value → Option String
  | text s => some s
  | _ => none

end Value

end TableQuery
