import TableQuery.Request.Operator
import TableQuery.Request.Order
import TableQuery.Request.Window
import TableQuery.Value.Basic

/-!
# Decoded requests

What a request asks of one table: the constraints on its columns in the order of the columns, the
window, the order and the relationships to expand.
-/

namespace TableQuery

/-- One end of a range. -/
structure RangeBound where
  operator : RangeOperator
  value : Value
  deriving DecidableEq

/-- A range; either end may be open. -/
structure RangeFilter where
  lower : Option RangeBound := none
  upper : Option RangeBound := none
  deriving DecidableEq

namespace RangeFilter

/-- Whether both ends are open. -/
def isOpen (range : RangeFilter) : Bool := range.lower.isNone && range.upper.isNone

/-- The bounds that are given. -/
def bounds (range : RangeFilter) : List RangeBound := range.lower.toList ++ range.upper.toList

end RangeFilter

/-- Membership in a list of values. -/
structure ListFilter where
  operator : ListOperator
  values : List Value
  deriving DecidableEq

/-- A match of one of several texts. -/
structure MatchFilter where
  mode : MatchMode
  texts : List String
  deriving DecidableEq

/-- The constraints on one column. -/
structure ColumnFilter where
  column : String
  range : Option RangeFilter := none
  list : Option ListFilter := none
  pattern : Option MatchFilter := none
  deriving DecidableEq

/-- Whether a filter constrains its column. -/
def ColumnFilter.isActive (filter : ColumnFilter) : Bool :=
  filter.range.any (!·.isOpen) || filter.list.isSome || filter.pattern.isSome

/-- A decoded request. -/
structure Request where
  filters : List ColumnFilter := []
  window : Window := {}
  order : List SortKey := []
  relationships : List String := []
  deriving DecidableEq

namespace Request

/-- The filter of a column. -/
def filter? (request : Request) (column : String) : Option ColumnFilter :=
  request.filters.find? fun filter => filter.column = column

/-- Whether no column is constrained. -/
def isUnfiltered (request : Request) : Bool := request.filters.isEmpty

end Request

end TableQuery
