import TableQuery.Predicate
import TableQuery.Request.Filter

/-!
# Requests as predicates

The constraints of a decoded request as one condition: the bounds, the list and the pattern of each
column, one after the other. A pattern holds when one of its texts matches.
-/

namespace TableQuery

namespace ColumnFilter

/-- The conditions of the bounds of a range. -/
def rangeParts (column : String) (range : RangeFilter) : List Predicate :=
  range.bounds.map fun bound => .compare column bound.operator bound.value

/-- The condition of a list. -/
def listPart (column : String) (list : ListFilter) : Predicate :=
  .membership column list.values list.operator.isNegated

/-- The condition of a pattern. -/
def patternPart (column : String) (pattern : MatchFilter) : Predicate :=
  .any (pattern.texts.map (.text column pattern.mode))

/-- The conditions of the constraints on a column. -/
def parts (filter : ColumnFilter) : List Predicate :=
  filter.range.toList.flatMap (rangeParts filter.column)
    ++ (filter.list.map (listPart filter.column)).toList
    ++ (filter.pattern.map (patternPart filter.column)).toList

/-- The constraints on a column as one condition. -/
def predicate (filter : ColumnFilter) : Predicate := .all filter.parts

end ColumnFilter

namespace Request

/-- The constraints of a request as one condition, which is the one that always holds when there are
none. -/
def predicate (request : Request) : Predicate := .all (request.filters.map ColumnFilter.predicate)

end Request

end TableQuery
