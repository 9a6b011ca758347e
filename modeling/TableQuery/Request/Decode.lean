import TableQuery.Request.Filter
import TableQuery.Request.Params
import TableQuery.Value.Text

/-!
# Decoding requests

The parameters of a request read against a table. Each column has eight keys, its name with a
suffix, and four more keys belong to the whole request; every other key is ignored. The columns are
decoded in order, each its range, its list and its pattern, then the window, the order and the
relationships; the first fault is reported.
-/

namespace TableQuery

/-- What a key of a column stands for. -/
inductive Facet where
  | lower
  | upper
  | lowerOperator
  | upperOperator
  | list
  | listOperator
  | pattern
  | patternMode
  deriving DecidableEq

namespace Facet

/-- The suffix that a facet puts after the name of a column. -/
def suffix : Facet → String
  | lower => "____from"
  | upper => "____to"
  | lowerOperator => "____from_____comparison_operator"
  | upperOperator => "____to_____comparison_operator"
  | list => "____list"
  | listOperator => "____list_____comparison_operator"
  | pattern => "____str"
  | patternMode => "____str_____matching_pattern"

/-- All facets. -/
def all : List Facet :=
  [lower, upper, lowerOperator, upperOperator, list, listOperator, pattern, patternMode]

/-- The facets of a range, in the order in which they are refused. -/
def ofRange : List Facet := [lower, upper, lowerOperator, upperOperator]

/-- The facets of a pattern, in the order in which they are refused. -/
def ofPattern : List Facet := [pattern, patternMode]

/-- The key of a facet of a column. -/
def key (facet : Facet) (column : String) : String := column ++ facet.suffix

end Facet

namespace Request

/-- The keys that belong to the whole request. -/
def limitKey : String := "limit"

/-- The key of the offset. -/
def offsetKey : String := "offset"

/-- The key of the order. -/
def orderKey : String := "order_by_columns"

/-- The key of the relationships. -/
def relationshipKey : String := "relationship"

/-- Read a text as a value of a column; `key` is the parameter it came under. -/
def coerce (column : Column) (key raw : String) : Except Failure Value :=
  match Value.read? column.type raw with
  | some value => .ok value
  | none => .error (.decode key (.unreadable column.type raw))

/-- Read the literal under a key that may occur once, or take the default. -/
def decodeLiteral {α : Type} (params : Params) (key : String) (read : String → Option α)
    (fault : String → DecodeFault) (default : α) : Except Failure α := do
  match ← params.single key with
  | none => .ok default
  | some literal =>
    match read literal with
    | some a => .ok a
    | none => .error (.decode key (fault literal))

/-- Refuse the first of the facets that occurs, unless the column supports them. -/
def refuse (params : Params) (column : Column) (supported : Bool) (facets : List Facet)
    (fault : String → DecodeFault) : Except Failure Unit :=
  if supported then .ok ()
  else
    match (facets.map fun facet => facet.key column.name).find? params.contains with
    | some key => .error (.decode key (fault column.name))
    | none => .ok ()

/-- Decode one end of a range. The operator is checked even when there is no value. -/
def decodeBound (params : Params) (column : Column) (value operator : Facet)
    (default : RangeOperator) : Except Failure (Option RangeBound) := do
  let operator ← decodeLiteral params (operator.key column.name) RangeOperator.ofLiteral?
    .unknownComparison default
  match ← params.single (value.key column.name) with
  | none => .ok none
  | some raw =>
    let value ← coerce column (value.key column.name) raw
    .ok (some ⟨operator, value⟩)

/-- Decode the range of a column: its ends are included unless the request says otherwise. -/
def decodeRange (params : Params) (column : Column) : Except Failure (Option RangeFilter) := do
  refuse params column column.type.supportsRange Facet.ofRange .rangeUnsupported
  let lower ← decodeBound params column .lower .lowerOperator .greaterOrEqual
  let upper ← decodeBound params column .upper .upperOperator .lessOrEqual
  let range : RangeFilter := ⟨lower, upper⟩
  .ok (if range.isOpen then none else some range)

/-- Decode the list of a column: membership unless the request says otherwise. -/
def decodeList (params : Params) (column : Column) : Except Failure (Option ListFilter) := do
  let operator ← decodeLiteral params (Facet.listOperator.key column.name) ListOperator.ofLiteral?
    .unknownComparison .isIn
  let key := Facet.list.key column.name
  match params.getAll key with
  | [] => .ok none
  | raws =>
    if operator.isScalar ∧ 1 < raws.length then .error (.decode key (.singleValued operator))
    else
      let values ← raws.mapM (coerce column key)
      .ok (some ⟨operator, values⟩)

/-- Decode the pattern of a column: the same text unless the request says otherwise. -/
def decodePattern (params : Params) (column : Column) : Except Failure (Option MatchFilter) := do
  refuse params column column.type.supportsMatch Facet.ofPattern .matchUnsupported
  let mode ← decodeLiteral params (Facet.patternMode.key column.name) MatchMode.ofLiteral?
    .unknownPattern .exact
  match params.getAll (Facet.pattern.key column.name) with
  | [] => .ok none
  | texts => .ok (some ⟨mode, texts⟩)

/-- Decode the constraints on a column, if there are any. -/
def decodeColumn (params : Params) (column : Column) : Except Failure (Option ColumnFilter) := do
  let range ← decodeRange params column
  let list ← decodeList params column
  let pattern ← decodePattern params column
  let filter : ColumnFilter := ⟨column.name, range, list, pattern⟩
  .ok (if filter.isActive then some filter else none)

/-- Decode the constraints on columns, in order. -/
def decodeColumns (params : Params) : List Column → Except Failure (List ColumnFilter)
  | [] => .ok []
  | column :: rest => do
    let filter ← decodeColumn params column
    let filters ← decodeColumns params rest
    .ok (filter.toList ++ filters)

/-- Decode the window. -/
def decodeWindow (params : Params) (settings : Settings) : Except Failure Window := do
  let limit ← params.single limitKey
  let offset ← params.single offsetKey
  Window.read settings limit offset

/-- Decode a request for a table. Relationships are taken once each, in order. -/
def decode (params : Params) (table : Table) (settings : Settings) : Except Failure Request := do
  let filters ← decodeColumns params table.columns
  let window ← decodeWindow params settings
  let order ← SortKey.readAll (params.getSplit orderKey)
  .ok ⟨filters, window, order, (params.getSplit relationshipKey).eraseDups⟩

end Request

end TableQuery
