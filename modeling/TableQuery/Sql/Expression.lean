import TableQuery.Predicate

/-!
# SQL conditions

The conditions that predicates become in a statement. Values of a request are bound: they stand in a
condition as data and not as text. A predicate first becomes a condition whose groups have any
number of members, and a condition an expression whose junctions have two operands.
-/

namespace TableQuery.Sql

/-- A value bound to a statement. -/
inductive Bound where
  /-- A small number that the statement itself needs. -/
  | number (n : Nat)
  /-- A limit or an offset. -/
  | word (n : Nat)
  /-- A value of a filter. -/
  | value (v : Value)
  deriving DecidableEq

/-- What a comparison compares. -/
inductive Term where
  | column (name : String)
  | bound (b : Bound)
  /-- A text with its capitals folded. -/
  | lower (t : Term)
  /-- The place of one text in another, 0 when it does not occur. -/
  | position (within wanted : Term)
  deriving DecidableEq

/-- A comparison of two terms. -/
inductive Comparison where
  | greater
  | greaterOrEqual
  | less
  | lessOrEqual
  | equal
  | notEqual
  deriving DecidableEq

/-- How conditions are joined. -/
inductive Junction where
  | and
  | or
  deriving DecidableEq

/-- A condition as it stands in a statement. -/
inductive Expression where
  | constant (truth : Bool)
  | compare (op : Comparison) (left right : Term)
  | isIn (t : Term) (values : List Bound) (negated : Bool)
  | join (junction : Junction) (left right : Expression)
  deriving DecidableEq

/-- A condition with groups of any number of members. -/
inductive Condition where
  | leaf (e : Expression)
  | group (junction : Junction) (members : List Condition)

/-- The comparison of a range operator. -/
def Comparison.ofRange : RangeOperator → Comparison
  | .greater => greater
  | .greaterOrEqual => greaterOrEqual
  | .less => less
  | .lessOrEqual => lessOrEqual

namespace Condition

/-- A group with a single member is replaced by that member when it is put into another group. -/
def unwrap : Condition → Condition
  | group _ [only] => only
  | c => c

/-- The condition of a comparison with a value. -/
def ofCompare (column : String) (operator : RangeOperator) (v : Value) : Expression :=
  .compare (.ofRange operator) (.column column) (.bound (.value v))

/-- The condition of a membership: a single value is compared with, and without values the condition
compares two different numbers, or two equal ones when negated. -/
def ofMembership (column : String) (values : List Value) (negated : Bool) : Expression :=
  match values with
  | [] => .compare .equal (.bound (.number 1)) (.bound (.number (if negated then 1 else 2)))
  | [v] => .compare (if negated then .notEqual else .equal) (.column column) (.bound (.value v))
  | values => .isIn (.column column) (values.map .value) negated

/-- The condition of a text match. -/
def ofText (column : String) (mode : MatchMode) (wanted : String) : Expression :=
  let stored := Term.column column
  let wanted := Term.bound (.value (.text wanted))
  match mode with
  | .exact => .compare .equal stored wanted
  | .folded => .compare .equal (.lower stored) (.lower wanted)
  | .contains => .compare .greater (.position stored wanted) (.bound (.number 0))

mutual

/-- The condition of a predicate, which is always a group. -/
def ofPredicate : Predicate → Condition
  | .always => group .and []
  | .and parts => group .and (ofParts parts)
  | .or parts => group .or (ofParts parts)
  | .compare column operator v => group .and [leaf (ofCompare column operator v)]
  | .membership column values negated => group .and [leaf (ofMembership column values negated)]
  | .text column mode wanted => group .and [leaf (ofText column mode wanted)]

/-- The members of a group. -/
def ofParts : List Predicate → List Condition
  | [] => []
  | part :: rest => (ofPredicate part).unwrap :: ofParts rest

end

/-- Expressions joined from the left; without any, the constant that is neutral for the junction. -/
def joinAll (junction : Junction) : List Expression → Expression
  | [] => .constant (junction = .and)
  | first :: rest => rest.foldl (.join junction) first

mutual

/-- A condition as an expression. -/
def expression : Condition → Expression
  | leaf e => e
  | group junction members => joinAll junction (expressions members)

/-- The expressions of members. -/
def expressions : List Condition → List Expression
  | [] => []
  | member :: rest => expression member :: expressions rest

end

end Condition

/-- A predicate as an expression. -/
def Expression.ofPredicate (p : Predicate) : Expression := (Condition.ofPredicate p).expression

end TableQuery.Sql
