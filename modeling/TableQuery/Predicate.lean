import TableQuery.Cell
import TableQuery.Request.Operator

/-!
# Predicates

Conditions on the rows of one table. A comparison with a cell that has no value never holds, and
neither does its negation. The builders `all` and `any` keep conditions flat.
-/

namespace TableQuery

/-- A condition on the rows of a table. -/
inductive Predicate where
  /-- Holds of every row. -/
  | always
  | and (parts : List Predicate)
  | or (parts : List Predicate)
  /-- The cell compares as the operator says. -/
  | compare (column : String) (operator : RangeOperator) (value : Value)
  /-- The cell has one of the values, or none of them when negated. -/
  | membership (column : String) (values : List Value) (negated : Bool)
  /-- The cell is a text that matches. -/
  | text (column : String) (mode : MatchMode) (wanted : String)

namespace Predicate

/-- Whether a predicate is the one that always holds. -/
def isAlways : Predicate → Bool
  | always => true
  | _ => false

/-- The members that a part contributes to a conjunction: none for the condition that always holds,
the members of a conjunction, and any other part itself. -/
def conjuncts : Predicate → List Predicate
  | always => []
  | and parts => parts
  | part => [part]

/-- The conjunction of members, without a wrapper around a single one. -/
def ofConjuncts : List Predicate → Predicate
  | [] => always
  | [only] => only
  | parts => and parts

/-- A flat conjunction. -/
def all (parts : List Predicate) : Predicate := ofConjuncts (parts.flatMap conjuncts)

/-- A disjunction; a single alternative stands for itself. -/
def any : List Predicate → Predicate
  | [only] => only
  | parts => or parts

/-- The cell has one of the values. -/
def isIn (column : String) (values : List Value) : Predicate := membership column values false

/-- The cell has the value. -/
def eq (column : String) (value : Value) : Predicate := isIn column [value]

/-- A condition on a column that no row satisfies. -/
def noRow (column : String) : Predicate := isIn column []

/-- Whether a cell compares with a value as an operator says; incomparable values do not. -/
def comparesAs (operator : RangeOperator) (stored value : Value) : Bool :=
  (stored.compare? value).any operator.accepts

mutual

/-- Whether a predicate holds of a row of a table. -/
def holds (table : Table) (row : Row) : Predicate → Bool
  | always => true
  | and parts => holdsAll table row parts
  | or parts => holdsAny table row parts
  | compare column operator value =>
    (table.cell? row column).any fun stored => comparesAs operator stored value
  | membership column values negated =>
    (table.cell? row column).any fun stored => values.any (·.equals stored) != negated
  | text column mode wanted =>
    ((table.cell? row column).bind Value.asText?).any fun stored => mode.accepts stored wanted

/-- Whether all parts hold. -/
def holdsAll (table : Table) (row : Row) : List Predicate → Bool
  | [] => true
  | part :: rest => holds table row part && holdsAll table row rest

/-- Whether some part holds. -/
def holdsAny (table : Table) (row : Row) : List Predicate → Bool
  | [] => false
  | part :: rest => holds table row part || holdsAny table row rest

end

/-- All parts hold exactly when each of them does. -/
theorem holdsAll_eq_all (table : Table) (row : Row) (parts : List Predicate) :
    holdsAll table row parts = parts.all (holds table row) := by
  induction parts with
  | nil => rfl
  | cons part rest ih => simp [holdsAll, ih]

/-- Some part holds exactly when one of them does. -/
theorem holdsAny_eq_any (table : Table) (row : Row) (parts : List Predicate) :
    holdsAny table row parts = parts.any (holds table row) := by
  induction parts with
  | nil => rfl
  | cons part rest ih => simp [holdsAny, ih]

/-- A predicate holds exactly when all its conjuncts do. -/
theorem all_conjuncts (table : Table) (row : Row) (p : Predicate) :
    p.conjuncts.all (holds table row) = holds table row p := by
  cases p <;> simp [conjuncts, holds, holdsAll_eq_all]

/-- The conjunction of members holds exactly when all of them do. -/
theorem holds_ofConjuncts (table : Table) (row : Row) (parts : List Predicate) :
    holds table row (ofConjuncts parts) = parts.all (holds table row) := by
  match parts with
  | [] => rfl
  | [_] => simp [ofConjuncts]
  | _ :: _ :: _ => simp [ofConjuncts, holds, holdsAll_eq_all]

end Predicate

end TableQuery
