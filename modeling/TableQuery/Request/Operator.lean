import TableQuery.Text.Ascii
import TableQuery.Text.Split

/-!
# Operators and matching modes

The comparisons that filters use, each with the literal that names it in a request. Literals are
case-sensitive.
-/

namespace TableQuery

/-- The comparison of a range bound. -/
inductive RangeOperator where
  | greater
  | greaterOrEqual
  | less
  | lessOrEqual
  deriving DecidableEq

namespace RangeOperator

/-- All range operators. -/
def all : List RangeOperator := [greater, greaterOrEqual, less, lessOrEqual]

/-- The literal of a range operator. -/
def literal : RangeOperator → String
  | greater => "Greater_than"
  | greaterOrEqual => "Greater_than_or_equal_to"
  | less => "Less_than"
  | lessOrEqual => "Less_than_or_equal_to"

/-- The range operator with a given literal. -/
def ofLiteral? (literal : String) : Option RangeOperator := all.find? fun op => op.literal = literal

/-- Whether an operator accepts the order of a value relative to its bound. -/
def accepts : RangeOperator → Ordering → Bool
  | greater, order => order = .gt
  | greaterOrEqual, order => order ≠ .lt
  | less, order => order = .lt
  | lessOrEqual, order => order ≠ .gt

/-- Every range operator is found by its literal. -/
theorem ofLiteral?_literal (op : RangeOperator) : ofLiteral? op.literal = some op := by
  cases op <;> decide

end RangeOperator

/-- The comparison of a list filter. -/
inductive ListOperator where
  | isIn
  | notIn
  | equal
  | notEqual
  deriving DecidableEq

namespace ListOperator

/-- All list operators. -/
def all : List ListOperator := [isIn, notIn, equal, notEqual]

/-- The literal of a list operator. -/
def literal : ListOperator → String
  | isIn => "In"
  | notIn => "Not_in"
  | equal => "Equal"
  | notEqual => "Not_equal"

/-- The list operator with a given literal. -/
def ofLiteral? (literal : String) : Option ListOperator := all.find? fun op => op.literal = literal

/-- Whether an operator takes exactly one value. -/
def isScalar : ListOperator → Bool
  | equal | notEqual => true
  | isIn | notIn => false

/-- Whether an operator excludes the listed values. -/
def isNegated : ListOperator → Bool
  | notIn | notEqual => true
  | isIn | equal => false

/-- Every list operator is found by its literal. -/
theorem ofLiteral?_literal (op : ListOperator) : ofLiteral? op.literal = some op := by
  cases op <;> decide

end ListOperator

/-- How a text is matched. -/
inductive MatchMode where
  | exact
  | folded
  | contains
  deriving DecidableEq

namespace MatchMode

/-- All matching modes. -/
def all : List MatchMode := [exact, folded, contains]

/-- The literal of a matching mode. -/
def literal : MatchMode → String
  | exact => "case_sensitive"
  | folded => "case_insensitive"
  | contains => "contains"

/-- The matching mode with a given literal. -/
def ofLiteral? (literal : String) : Option MatchMode := all.find? fun mode => mode.literal = literal

/-- Whether a stored text matches a wanted one: the same text, the same text once ASCII capitals
are folded, or a text that holds the wanted one. -/
def accepts : MatchMode → String → String → Bool
  | exact, stored, wanted => stored = wanted
  | folded, stored, wanted => Text.foldCase stored = Text.foldCase wanted
  | contains, stored, wanted => Text.occursIn wanted.toList stored.toList

/-- Every matching mode is found by its literal. -/
theorem ofLiteral?_literal (mode : MatchMode) : ofLiteral? mode.literal = some mode := by
  cases mode <;> decide

end MatchMode

end TableQuery
