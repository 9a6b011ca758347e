import TableQuery.Failure
import TableQuery.Text.Blank
import TableQuery.Text.Percent

/-!
# Request parameters

The decoded name and value pairs of one request, in order. A name may occur any number of times, so
the pairs are a list and not a map.
-/

namespace TableQuery

/-- The parameters of a request. -/
structure Params where
  pairs : List (String × String) := []
  deriving DecidableEq

namespace Params

/-- The parameters of a query text. -/
def ofQuery (query : String) : Params := ⟨Text.formPairs query⟩

/-- The values under a key, in order. -/
def getAll (params : Params) (key : String) : List String :=
  (params.pairs.filter fun pair => pair.1 = key).map Prod.snd

/-- Whether a key occurs. -/
def contains (params : Params) (key : String) : Bool := params.pairs.any fun pair => pair.1 = key

/-- The value under a key that may occur once. -/
def single (params : Params) (key : String) : Except Failure (Option String) :=
  match params.getAll key with
  | [] => .ok none
  | [value] => .ok (some value)
  | _ => .error (.decode key .repeated)

/-- The entries of a comma-separated value, without blanks around them and without empty ones. -/
def splitEntries (value : String) : List String :=
  ((value.toList.splitOn ',').map Text.trimBlanks).filterMap fun entry =>
    if entry = [] then none else some (String.ofList entry)

/-- The entries of all values under a key, in order. -/
def getSplit (params : Params) (key : String) : List String :=
  (params.getAll key).flatMap splitEntries

/-- A key occurs exactly when it has values. -/
theorem contains_eq_false_iff (params : Params) (key : String) :
    params.contains key = false ↔ params.getAll key = [] := by
  simp [contains, getAll, List.filter_eq_nil_iff]

end Params

end TableQuery
