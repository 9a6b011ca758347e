import TableQuery.Decimal.Binary64
import TableQuery.Decimal.Digits

/-!
# JSON values

Integers are exact and apart from floating-point numbers, and the members of an object keep their
order.
-/

namespace TableQuery

/-- A JSON value. -/
inductive Json where
  | null
  | bool (value : Bool)
  | int (value : Int)
  | float (value : Binary64)
  | str (value : String)
  | arr (items : List Json)
  | obj (members : List (String × Json))
  deriving Inhabited

namespace Json

/-- Set a member: in place when the name occurs, at the end otherwise. -/
def setMember (name : String) (value : Json) : List (String × Json) → List (String × Json)
  | [] => [(name, value)]
  | member :: rest =>
    if member.1 = name then (name, value) :: rest else member :: setMember name value rest

/-- The member of an object under a name. -/
def member? : Json → String → Option Json
  | .obj members, name => members.lookup name
  | _, _ => none

/-- The 64-bit integer that an integer value denotes. -/
def toInt64? : Json → Option Int64
  | .int n => Decimal.toInt64? n
  | _ => none

/-- The number of 64 bits that an integer value denotes. -/
def toWord? : Json → Option Nat
  | .int n => if 0 ≤ n ∧ n < Decimal.wordBound then some n.toNat else none
  | _ => none

/-- The datum nearest to a number. It is finite: JSON writes no number that is out of range. -/
def toBinary64? : Json → Option Binary64
  | .int n => some (.ofInt n) |>.filter Binary64.isFinite
  | .float x => some x |>.filter Binary64.isFinite
  | _ => none

/-- A 64-bit integer. -/
def ofInt64 (n : Int64) : Json := .int n.toInt

/-- A number; what is not finite has no JSON form and becomes null. -/
def ofBinary64 (x : Binary64) : Json := if x.isFinite then .float x else .null

/-- Setting a member keeps the names when it replaces, and appends its name otherwise. -/
theorem map_fst_setMember (name : String) (value : Json) (members : List (String × Json)) :
    (setMember name value members).map Prod.fst =
      if name ∈ members.map Prod.fst then members.map Prod.fst
      else members.map Prod.fst ++ [name] := by
  induction members with
  | nil => simp [setMember]
  | cons first rest ih =>
    simp only [setMember]
    by_cases h : first.1 = name
    · simp [h]
    · simp only [h, if_false, List.map_cons, ih, List.mem_cons, Ne.symm h, false_or]
      split <;> simp

/-- A set member is found under its name, and every other name keeps its value. -/
theorem lookup_setMember (name other : String) (value : Json) (members : List (String × Json)) :
    (setMember name value members).lookup other =
      if other = name then some value else members.lookup other := by
  induction members with
  | nil =>
    by_cases h : other = name
    · simp [setMember, h]
    · simp [setMember, h, List.lookup_cons, beq_false_of_ne h]
  | cons first rest ih =>
    obtain ⟨key, current⟩ := first
    simp only [setMember]
    split
    next heq =>
      subst heq
      by_cases h : other = key
      · simp [h]
      · simp [h, List.lookup_cons, beq_false_of_ne h]
    next hne =>
      simp only [List.lookup_cons, ih]
      by_cases h : other = name
      · subst h; simp [beq_false_of_ne (Ne.symm hne)]
      · simp [h]

end Json

end TableQuery
