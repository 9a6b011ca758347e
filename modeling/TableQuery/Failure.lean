import TableQuery.Request.Operator
import TableQuery.Schema.Problem
import TableQuery.Value.Text

/-!
# Failures

Everything that can go wrong with a request, as causes. A cause has one message, and a failure one
HTTP status. What a database or a faulty set-up reports stays inside: the message is general.
-/

namespace TableQuery

/-- Why a parameter does not decode. -/
inductive DecodeFault where
  /-- A parameter that may occur once occurs again. -/
  | repeated
  /-- The text is no value of the column's type. -/
  | unreadable (type : ColumnType) (raw : String)
  /-- No comparison has this literal. -/
  | unknownComparison (literal : String)
  /-- No matching mode has this literal. -/
  | unknownPattern (literal : String)
  /-- The column's type has no ranges. -/
  | rangeUnsupported (column : String)
  /-- The column's type is not matched against patterns. -/
  | matchUnsupported (column : String)
  /-- The operator takes one value and several are given. -/
  | singleValued (operator : ListOperator)
  /-- A reason given in words. -/
  | stated (reason : String)
  deriving DecidableEq

/-- Why a request cannot be planned. -/
inductive PlanFault where
  /-- A sort entry ends in no known direction. -/
  | sortDirection (direction entry : String)
  /-- A sort entry names no column. -/
  | sortColumnMissing (entry : String)
  /-- A column is sorted by twice. -/
  | sortColumnRepeated (column : String)
  /-- The table has no such column to sort by. -/
  | sortColumnUnknown (column table : String)
  /-- A window parameter is no natural number below `2 ^ 64`. -/
  | notNatural (parameter raw : String)
  /-- The limit is above the configured maximum. -/
  | limitExceeded (maximum limit : Nat)
  /-- The table's key has several columns, so one identifier cannot address a row. -/
  | compositeKey (table : String)
  /-- A reason given in words. -/
  | stated (reason : String)
  deriving DecidableEq

/-- Why the engine itself is at fault. -/
inductive InternalFault where
  /-- The registry has problems. -/
  | invalidRegistry (problems : List Problem)
  /-- The configured header name is no header name. -/
  | invalidHeader
  /-- A reason given in words, and details kept from the client. -/
  | stated (message : String) (detail : Option String)
  deriving DecidableEq

/-- A failed request. -/
inductive Failure where
  | decode (parameter : String) (fault : DecodeFault)
  | plan (fault : PlanFault)
  | relationship (name table : String)
  | notFound (resource : String) (id : Option String)
  | database (cause : String)
  | internal (fault : InternalFault)
  deriving DecidableEq

/-- A decoding fault in words. -/
def DecodeFault.message : DecodeFault → String
  | repeated => "expected a single value"
  | unreadable type raw => Value.unreadable type raw
  | unknownComparison literal => "unknown comparison operator '" ++ literal ++ "'"
  | unknownPattern literal => "unknown matching pattern '" ++ literal ++ "'"
  | rangeUnsupported column => "Range filtering is not supported on column '" ++ column ++ "'"
  | matchUnsupported column => "String filtering is not supported on column '" ++ column ++ "'"
  | singleValued operator => "'" ++ operator.literal ++ "' compares against a single value"
  | stated reason => reason

/-- A planning fault in words. -/
def PlanFault.message : PlanFault → String
  | sortDirection direction entry =>
    "Invalid sort direction '" ++ direction ++ "' in '" ++ entry ++ "', expected ASC or DESC"
  | sortColumnMissing entry => "Missing column name in sort entry '" ++ entry ++ "'"
  | sortColumnRepeated column => "Sort column '" ++ column ++ "' is listed more than once"
  | sortColumnUnknown column table => "Unknown sort column '" ++ column ++ "' for '" ++ table ++ "'"
  | notNatural parameter raw =>
    "'" ++ parameter ++ "' must be a non-negative integer, got '" ++ raw ++ "'"
  | limitExceeded maximum limit =>
    "'limit' must not exceed " ++ decimal maximum ++ ", got " ++ decimal limit
  | compositeKey table =>
    "'" ++ table ++ "' has a composite primary key and cannot be addressed by a single ID"
  | stated reason => reason
where
  /-- A number in decimal. -/
  decimal (n : Nat) : String := String.ofList (Decimal.writeNat n)

/-- An internal fault in words for the client. -/
def InternalFault.message : InternalFault → String
  | invalidRegistry _ => "Invalid schema registry"
  | invalidHeader => "Invalid response header configuration"
  | stated message _ => message

/-- The details of an internal fault. -/
def InternalFault.detail? : InternalFault → Option String
  | invalidRegistry problems => some (String.intercalate "; " (problems.map Problem.message))
  | invalidHeader => some "invalid HTTP header name"
  | stated _ detail => detail

namespace Failure

/-- A failure in words for the client. -/
def message : Failure → String
  | decode parameter fault => "Invalid value for '" ++ parameter ++ "': " ++ fault.message
  | plan fault => fault.message
  | relationship name table => "'" ++ table ++ "' has no relationship named '" ++ name ++ "'"
  | notFound resource (some id) => resource ++ " with ID '" ++ id ++ "' not found"
  | notFound resource none => resource ++ " not found"
  | database _ => "A database error occurred"
  | internal fault => fault.message

/-- The HTTP status of a failure. -/
def status : Failure → Nat
  | decode _ _ => 422
  | plan _ => 400
  | relationship _ _ => 400
  | notFound _ _ => 404
  | database _ => 500
  | internal _ => 500

/-- Whether the client is at fault. -/
def isClientError (failure : Failure) : Bool := 400 ≤ failure.status && failure.status < 500

/-- What the database reported. -/
def source? : Failure → Option String
  | database cause => some ("Custom Error: " ++ cause)
  | _ => none

/-- A sequence of two steps succeeds exactly when the first does and then the second. -/
theorem bind_eq_ok_iff {α β : Type} {first : Except Failure α} {next : α → Except Failure β} {b : β} :
    (first >>= next) = .ok b ↔ ∃ a, first = .ok a ∧ next a = .ok b := by
  cases first with
  | error failure => simp [bind, Except.bind]
  | ok a => simp [bind, Except.bind]

/-- When a step succeeds for each element in turn, every result is that of an element, and there are
as many results as elements. -/
theorem of_mapM_eq_ok {α β : Type} {step : α → Except Failure β} {items : List α} {results : List β}
    (h : items.mapM step = .ok results) :
    (∀ b ∈ results, ∃ a ∈ items, step a = .ok b) ∧ results.length = items.length := by
  induction items generalizing results with
  | nil =>
    rw [List.mapM_nil] at h
    cases h
    exact ⟨by simp, rfl⟩
  | cons a rest ih =>
    rw [List.mapM_cons] at h
    obtain ⟨b, hb, h⟩ := bind_eq_ok_iff.1 h
    obtain ⟨more, hmore, h⟩ := bind_eq_ok_iff.1 h
    cases h
    obtain ⟨hmem, hlength⟩ := ih hmore
    refine ⟨fun other hother => ?_, by rw [List.length_cons, List.length_cons, hlength]⟩
    rcases List.mem_cons.1 hother with rfl | hother
    · exact ⟨a, List.mem_cons_self, hb⟩
    · obtain ⟨source, hsource, hstep⟩ := hmem other hother
      exact ⟨source, List.mem_cons_of_mem a hsource, hstep⟩

/-- A step that succeeds for every element succeeds for all in turn. -/
theorem mapM_eq_ok {α β : Type} {step : α → Except Failure β} {items : List α} (result : α → β)
    (h : ∀ a ∈ items, step a = .ok (result a)) : items.mapM step = .ok (items.map result) := by
  induction items with
  | nil => rfl
  | cons a rest ih =>
    rw [List.mapM_cons, h a List.mem_cons_self, ih fun b hb => h b (List.mem_cons_of_mem a hb)]
    rfl

end Failure

end TableQuery
