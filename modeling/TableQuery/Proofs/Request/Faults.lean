import TableQuery.Plan
import TableQuery.Request.Decode

/-!
# Faults of a request

Decoding parameters and planning a request fail for causes that lie with the client. This is followed
through all steps: each of them reports a decoding fault or a planning fault, or passes on what a part
of it reports. A missing relationship is reported by planning only.
-/

namespace TableQuery

namespace Failure

variable {α β : Type} {first step : Except Failure α} {next : α → Except Failure β} {failure : Failure}
  {allowed other : Failure → Prop}

/-- A sequence of two steps fails when the first does, or the second after it. -/
theorem bind_eq_error_iff : (first >>= next) = .error failure ↔
    first = .error failure ∨ ∃ a, first = .ok a ∧ next a = .error failure := by
  cases first with
  | error failure => simp [Bind.bind, Except.bind]
  | ok a => simp [Bind.bind, Except.bind]

/-- A step fails in allowed ways only. -/
def FailsOnly (allowed : Failure → Prop) (step : Except Failure α) : Prop :=
  ∀ failure, step = .error failure → allowed failure

namespace FailsOnly

/-- A result is no failure. -/
theorem ok (a : α) : FailsOnly allowed (.ok a) := nofun

/-- An allowed failure is one. -/
theorem error (h : allowed failure) : FailsOnly allowed (.error failure : Except Failure α) := by
  intro other hother
  exact Except.error.inj hother ▸ h

/-- A sequence fails in its first step or in what follows. -/
theorem bind (hfirst : FailsOnly allowed first) (hnext : ∀ a, FailsOnly allowed (next a)) :
    FailsOnly allowed (first >>= next) := by
  intro failure h
  rcases bind_eq_error_iff.1 h with h | ⟨a, _, h⟩
  · exact hfirst failure h
  · exact hnext a failure h

/-- Steps in turn fail in one of them. -/
theorem mapM {step : α → Except Failure β} (h : ∀ a, FailsOnly allowed (step a)) (items : List α) :
    FailsOnly allowed (items.mapM step) := by
  induction items with
  | nil => exact ok []
  | cons a rest ih =>
    rw [List.mapM_cons]
    exact (h a).bind fun b => ih.bind fun more => ok (b :: more)

/-- What fails in some ways only fails in more ways only. -/
theorem imp (h : FailsOnly allowed step) (himp : ∀ failure, allowed failure → other failure) :
    FailsOnly other step := fun failure hfailure => himp failure (h failure hfailure)

end FailsOnly

/-- A step fails only when the client is at fault. -/
def ClientOnly (step : Except Failure α) : Prop := FailsOnly (fun f => f.isClientError = true) step

/-- A fault in a parameter, a window or an order. -/
def IsRequestFault : Failure → Prop
  | decode _ _ | plan _ => True
  | _ => False

/-- A fault in an order, or a missing relationship. -/
def IsPlanningFault : Failure → Prop
  | plan _ | relationship _ _ => True
  | _ => False

/-- A fault in a parameter, a window or an order is the client's. -/
theorem isClientError_of_isRequestFault (h : failure.IsRequestFault) :
    failure.isClientError = true := by
  cases failure <;> first | rfl | exact h.elim

/-- A fault in an order or a missing relationship is the client's. -/
theorem isClientError_of_isPlanningFault (h : failure.IsPlanningFault) :
    failure.isClientError = true := by
  cases failure <;> first | rfl | exact h.elim

end Failure

open Failure (ClientOnly FailsOnly IsRequestFault IsPlanningFault)

/-- A key that occurs once too often is a decoding fault. -/
theorem Params.fails_single (params : Params) (key : String) : FailsOnly IsRequestFault (params.single key) := by
  unfold single
  split
  · exact .ok none
  · exact .ok _
  · exact .error trivial

namespace Request

/-! ## Columns -/

/-- Reading a value fails with a decoding fault. -/
theorem fails_coerce (column : Column) (key raw : String) : FailsOnly IsRequestFault (coerce column key raw) := by
  unfold coerce
  split
  · exact .ok _
  · exact .error trivial

/-- Reading a literal fails with a decoding fault. -/
theorem fails_decodeLiteral {α : Type} (params : Params) (key : String)
    (read : String → Option α) (fault : String → DecodeFault) (default : α) :
    FailsOnly IsRequestFault (decodeLiteral params key read fault default) := by
  refine (params.fails_single key).bind fun given => ?_
  cases given with
  | none => exact .ok default
  | some literal =>
    dsimp only
    split
    · exact .ok _
    · exact .error trivial

/-- Facets are refused with a decoding fault. -/
theorem fails_refuse (params : Params) (column : Column) (supported : Bool)
    (facets : List Facet) (fault : String → DecodeFault) :
    FailsOnly IsRequestFault (refuse params column supported facets fault) := by
  unfold refuse
  split
  · exact .ok ()
  · split
    · exact .error trivial
    · exact .ok ()

/-- One end of a range fails as its operator and its value do. -/
theorem fails_decodeBound (params : Params) (column : Column) (value operator : Facet)
    (default : RangeOperator) : FailsOnly IsRequestFault (decodeBound params column value operator default) := by
  refine (fails_decodeLiteral params _ _ _ default).bind fun _ =>
    (params.fails_single _).bind fun given => ?_
  cases given with
  | none => exact .ok none
  | some raw => exact (fails_coerce column _ raw).bind fun value => .ok _

/-- A range fails as its ends do, or is refused. -/
theorem fails_decodeRange (params : Params) (column : Column) :
    FailsOnly IsRequestFault (decodeRange params column) :=
  (fails_refuse params column _ _ _).bind fun _ =>
    (fails_decodeBound params column _ _ _).bind fun _ =>
      (fails_decodeBound params column _ _ _).bind fun _ => .ok _

/-- A list fails as its operator and its values do, or has too many of them. -/
theorem fails_decodeList (params : Params) (column : Column) :
    FailsOnly IsRequestFault (decodeList params column) := by
  refine (fails_decodeLiteral params _ _ _ _).bind fun operator => ?_
  dsimp only
  split
  · exact .ok none
  · split
    · exact .error trivial
    · exact (FailsOnly.mapM (fails_coerce column _) _).bind fun values => .ok _

/-- A pattern fails as its mode does, or is refused. -/
theorem fails_decodePattern (params : Params) (column : Column) :
    FailsOnly IsRequestFault (decodePattern params column) := by
  refine (fails_refuse params column _ _ _).bind fun _ =>
    (fails_decodeLiteral params _ _ _ _).bind fun mode => ?_
  split
  · exact .ok none
  · exact .ok _

/-- A column fails as its range, its list and its pattern do. -/
theorem fails_decodeColumn (params : Params) (column : Column) :
    FailsOnly IsRequestFault (decodeColumn params column) :=
  (fails_decodeRange params column).bind fun _ => (fails_decodeList params column).bind
    fun _ => (fails_decodePattern params column).bind fun _ => .ok _

/-- Columns in turn fail as one of them does. -/
theorem fails_decodeColumns (params : Params) (columns : List Column) :
    FailsOnly IsRequestFault (decodeColumns params columns) := by
  induction columns with
  | nil => exact .ok []
  | cons first rest ih =>
    exact (fails_decodeColumn params first).bind fun _ => ih.bind fun _ => .ok _

end Request

/-! ## Window, order and relationships -/

/-- A window parameter fails with a planning fault. -/
theorem Window.fails_readNatural (parameter raw : String) :
    FailsOnly IsRequestFault (readNatural parameter raw) := by
  unfold readNatural
  split
  · exact .ok _
  · exact .error trivial

/-- A limit fails with a planning fault. -/
theorem Window.fails_readLimit (settings : Settings) (given : Option String) :
    FailsOnly IsRequestFault (readLimit settings given) := by
  cases given with
  | none => exact .ok _
  | some raw =>
    refine (fails_readNatural "limit" raw).bind fun limit => ?_
    split
    · exact .ok _
    · split
      · exact .error trivial
      · exact .ok _

/-- An offset fails with a planning fault. -/
theorem Window.fails_readOffset (given : Option String) : FailsOnly IsRequestFault (readOffset given) := by
  cases given with
  | none => exact .ok 0
  | some raw => exact fails_readNatural "offset" raw

namespace SortKey

/-- An entry of an order fails with a planning fault. -/
theorem fails_read (entry : String) : FailsOnly IsRequestFault (read entry) := by
  unfold read
  split
  · refine (FailsOnly.ok _).bind fun parts => ?_
    dsimp only
    split
    · exact .error trivial
    · exact .ok _
  · split
    · refine (FailsOnly.ok _).bind fun parts => ?_
      dsimp only
      split
      · exact .error trivial
      · exact .ok _
    · exact .error trivial

/-- An order fails as one of its entries does, or repeats a column. -/
theorem fails_readAfter (seen entries : List String) : FailsOnly IsRequestFault (readAfter seen entries) := by
  induction entries generalizing seen with
  | nil => exact .ok []
  | cons entry rest ih =>
    refine (fails_read entry).bind fun key => ?_
    split
    · exact .error trivial
    · exact (ih (key.column :: seen)).bind fun keys => .ok _

/-- An order by an unknown column fails with a planning fault. -/
theorem fails_resolve (table : Table) (keys : List SortKey) :
    FailsOnly IsPlanningFault (resolve table keys) := by
  unfold resolve
  split
  · exact .error trivial
  · exact .ok _

end SortKey

/-- Decoding fails with a fault in a parameter, the window or the order. -/
theorem Request.fails_decode (params : Params) (table : Table) (settings : Settings) :
    FailsOnly IsRequestFault (decode params table settings) := by
  have hwindow : FailsOnly IsRequestFault (decodeWindow params settings) :=
    (params.fails_single limitKey).bind fun limit =>
      (params.fails_single offsetKey).bind fun offset =>
        (Window.fails_readLimit settings limit).bind fun _ =>
          (Window.fails_readOffset offset).bind fun _ => .ok _
  exact (fails_decodeColumns params table.columns).bind fun filters => hwindow.bind fun window =>
    (SortKey.fails_readAfter [] (params.getSplit orderKey)).bind fun order => .ok _

/-- Decoding fails only when the client is at fault. -/
theorem Request.clientOnly_decode (params : Params) (table : Table) (settings : Settings) :
    ClientOnly (decode params table settings) :=
  (fails_decode params table settings).imp fun _ => Failure.isClientError_of_isRequestFault

namespace Registry

/-- A relationship that is not there is reported. -/
theorem fails_resolveRelationships (registry : Registry) (table : Table) (names : List String) :
    FailsOnly IsPlanningFault (registry.resolveRelationships table names) := by
  induction names with
  | nil => exact .ok []
  | cons name rest ih =>
    unfold resolveRelationships
    split
    · exact .error trivial
    · exact ih.bind fun more => .ok _

/-- Planning fails with a fault in the order or a missing relationship. -/
theorem fails_plan (registry : Registry) (table : Table) (request : Request) (scope : Predicate) :
    FailsOnly IsPlanningFault (registry.plan table request scope) :=
  (SortKey.fails_resolve table request.order).bind fun _ =>
    (registry.fails_resolveRelationships table request.relationships).bind fun _ => .ok _

/-- Planning fails only when the client is at fault. -/
theorem clientOnly_plan (registry : Registry) (table : Table) (request : Request) (scope : Predicate) :
    ClientOnly (registry.plan table request scope) :=
  (registry.fails_plan table request scope).imp fun _ => Failure.isClientError_of_isPlanningFault

end Registry

end TableQuery
