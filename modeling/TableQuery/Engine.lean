import TableQuery.Expansion
import TableQuery.Request.Decode

/-!
# The engine

Listings of a table, single rows by primary key, and listings of the rows linked to one row. Each
request is decoded, planned and checked before the first question to the source; a listing asks for
the total, then for the page unless its limit is 0, then for related rows.
-/

namespace TableQuery

/-- A registry without problems, and settings. -/
structure Engine where
  registry : Registry
  settings : Settings
  valid : registry.validate = .ok ()

namespace Engine

/-- An engine for a registry, which must be valid. -/
def create (registry : Registry) (settings : Settings) : Except Failure Engine :=
  match h : registry.validate with
  | .ok () => .ok ⟨registry, settings, h⟩
  | .error failure => .error failure

/-- The rows of a page; a page with limit 0 is not asked for. -/
def fetchPage (table : Table) (query : SelectQuery) : Fetch (List Row) :=
  if query.window.isEmptyPage then .done [] else .askSelect table query

/-- Carry out a plan. -/
def execute (engine : Engine) (table : Table) (plan : Plan) : Fetch Listing := do
  let total ← .askCount table plan.count
  let rows ← fetchPage table plan.page
  let result ← engine.registry.expand table rows plan.relationships
  .done ⟨total, result⟩

/-- Decode and plan a listing of a table whose rows also satisfy `scope`. -/
def prepare (engine : Engine) (table : Table) (params : Params) (scope : Predicate) :
    Except Failure Plan := do
  let request ← Request.decode params table engine.settings
  engine.registry.plan table request scope

/-- List the rows of a table that also satisfy `scope`. -/
def listScoped (engine : Engine) (table : Table) (params : Params) (scope : Predicate) :
    Fetch Listing := do
  let plan ← .ofExcept (engine.prepare table params scope)
  engine.execute table plan

/-- List the rows of a table. -/
def list (engine : Engine) (table : String) (params : Params) : Fetch Listing := do
  let table ← .ofExcept (engine.registry.require table)
  engine.listScoped table params .always

/-- The column of the primary key and the value that an identifier denotes. -/
def readKey (table : Table) (id : String) : Except Failure (Column × Value) :=
  match table.singleKey? with
  | none => .error (.plan (.compositeKey table.name))
  | some key => do
    let value ← Request.coerce key key.name id
    .ok (key, value)

/-- Decode and plan the lookup of one row; its window and its order do not matter. -/
def prepareOne (engine : Engine) (table : Table) (params : Params) (scope : Predicate) :
    Except Failure Plan := do
  let request ← Request.decode params table engine.settings
  engine.registry.plan table { request with window := .unbounded, order := [] } scope

/-- The row of a table with a primary key, if it satisfies the constraints of the request. -/
def getOne (engine : Engine) (table id : String) (params : Params) : Fetch ResultRow := do
  let table ← .ofExcept (engine.registry.require table)
  let (key, value) ← .ofExcept (readKey table id)
  let plan ← .ofExcept (engine.prepareOne table params (.eq key.name value))
  let rows ← .askSelect table { plan.page with window := .first }
  let result ← engine.registry.expand table rows plan.relationships
  match result with
  | [] => .fail (.notFound table.name (some id))
  | row :: _ => .done row

/-- The query for the row with a primary key. -/
def keyQuery (key : Column) (value : Value) : SelectQuery :=
  ⟨.eq key.name value, [], .first⟩

/-- The condition on child rows that links them to the row with a primary key. A link that does not
go through the key reads its value from that row; without one, no row is linked. -/
def linkScope (parent : Table) (r : Relationship) (key : Column) (value : Value) :
    Fetch Predicate := do
  if r.targetColumn = key.name then .done (.eq r.localColumn value)
  else
    let rows ← .askSelect parent (keyQuery key value)
    match rows.head?.bind fun row => parent.cell? row r.targetColumn with
    | some linked => .done (.eq r.localColumn linked)
    | none => .done (.noRow r.localColumn)

/-- List the rows of a child table that are linked to one row of a parent table. -/
def listNested (engine : Engine) (parent id child : String) (params : Params) : Fetch Listing := do
  let parent ← .ofExcept (engine.registry.require parent)
  let child ← .ofExcept (engine.registry.require child)
  match child.relationshipTo? parent.name with
  | none => .fail (.relationship parent.name child.name)
  | some r =>
    let (key, value) ← .ofExcept (readKey parent id)
    let scope ← linkScope parent r key value
    engine.listScoped child params scope

end Engine

end TableQuery
