import TableQuery.Request.Condition
import TableQuery.Schema.Registry

/-!
# Queries and plans

A query selects the rows of one table that satisfy a predicate, in an order, inside a window. A plan
holds the query of the total, the query of the page and the relationships to expand. Both queries get
the same predicate, and that of the total has nothing else, so it depends on neither order nor window.
Everything is checked here, before any source is asked.
-/

namespace TableQuery

/-- A query for the number of rows of one table. -/
structure CountQuery where
  predicate : Predicate

/-- A query for rows of one table; without sort keys they come in stored order. -/
structure SelectQuery where
  predicate : Predicate
  order : List SortKey := []
  window : Window := .unbounded

namespace SelectQuery

/-- The rows that a relationship leads to from the given values, all of them, by primary key. -/
def related (target : Table) (r : Relationship) (keys : List Value) : SelectQuery where
  predicate := .isIn r.targetColumn keys
  order := target.primaryKey.map fun column => ⟨column, .ascending⟩
  window := .unbounded

end SelectQuery

/-- What has to be asked to answer one listing. -/
structure Plan where
  table : String
  count : CountQuery
  page : SelectQuery
  relationships : List Relationship

namespace Plan

/-- The condition of the rows that count. -/
def predicate (plan : Plan) : Predicate := plan.count.predicate

end Plan

namespace Registry

/-- The relationship of a name on a table, if its target is registered. -/
def relationship? (registry : Registry) (table : Table) (name : String) : Option Relationship :=
  (table.relationship? name).filter fun r => (registry.table? r.target).isSome

/-- Find every relationship of a request; the first that is not there is reported. -/
def resolveRelationships (registry : Registry) (table : Table) :
    List String → Except Failure (List Relationship)
  | [] => .ok []
  | name :: rest =>
    match registry.relationship? table name with
    | none => .error (.relationship name table.name)
    | some r => do
      let more ← registry.resolveRelationships table rest
      .ok (r :: more)

/-- Plan a listing of a table whose rows also satisfy `scope`. -/
def plan (registry : Registry) (table : Table) (request : Request) (scope : Predicate) :
    Except Failure Plan := do
  let order ← SortKey.resolve table request.order
  let relationships ← registry.resolveRelationships table request.relationships
  let predicate := .all [request.predicate, scope]
  .ok {
    table := table.name
    count := ⟨predicate⟩
    page := ⟨predicate, order, request.window⟩
    relationships }

end Registry

end TableQuery
