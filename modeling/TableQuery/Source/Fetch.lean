import TableQuery.Plan

/-!
# Asking a row source

A row source answers two questions about a table: how many rows satisfy a predicate, and which rows
a query selects. A computation that asks such questions is a tree: what to ask next may depend on
the answers so far. Running it against a source gives its outcome and the questions asked, in order;
it ends at the first failure.
-/

namespace TableQuery

/-- A question to a row source. -/
inductive Call where
  | count (table : Table) (predicate : Predicate)
  | select (table : Table) (query : SelectQuery)

/-- A row source. -/
structure RowSource where
  count : Table → Predicate → Except Failure Nat
  select : Table → SelectQuery → Except Failure (List Row)

/-- A computation that asks a row source. -/
inductive Fetch (α : Type) where
  | done (result : α)
  | fail (failure : Failure)
  | count (table : Table) (predicate : Predicate) (next : Nat → Fetch α)
  | select (table : Table) (query : SelectQuery) (next : List Row → Fetch α)

namespace Fetch

variable {α β : Type}

/-- Continue with the result of a computation. -/
def bind : Fetch α → (α → Fetch β) → Fetch β
  | done a, f => f a
  | fail failure, _ => fail failure
  | count table predicate next, f => count table predicate fun n => (next n).bind f
  | select table query next, f => select table query fun rows => (next rows).bind f

instance : Monad Fetch where
  pure := done
  bind := bind

/-- A computation that asks nothing. -/
def ofExcept : Except Failure α → Fetch α
  | .ok a => done a
  | .error failure => fail failure

/-- Ask for the number of rows that a query counts. -/
def askCount (table : Table) (query : CountQuery) : Fetch Nat := count table query.predicate done

/-- Ask for the rows that a query selects. -/
def askSelect (table : Table) (query : SelectQuery) : Fetch (List Row) := select table query done

/-- The outcome against a source, and the questions asked. -/
def run (source : RowSource) : Fetch α → Except Failure α × List Call
  | done a => (.ok a, [])
  | fail failure => (.error failure, [])
  | count table predicate next =>
    match source.count table predicate with
    | .error failure => (.error failure, [.count table predicate])
    | .ok n =>
      let (outcome, calls) := (next n).run source
      (outcome, .count table predicate :: calls)
  | select table query next =>
    match source.select table query with
    | .error failure => (.error failure, [.select table query])
    | .ok rows =>
      let (outcome, calls) := (next rows).run source
      (outcome, .select table query :: calls)

/-- The outcome against a source. -/
def outcome (source : RowSource) (fetch : Fetch α) : Except Failure α := (fetch.run source).1

/-- The questions asked of a source. -/
def calls (source : RowSource) (fetch : Fetch α) : List Call := (fetch.run source).2

/-- Continuing asks the questions of the first part, then those of the second. -/
theorem run_bind (source : RowSource) (fetch : Fetch α) (f : α → Fetch β) :
    (fetch.bind f).run source =
      match fetch.run source with
      | (.ok a, calls) => (((f a).run source).1, calls ++ ((f a).run source).2)
      | (.error failure, calls) => (.error failure, calls) := by
  induction fetch with
  | done a => rfl
  | fail failure => rfl
  | count table predicate next ih =>
    simp only [bind, run]
    cases source.count table predicate with
    | error failure => rfl
    | ok n =>
      simp only [ih n]
      rcases (next n).run source with ⟨_ | a, calls⟩ <;> rfl
  | select table query next ih =>
    simp only [bind, run]
    cases source.select table query with
    | error failure => rfl
    | ok rows =>
      simp only [ih rows]
      rcases (next rows).run source with ⟨_ | a, calls⟩ <;> rfl

end Fetch

end TableQuery
