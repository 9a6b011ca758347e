import TableQuery.Source.Fetch

/-!
# Runs of a computation

What a run gives, part by part, and which questions a computation can ask at all. A question is
reachable when some answers to the questions before it lead there; every source is asked reachable
questions only. Two sources that answer the reachable questions alike give the same outcome.
-/

namespace TableQuery.Fetch

variable {α β : Type} {source other : RowSource} {fetch : Fetch α} {f : α → Fetch β} {call : Call}

/-! ## Outcomes -/

/-- The outcome of a result. -/
@[simp] theorem outcome_done (a : α) : (done a : Fetch α).outcome source = .ok a := rfl

/-- The outcome of a failure. -/
@[simp] theorem outcome_fail (failure : Failure) :
    (fail failure : Fetch α).outcome source = .error failure := rfl

/-- The outcome of a computation that asks nothing. -/
@[simp] theorem outcome_ofExcept (result : Except Failure α) :
    (ofExcept result).outcome source = result := by
  cases result <;> rfl

/-- The outcome of asking for a count is what the source answers. -/
@[simp] theorem outcome_askCount (table : Table) (query : CountQuery) :
    (askCount table query).outcome source = source.count table query.predicate := by
  unfold askCount outcome run
  cases source.count table query.predicate <;> rfl

/-- The outcome of asking for rows is what the source answers. -/
@[simp] theorem outcome_askSelect (table : Table) (query : SelectQuery) :
    (askSelect table query).outcome source = source.select table query := by
  unfold askSelect outcome run
  cases source.select table query <;> rfl

/-- The outcome of two parts one after the other. -/
@[simp] theorem outcome_bind (fetch : Fetch α) (f : α → Fetch β) :
    (fetch >>= f).outcome source = fetch.outcome source >>= fun a => (f a).outcome source := by
  change ((fetch.bind f).run source).1 = _
  rw [run_bind]
  unfold outcome
  rcases fetch.run source with ⟨_ | a, calls⟩ <;> rfl

/-- After a part that succeeds, the outcome is that of what follows. -/
theorem outcome_bind_of_ok {a : α} (h : fetch.outcome source = .ok a) (f : α → Fetch β) :
    (fetch >>= f).outcome source = (f a).outcome source := by
  rw [outcome_bind, h]
  rfl

/-- After a result that asks nothing comes what follows. -/
theorem ofExcept_ok_bind (a : α) (f : α → Fetch β) : (ofExcept (.ok a) >>= f) = f a := rfl

/-- After a failure that asks nothing comes nothing. -/
theorem ofExcept_error_bind (failure : Failure) (f : α → Fetch β) :
    (ofExcept (.error failure) >>= f) = fail failure := rfl

/-! ## Questions asked -/

/-- A result asks nothing. -/
@[simp] theorem calls_done (a : α) : (done a : Fetch α).calls source = [] := rfl

/-- Asking for a count is one question. -/
@[simp] theorem calls_askCount (table : Table) (query : CountQuery) :
    (askCount table query).calls source = [.count table query.predicate] := by
  unfold askCount calls run
  cases source.count table query.predicate <;> rfl

/-- Asking for rows is one question. -/
@[simp] theorem calls_askSelect (table : Table) (query : SelectQuery) :
    (askSelect table query).calls source = [.select table query] := by
  unfold askSelect calls run
  cases source.select table query <;> rfl

/-- The questions of two parts are those of the first and, when it succeeds, those of what follows. -/
theorem calls_bind (fetch : Fetch α) (f : α → Fetch β) :
    (fetch >>= f).calls source = fetch.calls source ++
      match fetch.outcome source with
      | .ok a => (f a).calls source
      | .error _ => [] := by
  change ((fetch.bind f).run source).2 = _
  rw [run_bind]
  unfold outcome calls
  rcases fetch.run source with ⟨_ | a, asked⟩
  · exact (List.append_nil asked).symm
  · rfl

/-- After a part that succeeds come the questions of what follows. -/
theorem calls_bind_of_ok {a : α} (h : fetch.outcome source = .ok a) (f : α → Fetch β) :
    (fetch >>= f).calls source = fetch.calls source ++ (f a).calls source := by
  rw [calls_bind, h]

/-! ## Reachable questions -/

/-- A computation can ask a question: at once, or after some answer to its first question. -/
inductive Reaches : {α : Type} → Fetch α → Call → Prop
  | count {α : Type} (table : Table) (predicate : Predicate) (next : Nat → Fetch α) :
      Reaches (.count table predicate next) (.count table predicate)
  | select {α : Type} (table : Table) (query : SelectQuery) (next : List Row → Fetch α) :
      Reaches (.select table query next) (.select table query)
  | afterCount {α : Type} {table : Table} {predicate : Predicate} {next : Nat → Fetch α} {call : Call}
      (n : Nat) (later : Reaches (next n) call) : Reaches (.count table predicate next) call
  | afterSelect {α : Type} {table : Table} {query : SelectQuery} {next : List Row → Fetch α}
      {call : Call} (rows : List Row) (later : Reaches (next rows) call) :
      Reaches (.select table query next) call

/-- Nothing is asked after a result. -/
theorem not_reaches_done {a : α} : ¬ Reaches (done a) call := by
  intro h
  cases h

/-- Nothing is asked after a failure. -/
theorem not_reaches_fail {failure : Failure} : ¬ Reaches (fail failure : Fetch α) call := by
  intro h
  cases h

/-- Asking for a count reaches this question only. -/
theorem eq_of_reaches_askCount {table : Table} {query : CountQuery}
    (h : Reaches (askCount table query) call) : call = .count table query.predicate := by
  cases h with
  | count => rfl
  | afterCount n later => exact absurd later not_reaches_done

/-- Asking for rows reaches this question only. -/
theorem eq_of_reaches_askSelect {table : Table} {query : SelectQuery}
    (h : Reaches (askSelect table query) call) : call = .select table query := by
  cases h with
  | select => rfl
  | afterSelect rows later => exact absurd later not_reaches_done

/-- Some answers lead a computation to a result. -/
inductive Yields {α : Type} : Fetch α → α → Prop
  | done (a : α) : Yields (.done a) a
  | afterCount {table : Table} {predicate : Predicate} {next : Nat → Fetch α} {a : α} (n : Nat)
      (later : Yields (next n) a) : Yields (.count table predicate next) a
  | afterSelect {table : Table} {query : SelectQuery} {next : List Row → Fetch α} {a : α}
      (rows : List Row) (later : Yields (next rows) a) : Yields (.select table query next) a

/-- The result of two parts is one of the second, after a result of the first. -/
theorem yields_bind {b : β} (h : Yields (fetch >>= f) b) : ∃ a, Yields fetch a ∧ Yields (f a) b := by
  induction fetch with
  | done a => exact ⟨a, .done a, h⟩
  | fail failure => contradiction
  | count table predicate next ih =>
    cases h with
    | afterCount n later =>
      obtain ⟨a, hfirst, hsecond⟩ := ih n later
      exact ⟨a, .afterCount n hfirst, hsecond⟩
  | select table query next ih =>
    cases h with
    | afterSelect rows later =>
      obtain ⟨a, hfirst, hsecond⟩ := ih rows later
      exact ⟨a, .afterSelect rows hfirst, hsecond⟩

/-- A question of two parts is one of the first, or one of the second after a result of the first. -/
theorem reaches_bind (h : Reaches (fetch >>= f) call) :
    Reaches fetch call ∨ ∃ a, Yields fetch a ∧ Reaches (f a) call := by
  induction fetch with
  | done a => exact Or.inr ⟨a, .done a, h⟩
  | fail failure => exact absurd h not_reaches_fail
  | count table predicate next ih =>
    cases h with
    | count => exact Or.inl (.count table predicate next)
    | afterCount n later =>
      rcases ih n later with hfirst | ⟨a, hyields, hsecond⟩
      · exact Or.inl (.afterCount n hfirst)
      · exact Or.inr ⟨a, .afterCount n hyields, hsecond⟩
  | select table query next ih =>
    cases h with
    | select => exact Or.inl (.select table query next)
    | afterSelect rows later =>
      rcases ih rows later with hfirst | ⟨a, hyields, hsecond⟩
      · exact Or.inl (.afterSelect rows hfirst)
      · exact Or.inr ⟨a, .afterSelect rows hyields, hsecond⟩

/-- A question after a computation that asks nothing comes after its result. -/
theorem reaches_ofExcept_bind {result : Except Failure α}
    (h : Reaches (ofExcept result >>= f) call) : ∃ a, result = .ok a ∧ Reaches (f a) call := by
  cases result with
  | ok a => exact ⟨a, rfl, h⟩
  | error failure => exact absurd h not_reaches_fail

/-- Every question that is asked of a source is reachable. -/
theorem reaches_of_mem_calls (h : call ∈ fetch.calls source) : fetch.Reaches call := by
  induction fetch with
  | done a => contradiction
  | fail failure => contradiction
  | count table predicate next ih =>
    unfold calls run at h
    split at h
    · rw [List.mem_singleton.1 h]
      exact .count table predicate next
    next n _ =>
      rcases List.mem_cons.1 h with rfl | h
      · exact .count table predicate next
      · exact .afterCount n (ih n h)
  | select table query next ih =>
    unfold calls run at h
    split at h
    · rw [List.mem_singleton.1 h]
      exact .select table query next
    next rows _ =>
      rcases List.mem_cons.1 h with rfl | h
      · exact .select table query next
      · exact .afterSelect rows (ih rows h)

/-- Two sources answer a question alike. -/
def Agree (source other : RowSource) : Call → Prop
  | .count table predicate => source.count table predicate = other.count table predicate
  | .select table query => source.select table query = other.select table query

/-- Sources that answer every reachable question alike lead to the same outcome. -/
theorem outcome_congr (h : ∀ call, fetch.Reaches call → Agree source other call) :
    fetch.outcome source = fetch.outcome other := by
  induction fetch with
  | done a => rfl
  | fail failure => rfl
  | count table predicate next ih =>
    have hfirst : source.count table predicate = other.count table predicate :=
      h _ (.count table predicate next)
    unfold outcome run
    rw [hfirst]
    cases other.count table predicate with
    | error failure => rfl
    | ok n => exact ih n fun call later => h call (.afterCount n later)
  | select table query next ih =>
    have hfirst : source.select table query = other.select table query :=
      h _ (.select table query next)
    unfold outcome run
    rw [hfirst]
    cases other.select table query with
    | error failure => rfl
    | ok rows => exact ih rows fun call later => h call (.afterSelect rows later)

end TableQuery.Fetch
