import TableQuery.Engine
import TableQuery.Proofs.Schema.Soundness
import TableQuery.Proofs.Source.Runs

/-!
# The steps of a request

Every operation of the engine is taken apart here once. Checks that ask nothing are done before the
first question, so that an operation with acceptable tables and identifier is what it does after them.
A request succeeds, against any source, exactly when each of its steps does.
-/

namespace TableQuery.Engine

variable {engine : Engine} {source : RowSource} {table : Table} {params : Params} {scope : Predicate}
  {name id parentName childName : String} {plan : Plan} {listing : Listing} {result : ResultRow}
  {parent child : Table} {r : Relationship} {key : Column} {value : Value}

/-- A listing of a registered table has no scope. -/
theorem list_eq (htable : engine.registry.table? name = some table) :
    engine.list name params = engine.listScoped table params .always := by
  rw [list, Registry.require_eq_ok_iff.2 htable, Fetch.ofExcept_ok_bind]

/-- A nested listing of acceptable tables and identifier looks for its scope, then lists inside it. -/
theorem listNested_eq (hparent : engine.registry.table? parentName = some parent)
    (hchild : engine.registry.table? childName = some child)
    (hlink : child.relationshipTo? parent.name = some r)
    (hread : readKey parent id = .ok (key, value)) :
    engine.listNested parentName id childName params =
      linkScope parent r key value >>= fun scope => engine.listScoped child params scope := by
  simp only [listNested, Registry.require_eq_ok_iff.2 hparent, Registry.require_eq_ok_iff.2 hchild,
    Fetch.ofExcept_ok_bind, hlink, hread]

/-- A listing is prepared when it is decoded and planned. -/
theorem prepare_eq_ok_iff : engine.prepare table params scope = .ok plan ↔
    ∃ request, Request.decode params table engine.settings = .ok request ∧
      engine.registry.plan table request scope = .ok plan := by
  rw [prepare, Failure.bind_eq_ok_iff]

/-- A listing inside a scope is prepared and carried out. -/
theorem outcome_listScoped_eq_ok_iff :
    (engine.listScoped table params scope).outcome source = .ok listing ↔
      ∃ plan, engine.prepare table params scope = .ok plan ∧
        (engine.execute table plan).outcome source = .ok listing := by
  rw [listScoped, Fetch.outcome_bind, Fetch.outcome_ofExcept, Failure.bind_eq_ok_iff]

/-- A listing is one of a registered table. -/
theorem outcome_list_eq_ok_iff :
    (engine.list name params).outcome source = .ok listing ↔
      ∃ table, engine.registry.table? name = some table ∧
        (engine.listScoped table params .always).outcome source = .ok listing := by
  simp only [list, Fetch.outcome_bind, Fetch.outcome_ofExcept, Failure.bind_eq_ok_iff,
    Registry.require_eq_ok_iff]

/-- The lookup of a row reads the key, prepares the plan, asks for the first row and expands it. -/
theorem outcome_getOne_eq_ok_iff :
    (engine.getOne name id params).outcome source = .ok result ↔
      ∃ table key value plan rows more, engine.registry.table? name = some table ∧
        readKey table id = .ok (key, value) ∧
        engine.prepareOne table params (.eq key.name value) = .ok plan ∧
        source.select table { plan.page with window := .first } = .ok rows ∧
        (engine.registry.expand table rows plan.relationships).outcome source =
          .ok (result :: more) := by
  simp only [getOne, Fetch.outcome_bind, Fetch.outcome_ofExcept, Fetch.outcome_askSelect,
    Failure.bind_eq_ok_iff, Registry.require_eq_ok_iff, Prod.exists]
  constructor
  · intro h
    obtain ⟨table, htable, key, value, hkey, plan, hplan, rows, hrows, results, hresults, h⟩ := h
    cases results with
    | nil => contradiction
    | cons first more =>
      obtain rfl : first = result := Except.ok.inj h
      exact ⟨table, key, value, plan, rows, more, htable, hkey, hplan, hrows, hresults⟩
  · intro h
    obtain ⟨table, key, value, plan, rows, more, htable, hkey, hplan, hrows, hresults⟩ := h
    exact ⟨table, htable, key, value, hkey, plan, hplan, rows, hrows, _, hresults, rfl⟩

/-- A nested listing finds its link, reads the key and the linked value, and lists inside the scope of
the link. -/
theorem outcome_listNested_eq_ok_iff :
    (engine.listNested parentName id childName params).outcome source = .ok listing ↔
      ∃ parent child r key value scope, engine.registry.table? parentName = some parent ∧
        engine.registry.table? childName = some child ∧
        child.relationshipTo? parent.name = some r ∧ readKey parent id = .ok (key, value) ∧
        (linkScope parent r key value).outcome source = .ok scope ∧
        (engine.listScoped child params scope).outcome source = .ok listing := by
  constructor
  · intro h
    simp only [listNested, Fetch.outcome_bind, Fetch.outcome_ofExcept, Failure.bind_eq_ok_iff,
      Registry.require_eq_ok_iff] at h
    obtain ⟨parent, hparent, child, hchild, h⟩ := h
    cases hlink : child.relationshipTo? parent.name with
    | none =>
      rw [hlink] at h
      contradiction
    | some r =>
      simp only [hlink, Fetch.outcome_bind, Fetch.outcome_ofExcept, Failure.bind_eq_ok_iff,
        Prod.exists] at h
      obtain ⟨key, value, hkey, scope, hscope, hlist⟩ := h
      exact ⟨parent, child, r, key, value, scope, hparent, hchild, hlink, hkey, hscope, hlist⟩
  · intro h
    obtain ⟨parent, child, r, key, value, scope, hparent, hchild, hlink, hkey, hscope, hlist⟩ := h
    rw [listNested_eq hparent hchild hlink hkey, Fetch.outcome_bind_of_ok hscope, hlist]

end TableQuery.Engine
