import TableQuery.Proofs.Engine.Nested
import TableQuery.Proofs.Request.Faults

/-!
# Failures over rows in memory

Rows in memory are always found, whatever they hold, so an operation over them fails exactly when one of
its checks does: a table or a row is not there, the identifier or the parameters are not read, the
request is not planned, or the tables are not linked. All of these are failures of the client. What is
planned is always expanded, since an accepted registry has the targets of its relationships.
-/

namespace TableQuery

namespace Failure

/-- The client is at fault, and a relationship is missing only for a given cause. -/
structure OfClient (failure : Failure) (cause : Prop) : Prop where
  client : failure.isClientError = true
  missing : ∀ asked table, failure = .relationship asked table → cause

variable {failure : Failure} {cause other : Prop}

/-- A fault in a parameter, a window or an order is no missing relationship. -/
theorem OfClient.of_isRequestFault (h : failure.IsRequestFault) : failure.OfClient cause := by
  refine ⟨isClientError_of_isRequestFault h, fun asked table heq => ?_⟩
  rw [heq] at h
  exact h.elim

/-- What is not found is no missing relationship. -/
theorem OfClient.notFound (resource : String) (id : Option String) :
    (Failure.notFound resource id).OfClient cause := ⟨rfl, nofun⟩

/-- A cause may be one of several. -/
theorem OfClient.imp (h : failure.OfClient cause) (himp : cause → other) : failure.OfClient other :=
  ⟨h.client, fun asked table heq => himp (h.missing asked table heq)⟩

end Failure

/-- A table is required in vain exactly when it is not registered. -/
theorem Registry.require_eq_error_iff {registry : Registry} {name : String} {failure : Failure} :
    registry.require name = .error failure ↔
      registry.table? name = none ∧ failure = .notFound name none := by
  unfold require
  cases registry.table? name <;> simp [eq_comm]

namespace Engine

variable {engine : Engine} {table parent child : Table} {params : Params} {scope : Predicate}
  {name parentName childName id : String} {memory : Memory} {failure : Failure} {r : Relationship}
  {key : Column} {value : Value} {request : Request} {plan : Plan}

/-! ## What always succeeds -/

/-- What is planned is expanded, whatever the rows hold; the rows keep their columns. -/
theorem exists_outcome_expand (htable : engine.registry.table? name = some table)
    (hplan : engine.registry.plan table request scope = .ok plan) (rows : List Row) (memory : Memory) :
    ∃ results, (engine.registry.expand table rows plan.relationships).outcome memory.source =
        .ok results ∧ results.map ResultRow.columns = rows := by
  obtain ⟨links, hlinks⟩ := exists_links_of_planned htable (Registry.planned_of_plan hplan)
  refine ⟨_, Registry.outcome_expand_of_links hlinks rows memory, ?_⟩
  rw [List.map_map]
  exact List.map_id rows

/-- The scope of a nested listing is always found. -/
theorem exists_outcome_linkScope (parent : Table) (r : Relationship) (key : Column) (value : Value)
    (memory : Memory) : ∃ scope, (linkScope parent r key value).outcome memory.source = .ok scope := by
  unfold linkScope
  split
  · exact ⟨_, rfl⟩
  · rw [Fetch.outcome_bind_of_ok (Fetch.outcome_askSelect _ _)]
    split
    · exact ⟨_, rfl⟩
    · exact ⟨_, rfl⟩

/-! ## When operations fail -/

/-- A listing inside a scope fails exactly when it is not prepared. -/
theorem outcome_listScoped_eq_error_iff (htable : engine.registry.table? name = some table) :
    (engine.listScoped table params scope).outcome memory.source = .error failure ↔
      engine.prepare table params scope = .error failure := by
  rw [listScoped, Fetch.outcome_bind, Fetch.outcome_ofExcept, Failure.bind_eq_error_iff]
  refine or_iff_left fun h => ?_
  obtain ⟨plan, hprepare, hexecute⟩ := h
  obtain ⟨request, _, hplan⟩ := prepare_eq_ok_iff.1 hprepare
  obtain ⟨listing, hlisting, _⟩ := outcome_execute memory htable (Registry.planned_of_plan hplan)
  rw [hlisting] at hexecute
  contradiction

/-- A listing fails exactly when its table is not there, or it is not prepared. -/
theorem outcome_list_eq_error_iff :
    (engine.list name params).outcome memory.source = .error failure ↔
      engine.registry.table? name = none ∧ failure = .notFound name none ∨
      ∃ table, engine.registry.table? name = some table ∧
        engine.prepare table params .always = .error failure := by
  rw [list, Fetch.outcome_bind, Fetch.outcome_ofExcept, Failure.bind_eq_error_iff,
    Registry.require_eq_error_iff]
  refine or_congr_right (exists_congr fun table => ?_)
  rw [Registry.require_eq_ok_iff]
  exact and_congr_right outcome_listScoped_eq_error_iff

/-- The lookup of a row fails exactly when its table is not there, its identifier is not read, it is not
prepared, or no row is found. -/
theorem outcome_getOne_eq_error_iff :
    (engine.getOne name id params).outcome memory.source = .error failure ↔
      engine.registry.table? name = none ∧ failure = .notFound name none ∨
      ∃ table, engine.registry.table? name = some table ∧
        (readKey table id = .error failure ∨
        ∃ key value, readKey table id = .ok (key, value) ∧
          (engine.prepareOne table params (.eq key.name value) = .error failure ∨
          ∃ plan, engine.prepareOne table params (.eq key.name value) = .ok plan ∧
            memory.select table { plan.page with window := .first } = [] ∧
            failure = .notFound table.name (some id))) := by
  rw [getOne, Fetch.outcome_bind, Fetch.outcome_ofExcept, Failure.bind_eq_error_iff,
    Registry.require_eq_error_iff]
  refine or_congr_right (exists_congr fun table => ?_)
  rw [Registry.require_eq_ok_iff]
  refine and_congr_right fun htable => ?_
  rw [Fetch.outcome_bind, Fetch.outcome_ofExcept, Failure.bind_eq_error_iff, Prod.exists]
  refine or_congr_right (exists_congr fun key => exists_congr fun value => and_congr_right fun _ => ?_)
  rw [Fetch.outcome_bind, Fetch.outcome_ofExcept, Failure.bind_eq_error_iff]
  refine or_congr_right (exists_congr fun plan => and_congr_right fun hprepare => ?_)
  -- The rows that are found are expanded, so that there is a first result exactly when there is a row.
  obtain ⟨request, _, hplan⟩ := Failure.bind_eq_ok_iff.1 hprepare
  obtain ⟨results, hexpand, hcolumns⟩ := exists_outcome_expand htable hplan
    (memory.select table { plan.page with window := .first }) memory
  rw [Fetch.outcome_bind_of_ok (Fetch.outcome_askSelect _ _), Fetch.outcome_bind_of_ok hexpand,
    ← hcolumns, List.map_eq_nil_iff]
  cases results <;> simp [eq_comm]

/-- A nested listing fails exactly when one of its tables is not there, they are not linked, the
identifier is not read, or the listing is not prepared inside the scope of the link. -/
theorem outcome_listNested_eq_error_iff :
    (engine.listNested parentName id childName params).outcome memory.source = .error failure ↔
      engine.registry.table? parentName = none ∧ failure = .notFound parentName none ∨
      ∃ parent, engine.registry.table? parentName = some parent ∧
        (engine.registry.table? childName = none ∧ failure = .notFound childName none ∨
        ∃ child, engine.registry.table? childName = some child ∧
          (child.relationshipTo? parent.name = none ∧
              failure = .relationship parent.name child.name ∨
          ∃ r, child.relationshipTo? parent.name = some r ∧
            (readKey parent id = .error failure ∨
            ∃ key value scope, readKey parent id = .ok (key, value) ∧
              (linkScope parent r key value).outcome memory.source = .ok scope ∧
              engine.prepare child params scope = .error failure))) := by
  rw [listNested, Fetch.outcome_bind, Fetch.outcome_ofExcept, Failure.bind_eq_error_iff,
    Registry.require_eq_error_iff]
  refine or_congr_right (exists_congr fun parent => ?_)
  rw [Registry.require_eq_ok_iff]
  refine and_congr_right fun _ => ?_
  rw [Fetch.outcome_bind, Fetch.outcome_ofExcept, Failure.bind_eq_error_iff,
    Registry.require_eq_error_iff]
  refine or_congr_right (exists_congr fun child => ?_)
  rw [Registry.require_eq_ok_iff]
  refine and_congr_right fun hchild => ?_
  cases hlink : child.relationshipTo? parent.name with
  | none => simp [eq_comm]
  | some r =>
    simp only [reduceCtorEq, false_and, false_or, Option.some.injEq, exists_eq_left']
    rw [Fetch.outcome_bind, Fetch.outcome_ofExcept, Failure.bind_eq_error_iff, Prod.exists]
    refine or_congr_right (exists_congr fun key => exists_congr fun value => ?_)
    obtain ⟨scope, hscope⟩ := exists_outcome_linkScope parent r key value memory
    rw [Fetch.outcome_bind_of_ok hscope, outcome_listScoped_eq_error_iff hchild, hscope]
    simp

/-! ## Who is at fault -/

/-- A failure of planning what parameters ask of a table: its filters and its relationships, inside some
scope. -/
inductive FailsPlanning (engine : Engine) (name : String) (params : Params) (failure : Failure) : Prop
  | intro {table : Table} {request planned : Request} {scope : Predicate}
      (registered : engine.registry.table? name = some table)
      (decoded : Request.decode params table engine.settings = .ok request)
      (filters : planned.filters = request.filters)
      (relationships : planned.relationships = request.relationships)
      (unplanned : engine.registry.plan table planned scope = .error failure)

/-- A failure for want of a single link from the rows of one table to those of another. -/
inductive FailsLink (engine : Engine) (parentName childName : String) : Failure → Prop
  | intro {parent child : Table} (parent_registered : engine.registry.table? parentName = some parent)
      (child_registered : engine.registry.table? childName = some child)
      (unlinked : child.relationshipTo? parent.name = none) :
      FailsLink engine parentName childName (.relationship parent.name child.name)

/-- Reading a key fails with a fault in the identifier, or when there is no single key. -/
theorem fails_readKey (table : Table) (id : String) :
    Failure.FailsOnly Failure.IsRequestFault (readKey table id) := by
  unfold readKey
  split
  · exact .error trivial
  · exact (Request.fails_coerce _ _ id).bind fun _ => .ok _

/-- Decoding and planning fails in decoding, without a missing relationship, or in planning, also when
the window and the order are changed in between. -/
theorem ofClient_of_prepare (change : Request → Request)
    (hfilters : ∀ request, (change request).filters = request.filters)
    (hrelationships : ∀ request, (change request).relationships = request.relationships)
    (htable : engine.registry.table? name = some table)
    (h : (Request.decode params table engine.settings >>= fun request =>
      engine.registry.plan table (change request) scope) = .error failure) :
    failure.OfClient (engine.FailsPlanning name params failure) := by
  rcases Failure.bind_eq_error_iff.1 h with hdecode | ⟨request, hdecode, hplan⟩
  · exact .of_isRequestFault (Request.fails_decode params table engine.settings failure hdecode)
  · refine ⟨Failure.isClientError_of_isPlanningFault ?_, fun _ _ _ => ?_⟩
    · exact engine.registry.fails_plan table (change request) scope failure hplan
    · exact .intro htable hdecode (hfilters request) (hrelationships request) hplan

/-- Over rows in memory, whatever they hold, every failure is one of the client. A relationship is
missing only when the request is planned, or between the tables of a nested listing. What is planned is
expanded without a failure. -/
theorem failures_over_memory (engine : Engine) (memory : Memory) :
    (∀ name params failure, (engine.list name params).outcome memory.source = .error failure →
      failure.OfClient (engine.FailsPlanning name params failure)) ∧
    (∀ name id params failure,
      (engine.getOne name id params).outcome memory.source = .error failure →
      failure.OfClient (engine.FailsPlanning name params failure)) ∧
    (∀ parentName id childName params failure,
      (engine.listNested parentName id childName params).outcome memory.source = .error failure →
      failure.OfClient (engine.FailsPlanning childName params failure ∨
        engine.FailsLink parentName childName failure)) ∧
    ∀ name table request scope plan, engine.registry.table? name = some table →
      engine.registry.plan table request scope = .ok plan →
      ∀ rows, ∃ results,
        (engine.registry.expand table rows plan.relationships).outcome memory.source = .ok results ∧
        results.map ResultRow.columns = rows := by
  refine ⟨?_, ?_, ?_, ?_⟩
  · intro name params failure h
    rcases outcome_list_eq_error_iff.1 h with ⟨_, rfl⟩ | ⟨table, htable, hprepare⟩
    · exact .notFound name none
    · exact ofClient_of_prepare (fun request => request) (fun _ => rfl) (fun _ => rfl) htable hprepare
  · intro name id params failure h
    rcases outcome_getOne_eq_error_iff.1 h with ⟨_, rfl⟩ | ⟨table, htable, hread | ⟨key, value, _, h⟩⟩
    · exact .notFound name none
    · exact .of_isRequestFault (fails_readKey table id failure hread)
    · rcases h with hprepare | ⟨plan, _, _, rfl⟩
      · exact ofClient_of_prepare (fun request => { request with window := .unbounded, order := [] })
          (fun _ => rfl) (fun _ => rfl) htable hprepare
      · exact .notFound table.name (some id)
  · intro parentName id childName params failure h
    rcases outcome_listNested_eq_error_iff.1 h with ⟨_, rfl⟩ | ⟨parent, hparent, h⟩
    · exact .notFound parentName none
    rcases h with ⟨_, rfl⟩ | ⟨child, hchild, h⟩
    · exact .notFound childName none
    rcases h with ⟨hlink, rfl⟩ | ⟨r, _, hread | ⟨key, value, scope, _, _, hprepare⟩⟩
    · exact ⟨rfl, fun _ _ _ => Or.inr (.intro hparent hchild hlink)⟩
    · exact .of_isRequestFault (fails_readKey parent id failure hread)
    · exact (ofClient_of_prepare (fun request => request) (fun _ => rfl) (fun _ => rfl) hchild
        hprepare).imp Or.inl
  · intro name table request scope plan htable hplan rows
    exact exists_outcome_expand htable hplan rows memory

/-- Over a book whose identifier is no number, a relationship that books do not have is missed by
planning, authors are missed as children of authors for want of a link, and the author of the book is
looked for without a failure. -/
theorem failures_over_misfit :
    let misfit : Row := .ofList [("id", .str "seven"), ("author_id", .bool true), ("shelf", .int 3)]
    let memory := Memory.empty.append "book" [misfit]
    let published : Params := ⟨[("relationship", "publisher")]⟩
    ((library.list "book" published).outcome memory.source =
        .error (.relationship "publisher" "book") ∧
      library.FailsPlanning "book" published (.relationship "publisher" "book")) ∧
    ((library.listNested "author" "1" "author" ⟨[]⟩).outcome memory.source =
        .error (.relationship "author" "author") ∧
      (Failure.relationship "author" "author").isClientError = true) ∧
    ∃ results, (library.registry.expand Registry.book [misfit]
        Registry.book.relationships).outcome memory.source = .ok results ∧
      results.map ResultRow.columns = [misfit] := by
  intro misfit memory published
  have hlist : (library.list "book" published).outcome memory.source =
      .error (.relationship "publisher" "book") := rfl
  have hnested : (library.listNested "author" "1" "author" ⟨[]⟩).outcome memory.source =
      .error (.relationship "author" "author") := rfl
  let request : Request := { relationships := ["author"] }
  let plan : Plan := ⟨"book", ⟨.all [request.predicate, .always]⟩,
    ⟨.all [request.predicate, .always], [], .unbounded⟩, Registry.book.relationships⟩
  have hplan : library.registry.plan Registry.book request .always = .ok plan := rfl
  obtain ⟨hlisted, _, hnestedly, hexpanded⟩ := failures_over_memory library memory
  exact ⟨⟨hlist, (hlisted _ _ _ hlist).missing _ _ rfl⟩, ⟨hnested, (hnestedly _ _ _ _ _ hnested).client⟩,
    hexpanded "book" Registry.book request .always plan rfl hplan [misfit]⟩

end Engine

end TableQuery
