import TableQuery.Proofs.Engine.MemoryFailures
import TableQuery.Proofs.Engine.Nested
import TableQuery.Proofs.Engine.Totals

/-!
# Looking up one row

The lookup of an identifier shows the first stored row that has it as its key and satisfies the
constraints of the request, expanded as if it were the only row of a page, and finds nothing when there
is no such row. The window and the order of the request are read, since a request that is not understood
is refused, but they make no difference to the answer.
-/

namespace TableQuery

variable {table : Table} {memory : Memory} {row : Row} {key : Column} {value : Value}

/-! ## The wanted row -/

/-- A row is wanted by a request for an identifier when it satisfies the constraints of the request and
its key equals the identifier. -/
def Request.Wants (request : Request) (table : Table) (key : Column) (value : Value) (row : Row) :
    Prop :=
  request.Selects table row ∧ ∃ stored ∈ table.cell? row key.name, stored.compare? value = some .eq

instance (request : Request) (table : Table) (key : Column) (value : Value) (row : Row) :
    Decidable (request.Wants table key value row) :=
  inferInstanceAs (Decidable (_ ∧ ∃ stored ∈ table.cell? row key.name, _))

/-- The condition of a lookup holds of exactly the wanted rows. -/
theorem Request.holds_all_eq_iff {request : Request} {params : Params} {settings : Settings}
    (h : decode params table settings = .ok request) :
    (Predicate.all [request.predicate, .eq key.name value]).holds table row = true ↔
      request.Wants table key value row := by
  simp only [Predicate.holds_all, List.forall_mem_cons, List.not_mem_nil, IsEmpty.forall_iff,
    implies_true, and_true, holds_predicate h, Predicate.holds_eq_iff]
  rfl

/-! ## Preparing -/

/-- Declared names of relationships are resolved in a valid registry. -/
theorem Registry.exists_resolveRelationships {registry : Registry} {name : String}
    (hvalid : registry.validate = .ok ()) (htable : registry.table? name = some table)
    {names : List String} (h : ∀ used ∈ names, (table.relationship? used).isSome) :
    ∃ relationships, registry.resolveRelationships table names = .ok relationships := by
  induction names with
  | nil => exact ⟨[], rfl⟩
  | cons used rest ih =>
    rw [List.forall_mem_cons] at h
    obtain ⟨r, hr⟩ := Option.isSome_iff_exists.1 h.1
    obtain ⟨more, hmore⟩ := ih h.2
    obtain ⟨target, htarget⟩ :=
      (sound_of_validate hvalid htable).exists_target (List.mem_of_find?_eq_some hr)
    refine ⟨r :: more, ?_⟩
    rw [resolveRelationships, relationship?_eq_some hr htarget]
    exact Failure.bind_eq_ok_iff.2 ⟨more, hmore, rfl⟩

namespace Engine

open Request (limitKey offsetKey orderKey)

variable {engine : Engine} {name id : String} {params other : Params} {request decoded : Request}
  {relationships : List Relationship} {scope : Predicate}

/-- A decoded lookup whose relationships are resolved is planned without its order and its window. -/
theorem prepareOne_eq_ok (hdecode : Request.decode params table engine.settings = .ok request)
    (hresolve : engine.registry.resolveRelationships table request.relationships = .ok relationships) :
    engine.prepareOne table params scope =
      .ok ⟨table.name, ⟨.all [request.predicate, scope]⟩,
        ⟨.all [request.predicate, scope], [], .unbounded⟩, relationships⟩ := by
  let lookup : Request := { request with window := .unbounded, order := [] }
  have hkeys : SortKey.resolve table lookup.order = .ok [] := rfl
  rw [prepareOne, hdecode]
  exact Registry.plan_eq_ok hkeys hresolve scope

/-- Requests that agree but for the window and the order prepare the same lookup. -/
theorem prepareOne_congr
    (h : ∀ key ∉ [limitKey, offsetKey, orderKey], other.getAll key = params.getAll key)
    (hrequest : Request.decode params table engine.settings = .ok request)
    (hdecoded : Request.decode other table engine.settings = .ok decoded) (scope : Predicate) :
    engine.prepareOne table other scope = engine.prepareOne table params scope := by
  have hglobal : ∀ key ∈ [limitKey, offsetKey, orderKey], key ∈ Request.globalKeys := by decide
  have hfilters : decoded.filters = request.filters :=
    Request.filters_congr (fun column _ facet => h _ fun hkey =>
      Facet.key_notMem_globalKeys facet column.name (hglobal _ hkey)) hdecoded hrequest
  have hrelationships : decoded.relationships = request.relationships := by
    rw [Request.relationships_of_decode hdecoded, Request.relationships_of_decode hrequest,
      Params.getSplit_congr (h Request.relationshipKey (by decide))]
  have hsame : { decoded with window := .unbounded, order := [] } =
      { request with window := .unbounded, order := [] } := by
    rw [hfilters, hrelationships]
  -- The two requests have been read apart; from here on they are the same.
  rw [prepareOne, prepareOne, hrequest, hdecoded]
  exact congrArg (engine.registry.plan table · scope) hsame

/-- Requests that agree but for the window and the order look up the same row. -/
theorem getOne_congr (htable : engine.registry.table? name = some table)
    (h : ∀ key ∉ [limitKey, offsetKey, orderKey], other.getAll key = params.getAll key)
    (hrequest : Request.decode params table engine.settings = .ok request)
    (hdecoded : Request.decode other table engine.settings = .ok decoded) :
    engine.getOne name id other = engine.getOne name id params := by
  simp only [getOne, Registry.require_eq_ok_iff.2 htable, Fetch.ofExcept_ok_bind,
    prepareOne_congr h hrequest hdecoded]

/-! ## The answer -/

/-- What the lookup of an identifier finds: the row, expanded as if it were the only row of a page. -/
structure Found (engine : Engine) (memory : Memory) (table : Table) (relationships : List Relationship)
    (row : Row) (result : ResultRow) : Prop where
  columns : result.columns.fields = table.shown row
  expanded : (engine.registry.expand table [table.project row] relationships).outcome memory.source =
    .ok [result]

/-- A lookup shows the first row of its condition, if there is one. -/
theorem exists_found_of_find? (htable : engine.registry.table? name = some table)
    (hread : readKey table id = .ok (key, value))
    (hdecode : Request.decode params table engine.settings = .ok request)
    (hresolve : engine.registry.resolveRelationships table request.relationships = .ok relationships)
    (hfind : (memory.rows table.name).find?
      ((Predicate.all [request.predicate, .eq key.name value]).holds table) = some row) :
    ∃ result, (engine.getOne name id params).outcome memory.source = .ok result ∧
      engine.Found memory table relationships row result := by
  have hsound := Registry.sound_of_validate engine.valid htable
  have hdeclared := (Registry.of_resolveRelationships hresolve).2
  obtain ⟨links, _, _, hexpand⟩ := Registry.outcome_expand table [table.project row] memory
    fun r hr => hsound.exists_target (hdeclared r hr)
  have hselect : memory.select table ⟨.all [request.predicate, .eq key.name value], [], .first⟩ =
      [table.project row] := by
    rw [Memory.select_first, Memory.matching, List.head?_filter, hfind]
    rfl
  refine ⟨_, outcome_getOne_eq_ok_iff.2 ⟨table, key, value, _, _, [], htable, hread,
    prepareOne_eq_ok hdecode hresolve, congrArg Except.ok hselect, hexpand⟩, ?_, hexpand⟩
  exact Table.fields_project hsound.columns_nodup row

/-- A lookup whose condition no row satisfies finds nothing. -/
theorem outcome_getOne_of_find?_eq_none (htable : engine.registry.table? name = some table)
    (hread : readKey table id = .ok (key, value))
    (hdecode : Request.decode params table engine.settings = .ok request)
    (hresolve : engine.registry.resolveRelationships table request.relationships = .ok relationships)
    (hfind : (memory.rows table.name).find?
      ((Predicate.all [request.predicate, .eq key.name value]).holds table) = none) :
    (engine.getOne name id params).outcome memory.source = .error (.notFound table.name (some id)) := by
  have hselect : memory.select table ⟨.all [request.predicate, .eq key.name value], [], .first⟩ = [] := by
    rw [Memory.select_first, Memory.matching, List.head?_filter, hfind]
    rfl
  exact outcome_getOne_eq_error_iff.2 (Or.inr ⟨table, htable, Or.inr ⟨key, value, hread,
    Or.inr ⟨_, prepareOne_eq_ok hdecode hresolve, hselect, rfl⟩⟩⟩)

/-- The lookup of an identifier that is read, by a request that is decoded and whose relationships are
declared, succeeds exactly when some stored row satisfies the constraints and has the identifier as its
key. It shows the first such row as it is expanded by itself; without one, the table and the identifier
are reported as not found. Requests that differ in the limit, the offset and the order only, and are
decoded, are looked up alike. -/
theorem getOne_finds_first (built : engine.registry.Built)
    (htable : engine.registry.table? name = some table) :
    (∀ key value id params request (memory : Memory), table.primaryKey = [key.name] →
      table.column? key.name = some key → Value.read? key.type id = some value →
      Request.decode params table engine.settings = .ok request →
      (∀ used ∈ request.relationships, (table.relationship? used).isSome) →
      ∃ relationships,
        engine.registry.resolveRelationships table request.relationships = .ok relationships ∧
        ((∃ result, (engine.getOne name id params).outcome memory.source = .ok result) ↔
          ∃ row ∈ memory.rows name, request.Wants table key value row) ∧
        (∀ before row after, memory.rows name = before ++ row :: after →
          request.Wants table key value row →
          (∀ earlier ∈ before, ¬ request.Wants table key value earlier) →
          ∃ result, (engine.getOne name id params).outcome memory.source = .ok result ∧
            engine.Found memory table relationships row result) ∧
        ((∀ row ∈ memory.rows name, ¬ request.Wants table key value row) →
          (engine.getOne name id params).outcome memory.source = .error (.notFound name (some id)))) ∧
    ∀ id params other request decoded,
      (∀ key ∉ [limitKey, offsetKey, orderKey], other.getAll key = params.getAll key) →
      Request.decode params table engine.settings = .ok request →
      Request.decode other table engine.settings = .ok decoded →
      engine.getOne name id other = engine.getOne name id params := by
  refine ⟨?_, fun id params other request decoded => getOne_congr htable⟩
  intro key value id params request memory hkey hcolumn hid hdecode hdeclared
  obtain rfl : table.name = name := built.name_eq htable
  have hread := readKey_eq_ok hkey hcolumn hid
  obtain ⟨relationships, hresolve⟩ :=
    Registry.exists_resolveRelationships engine.valid htable hdeclared
  -- The source is asked by one condition, whose first row is the first wanted one.
  let condition := Predicate.all [request.predicate, .eq key.name value]
  have hwants (row : Row) : condition.holds table row = true ↔ request.Wants table key value row :=
    Request.holds_all_eq_iff hdecode
  have hnone (h : ∀ row ∈ memory.rows table.name, ¬ request.Wants table key value row) :=
    outcome_getOne_of_find?_eq_none htable hread hdecode hresolve
      (List.find?_eq_none.2 fun row hrow => (hwants row).not.2 (h row hrow))
  have hsome {row : Row} (hfind : (memory.rows table.name).find? (condition.holds table) = some row) :=
    exists_found_of_find? htable hread hdecode hresolve hfind
  refine ⟨relationships, hresolve, ⟨?_, ?_⟩, ?_, hnone⟩
  · rintro ⟨result, hresult⟩
    by_contra hnever
    rw [hnone fun row hrow hwanted => hnever ⟨row, hrow, hwanted⟩] at hresult
    contradiction
  · rintro ⟨row, hrow, hwanted⟩
    have hfound : ((memory.rows table.name).find? (condition.holds table)).isSome :=
      List.find?_isSome.2 ⟨row, hrow, (hwants row).2 hwanted⟩
    obtain ⟨first, hfirst⟩ := Option.isSome_iff_exists.1 hfound
    obtain ⟨result, hresult, _⟩ := hsome hfirst
    exact ⟨result, hresult⟩
  · intro before row after hrows hwanted hearlier
    refine hsome (List.find?_eq_some_iff_append.2 ⟨(hwants row).2 hwanted, before, after, hrows, ?_⟩)
    intro earlier hmem
    rw [Bool.not_eq_true', ← Bool.not_eq_true]
    exact (hwants earlier).not.2 (hearlier earlier hmem)

/-- Of two authors with the same identifier, the second one has the name that is asked for. That the page
is empty and sorted by a column that authors do not have makes no difference. -/
theorem getOne_finds_first_ada :
    let alan := Row.ofList [("id", .int 1), ("name", .str "alan")]
    let ada := Row.ofList [("id", .int 1), ("name", .str "ada")]
    let memory := (Memory.empty.append "book" [
      .ofList [("id", .int 7), ("author_id", .int 1), ("title", .str "notes")]]).append "author"
        [alan, ada]
    let params : Params := ⟨[("name____list", "ada"), ("relationship", "book")]⟩
    let unseen : Params := ⟨[("limit", "0"), ("name____list", "ada"), ("offset", "7"),
      ("relationship", "book"), ("order_by_columns", "height:DESC")]⟩
    (∃ result, (library.getOne "author" " 1" params).outcome memory.source = .ok result ∧
      library.Found memory Registry.author Registry.author.relationships ada result) ∧
    library.getOne "author" " 1" unseen = library.getOne "author" " 1" params := by
  intro alan ada memory params unseen
  let key : Column := ⟨"id", .integer, false⟩
  let request : Request := {
    filters := [⟨"name", none, some ⟨.isIn, [.text "ada"]⟩, none⟩]
    relationships := ["book"] }
  have hdecode : Request.decode params Registry.author {} = .ok request := by decide +kernel
  have hunseen : Request.decode unseen Registry.author {} = .ok { request with
      window := ⟨some 0, 7⟩, order := [⟨"height", .descending⟩] } := by decide +kernel
  have hid : Value.read? key.type " 1" = some (.integer 1) := by decide +kernel
  have hrows : memory.rows "author" = [alan] ++ ada :: [] := rfl
  have hother : ∀ used ∉ [limitKey, offsetKey, orderKey], unseen.getAll used = params.getAll used := by
    intro used hused
    simp only [List.mem_cons, List.not_mem_nil, or_false, not_or] at hused
    obtain ⟨hlimit, hoffset, horder⟩ := hused
    rw [limitKey] at hlimit
    rw [offsetKey] at hoffset
    rw [orderKey] at horder
    simp [Params.getAll, unseen, params, List.filter_cons, Ne.symm hlimit, Ne.symm hoffset,
      Ne.symm horder]
  have built : library.registry.Built := Registry.built_library
  have htable : library.registry.table? "author" = some Registry.author := rfl
  obtain ⟨hfinds, hcongr⟩ := getOne_finds_first built htable
  obtain ⟨relationships, hresolve, _, hfirst, _⟩ :=
    hfinds key (.integer 1) " 1" params request memory rfl rfl hid hdecode (by decide)
  obtain rfl : Registry.author.relationships = relationships := Except.ok.inj hresolve
  exact ⟨hfirst [alan] ada [] hrows (by decide +kernel) (by decide +kernel),
    hcongr " 1" params unseen _ _ hother hdecode hunseen⟩

end Engine

end TableQuery
