import TableQuery.Proofs.Engine.Expansion
import TableQuery.Proofs.Query.Typing

/-!
# What the engine asks

An engine asks five kinds of questions: the count and the page of a listing, the row of an
identifier, the row that a nested listing starts from, and the rows that a relationship leads to.
Whatever a source answers, no other question is reached, so that every question the engine asks is
well typed: what it compares cells with is read as the type of the column, also where the value of
one table is looked for in another.
-/

namespace TableQuery

variable {engine : Engine} {registry : Registry} {table listed : Table} {params : Params} {call : Call}

/-- The conditions that a listing is asked under besides those of its request: none, or that a
declared column holds one of some values that it can hold. -/
inductive Predicate.Scopes (table : Table) : Predicate → Prop
  | always : Scopes table .always
  | isIn {name : String} {values : List Value} {column : Column}
      (declared : table.column? name = some column) (fits : ∀ v ∈ values, v.Fits column.type) :
      Scopes table (.isIn name values)

/-- A scope is well typed. -/
theorem Predicate.Scopes.wellTyped {scope : Predicate} (h : scope.Scopes table) :
    scope.WellTyped table := by
  cases h with
  | always => exact .always
  | isIn declared fits => exact .membership declared fits (by simp)

namespace Engine

/-- The questions that an engine can ask for the parameters of a request about the rows of a table:
three about these rows, and two about rows that are linked to them. -/
inductive Question (engine : Engine) (table : Table) (params : Params) : Call → Prop
  /-- How many rows of a listing there are. -/
  | count {request : Request} {scope : Predicate} {plan : Plan}
      (registered : engine.registry.table? table.name = some table)
      (decoded : Request.decode params table engine.settings = .ok request)
      (scopes : scope.Scopes table) (planned : engine.registry.Planned table request scope plan) :
      Question engine table params (.count table plan.predicate)
  /-- The page of a listing. -/
  | page {request : Request} {scope : Predicate} {plan : Plan}
      (registered : engine.registry.table? table.name = some table)
      (decoded : Request.decode params table engine.settings = .ok request)
      (scopes : scope.Scopes table) (planned : engine.registry.Planned table request scope plan) :
      Question engine table params (.select table plan.page)
  /-- The row with a primary key, if it satisfies the constraints of the request. -/
  | row {request : Request} {key : Column} {value : Value} {plan : Plan}
      (registered : engine.registry.table? table.name = some table)
      (decoded : Request.decode params table engine.settings = .ok request)
      (single : table.singleKey? = some key) (fits : value.Fits key.type)
      (planned : engine.registry.Planned table { request with window := .unbounded, order := [] }
        (.eq key.name value) plan) :
      Question engine table params (.select table { plan.page with window := .first })
  /-- The row with a primary key of another table. -/
  | parent {parent : Table} {key : Column} {value : Value}
      (registered : engine.registry.table? parent.name = some parent)
      (single : parent.singleKey? = some key) (fits : value.Fits key.type) :
      Question engine table params (.select parent (keyQuery key value))
  /-- The rows that a relationship leads to. -/
  | related {target : Table} {r : Relationship} {remote : Column} {keys : List Value}
      (registered : engine.registry.table? target.name = some target)
      (declared : target.column? r.targetColumn = some remote)
      (fits : ∀ key ∈ keys, key.Fits remote.type) :
      Question engine table params (.select target (.related target r keys))

/-! ## The questions of each part -/

/-- The column of a single key is a declared column of its own name. -/
theorem column?_of_singleKey? {key : Column} (h : table.singleKey? = some key) :
    table.column? key.name = some key ∧ table.primaryKey = [key.name] := by
  unfold Table.singleKey? at h
  split at h
  next only honly =>
    obtain ⟨_, hname⟩ := Table.column?_eq_some h
    subst hname
    exact ⟨h, honly⟩
  next => contradiction

/-- Looking for the value of a single key is a scope, if the column can hold it. -/
theorem scopes_of_singleKey? {key : Column} {value : Value} (h : table.singleKey? = some key)
    (hfits : value.Fits key.type) : (Predicate.eq key.name value).Scopes table :=
  .isIn (column?_of_singleKey? h).1 fun _ hv => List.mem_singleton.1 hv ▸ hfits

/-- An identifier is read for the single key of its table. -/
theorem of_readKey {id : String} {key : Column} {value : Value}
    (h : readKey table id = .ok (key, value)) :
    table.singleKey? = some key ∧ value.Fits key.type := by
  unfold readKey at h
  split at h
  next => contradiction
  next found hfound =>
    obtain ⟨v, hv, h⟩ := Failure.bind_eq_ok_iff.1 h
    cases h
    exact ⟨hfound, Request.fits_of_coerce hv⟩

/-- Expanding relationships asks for the rows of their targets that hold values of the page. -/
theorem of_reaches_expand {rows : List Row} {relationships : List Relationship}
    (h : (registry.expand table rows relationships).Reaches call) :
    ∃ r ∈ relationships, ∃ target, registry.table? r.target = some target ∧
      call = .select target (.related target r (table.distinctKeys r.localColumn rows)) := by
  obtain ⟨links, hlinks, h⟩ := Fetch.reaches_ofExcept_bind h
  obtain ⟨hrelationships, htargets⟩ := Registry.of_links hlinks
  have hfetched : (Link.fetchAll table rows links).Reaches call := by
    rcases Fetch.reaches_bind h with h | ⟨groups, _, h⟩
    · exact h
    · exact absurd h Fetch.not_reaches_done
  suffices ∃ link ∈ links, call = .select link.target (.related link.target link.relationship
      (table.distinctKeys link.relationship.localColumn rows)) by
    obtain ⟨link, hlink, hcall⟩ := this
    exact ⟨link.relationship, hrelationships ▸ List.mem_map_of_mem hlink, link.target,
      htargets link hlink, hcall⟩
  clear hlinks hrelationships htargets h
  induction links with
  | nil => exact absurd hfetched Fetch.not_reaches_done
  | cons link rest ih =>
    rcases Fetch.reaches_bind hfetched with h | ⟨fetched, _, h⟩
    · unfold Link.fetch at h
      split at h
      next => exact absurd h Fetch.not_reaches_done
      next => exact ⟨link, List.mem_cons_self, Fetch.eq_of_reaches_askSelect h⟩
    · rcases Fetch.reaches_bind h with h | ⟨groups, _, h⟩
      · obtain ⟨other, hother, hcall⟩ := ih h
        exact ⟨other, List.mem_cons_of_mem _ hother, hcall⟩
      · exact absurd h Fetch.not_reaches_done

/-- Expanding declared relationships asks for related rows only. -/
theorem question_of_reaches_expand (built : engine.registry.Built)
    (hsound : engine.registry.Sound table) {rows : List Row} {relationships : List Relationship}
    (hdeclared : ∀ r ∈ relationships, r ∈ table.relationships)
    (h : (engine.registry.expand table rows relationships).Reaches call) :
    engine.Question listed params call := by
  obtain ⟨r, hr, found, hfound, rfl⟩ := of_reaches_expand h
  obtain ⟨target, near, remote, hjoins⟩ := hsound.joins r (hdeclared r hr)
  obtain rfl : target = found := Option.some.inj (hjoins.target_eq.symm.trans hfound)
  have hname := built.name_eq hfound
  refine .related (hname ▸ hfound) hjoins.remote_eq fun key hkey => ?_
  obtain ⟨parent, _, hcell⟩ := Table.exists_cell?_of_mem_distinctKeys hkey
  exact hjoins.type_eq ▸ Table.fits_of_cell? hjoins.near_eq hcell

/-- Carrying out a plan reaches the count, the page and what the expansion of its relationships asks. -/
theorem of_reaches_execute {plan : Plan} (h : (engine.execute table plan).Reaches call) :
    call = .count table plan.predicate ∨ call = .select table plan.page ∨
      ∃ rows, (engine.registry.expand table rows plan.relationships).Reaches call := by
  rcases Fetch.reaches_bind h with h | ⟨total, _, h⟩
  · exact Or.inl (Fetch.eq_of_reaches_askCount h)
  rcases Fetch.reaches_bind h with h | ⟨rows, _, h⟩
  · unfold fetchPage at h
    split at h
    · exact absurd h Fetch.not_reaches_done
    · exact Or.inr (Or.inl (Fetch.eq_of_reaches_askSelect h))
  rcases Fetch.reaches_bind h with h | ⟨result, _, h⟩
  · exact Or.inr (Or.inr ⟨rows, h⟩)
  · exact absurd h Fetch.not_reaches_done

/-- Carrying out a plan asks for the count, the page and related rows. -/
theorem question_of_reaches_execute (built : engine.registry.Built)
    (hregistered : engine.registry.table? table.name = some table) {request : Request}
    (hdecoded : Request.decode params table engine.settings = .ok request) {scope : Predicate}
    (hscope : scope.Scopes table) {plan : Plan}
    (hplanned : engine.registry.Planned table request scope plan)
    (h : (engine.execute table plan).Reaches call) : engine.Question table params call := by
  rcases of_reaches_execute h with rfl | rfl | ⟨rows, h⟩
  · exact .count hregistered hdecoded hscope hplanned
  · exact .page hregistered hdecoded hscope hplanned
  · have hsound := Registry.sound_of_validate engine.valid hregistered
    exact question_of_reaches_expand built hsound hplanned.declared h

/-- A listing inside a scope asks the questions of its plan. -/
theorem question_of_reaches_listScoped (built : engine.registry.Built)
    (hregistered : engine.registry.table? table.name = some table) {scope : Predicate}
    (hscope : scope.Scopes table) (h : (engine.listScoped table params scope).Reaches call) :
    engine.Question table params call := by
  obtain ⟨plan, hprepare, h⟩ := Fetch.reaches_ofExcept_bind h
  obtain ⟨request, hrequest, hplan⟩ := Failure.bind_eq_ok_iff.1 hprepare
  exact question_of_reaches_execute built hregistered hrequest hscope
    (Registry.planned_of_plan hplan) h

/-- A listing of a table asks no other questions. -/
theorem question_of_reaches_list (built : engine.registry.Built) {name : String}
    (h : (engine.list name params).Reaches call) :
    ∃ table, engine.registry.table? name = some table ∧ engine.Question table params call := by
  obtain ⟨table, htable, h⟩ := Fetch.reaches_ofExcept_bind h
  have htable := Registry.require_eq_ok_iff.1 htable
  refine ⟨table, htable, ?_⟩
  exact question_of_reaches_listScoped built (built.name_eq htable ▸ htable) .always h

/-- The lookup of a row reaches this row and what the expansion of its relationships asks. -/
theorem of_reaches_getOne {name id : String} (h : (engine.getOne name id params).Reaches call) :
    ∃ table key value plan, engine.registry.table? name = some table ∧
      readKey table id = .ok (key, value) ∧
      engine.prepareOne table params (.eq key.name value) = .ok plan ∧
      (call = .select table { plan.page with window := .first } ∨
        ∃ rows, (engine.registry.expand table rows plan.relationships).Reaches call) := by
  obtain ⟨table, htable, h⟩ := Fetch.reaches_ofExcept_bind h
  obtain ⟨⟨key, value⟩, hkey, h⟩ := Fetch.reaches_ofExcept_bind h
  obtain ⟨plan, hprepare, h⟩ := Fetch.reaches_ofExcept_bind h
  refine ⟨table, key, value, plan, Registry.require_eq_ok_iff.1 htable, hkey, hprepare, ?_⟩
  rcases Fetch.reaches_bind h with h | ⟨rows, _, h⟩
  · exact Or.inl (Fetch.eq_of_reaches_askSelect h)
  rcases Fetch.reaches_bind h with h | ⟨result, _, h⟩
  · exact Or.inr ⟨rows, h⟩
  · cases result with
    | nil => exact absurd h Fetch.not_reaches_fail
    | cons row rest => exact absurd h Fetch.not_reaches_done

/-- The lookup of a row asks no other questions. -/
theorem question_of_reaches_getOne (built : engine.registry.Built) {name id : String}
    (h : (engine.getOne name id params).Reaches call) :
    ∃ table, engine.registry.table? name = some table ∧ engine.Question table params call := by
  obtain ⟨table, key, value, plan, htable, hkey, hprepare, h⟩ := of_reaches_getOne h
  have hregistered := built.name_eq htable ▸ htable
  obtain ⟨hsingle, hfits⟩ := of_readKey hkey
  obtain ⟨request, hrequest, hplan⟩ := Failure.bind_eq_ok_iff.1 hprepare
  have hplanned := Registry.planned_of_plan hplan
  refine ⟨table, htable, ?_⟩
  rcases h with rfl | ⟨rows, h⟩
  · exact .row hregistered hrequest hsingle hfits hplanned
  · have hsound := Registry.sound_of_validate engine.valid htable
    exact question_of_reaches_expand built hsound hplanned.declared h

section Nested

variable {parent child : Table} {r : Relationship} {near remote key : Column} {value : Value}

/-- Linking to a parent asks for the parent's row at most. -/
theorem eq_of_reaches_linkScope (h : (linkScope parent r key value).Reaches call) :
    call = .select parent (keyQuery key value) := by
  unfold linkScope at h
  split at h
  · exact absurd h Fetch.not_reaches_done
  rcases Fetch.reaches_bind h with h | ⟨rows, _, h⟩
  · exact Fetch.eq_of_reaches_askSelect h
  · split at h <;> exact absurd h Fetch.not_reaches_done

/-- The values that link a child to a parent fit the child's column, also where they are read as
values of the parent's: the identifier when the link goes through the key, else the parent's cell. -/
theorem scopes_of_yields_linkScope (hjoins : registry.Joins child r parent near remote)
    (hsingle : parent.singleKey? = some key) (hfits : value.Fits key.type) {scope : Predicate}
    (h : (linkScope parent r key value).Yields scope) : scope.Scopes child := by
  unfold linkScope at h
  split at h
  next hkey =>
    cases h
    have hremote : remote = key := by
      have hcolumn := (column?_of_singleKey? hsingle).1
      rw [← hkey, hjoins.remote_eq] at hcolumn
      exact Option.some.inj hcolumn
    refine .isIn hjoins.near_eq fun v hv => ?_
    rw [List.mem_singleton.1 hv, hjoins.type_eq, hremote]
    exact hfits
  next =>
    obtain ⟨rows, _, h⟩ := Fetch.yields_bind h
    split at h
    next linked hlinked =>
      cases h
      obtain ⟨row, _, hcell⟩ := Option.bind_eq_some_iff.1 hlinked
      refine .isIn hjoins.near_eq fun v hv => ?_
      rw [List.mem_singleton.1 hv, hjoins.type_eq]
      exact Table.fits_of_cell? hjoins.remote_eq hcell
    next =>
      cases h
      exact .isIn hjoins.near_eq fun v hv => absurd hv List.not_mem_nil

/-- The relationship to a target is declared, and leads to it. -/
theorem of_relationshipTo? {target : String} (h : table.relationshipTo? target = some r) :
    r ∈ table.relationships ∧ r.target = target := by
  unfold Table.relationshipTo? at h
  split at h
  next only honly =>
    cases h
    have hmem := honly ▸ List.mem_singleton_self r
    simpa using List.mem_filter.1 hmem
  next => contradiction

/-- A nested listing reaches what looking for its scope asks, and a listing of the child inside it. -/
theorem of_reaches_listNested {parentName id childName : String}
    (h : (engine.listNested parentName id childName params).Reaches call) :
    ∃ parent child r key value, engine.registry.table? parentName = some parent ∧
      engine.registry.table? childName = some child ∧ child.relationshipTo? parent.name = some r ∧
      readKey parent id = .ok (key, value) ∧
      (call = .select parent (keyQuery key value) ∨ ∃ scope,
        (linkScope parent r key value).Yields scope ∧
          (engine.listScoped child params scope).Reaches call) := by
  obtain ⟨parent, hparent, h⟩ := Fetch.reaches_ofExcept_bind h
  obtain ⟨child, hchild, h⟩ := Fetch.reaches_ofExcept_bind h
  split at h
  next => exact absurd h Fetch.not_reaches_fail
  next r hr =>
    obtain ⟨⟨key, value⟩, hkey, h⟩ := Fetch.reaches_ofExcept_bind h
    refine ⟨parent, child, r, key, value, Registry.require_eq_ok_iff.1 hparent,
      Registry.require_eq_ok_iff.1 hchild, hr, hkey, ?_⟩
    rcases Fetch.reaches_bind h with h | hlisted
    · exact Or.inl (eq_of_reaches_linkScope h)
    · exact Or.inr hlisted

/-- A nested listing asks no other questions. -/
theorem question_of_reaches_listNested (built : engine.registry.Built)
    {parentName id childName : String}
    (h : (engine.listNested parentName id childName params).Reaches call) :
    ∃ child, engine.registry.table? childName = some child ∧ engine.Question child params call := by
  obtain ⟨parent, child, r, key, value, hparent, hchild, hr, hkey, h⟩ := of_reaches_listNested h
  refine ⟨child, hchild, ?_⟩
  have hparent := built.name_eq hparent ▸ hparent
  have hchild := built.name_eq hchild ▸ hchild
  obtain ⟨hdeclared, htarget⟩ := of_relationshipTo? hr
  obtain ⟨target, near, remote, hjoins⟩ :=
    (Registry.sound_of_validate engine.valid hchild).joins r hdeclared
  have hsame : target = parent := by
    have htable := hjoins.target_eq
    rw [htarget, hparent] at htable
    exact (Option.some.inj htable).symm
  subst hsame
  obtain ⟨hsingle, hfits⟩ := of_readKey hkey
  rcases h with rfl | ⟨scope, hyields, h⟩
  · exact .parent hparent hsingle hfits
  · exact question_of_reaches_listScoped built hchild
      (scopes_of_yields_linkScope hjoins hsingle hfits hyields) h

end Nested

/-! ## Typing -/

/-- The condition of a plan for a decoded request inside a scope is well typed. -/
theorem wellTyped_of_planned {request decoded : Request} {scope : Predicate} {plan : Plan}
    (hsound : engine.registry.Sound table)
    (hdecoded : Request.decode params table engine.settings = .ok decoded)
    (hscope : scope.Scopes table) (hplanned : engine.registry.Planned table request scope plan)
    (hfilters : request.filters = decoded.filters) :
    plan.page.predicate.WellTyped table := by
  have hrequest : request.predicate.WellTyped table := by
    rw [Request.predicate, hfilters]
    exact Request.wellTyped_of_decode hsound.columns_nodup hdecoded
  rw [hplanned.page_eq]
  refine .all fun part hpart => ?_
  rcases List.mem_cons.1 hpart with rfl | hpart
  · exact hrequest
  · rw [List.mem_singleton.1 hpart]
    exact hscope.wellTyped

/-- Every question of an engine is well typed. -/
theorem Question.wellTyped (h : engine.Question table params call) :
    call.WellTyped engine.registry := by
  cases h with
  | count registered decoded scopes planned =>
    have hsound := Registry.sound_of_validate engine.valid registered
    have hpage := wellTyped_of_planned hsound decoded scopes planned rfl
    rw [planned.page_predicate] at hpage
    exact ⟨registered, hpage, fun key hkey => absurd hkey List.not_mem_nil⟩
  | page registered decoded scopes planned =>
    have hsound := Registry.sound_of_validate engine.valid registered
    refine ⟨registered, wellTyped_of_planned hsound decoded scopes planned rfl, fun key hkey => ?_⟩
    rw [Call.order, planned.page_eq] at hkey
    exact SortKey.column?_of_mem_sortKeys hsound planned.order_declared hkey
  | row registered decoded single fits planned =>
    have hsound := Registry.sound_of_validate engine.valid registered
    have hscope := scopes_of_singleKey? single fits
    refine ⟨registered, wellTyped_of_planned hsound decoded hscope planned rfl, fun key hkey => ?_⟩
    rw [Call.order, planned.page_eq] at hkey
    exact absurd hkey List.not_mem_nil
  | parent registered single fits =>
    exact ⟨registered, (scopes_of_singleKey? single fits).wellTyped,
      fun key hkey => absurd hkey List.not_mem_nil⟩
  | related registered declared fits =>
    have hsound := Registry.sound_of_validate engine.valid registered
    refine ⟨registered, (Predicate.Scopes.isIn declared fits).wellTyped, fun key hkey => ?_⟩
    obtain ⟨name, hname, rfl⟩ := List.mem_map.1 hkey
    exact hsound.key_declared name hname

/-- The questions that a source is asked for the requests of an engine, whatever their parameters. -/
inductive Asks (engine : Engine) (source : RowSource) : Call → Prop
  | list (name : String) (params : Params) {call : Call}
      (h : call ∈ (engine.list name params).calls source) : Asks engine source call
  | getOne (name id : String) (params : Params) {call : Call}
      (h : call ∈ (engine.getOne name id params).calls source) : Asks engine source call
  | listNested (parent id child : String) (params : Params) {call : Call}
      (h : call ∈ (engine.listNested parent id child params).calls source) : Asks engine source call

/-- Every question that a source is asked is well typed, so that every comparison it needs is
defined and between values of one type. -/
theorem wellTyped_of_asks (built : engine.registry.Built) {source : RowSource}
    (h : engine.Asks source call) : call.WellTyped engine.registry ∧ call.Comparable := by
  have htyped : call.WellTyped engine.registry := by
    cases h with
    | list name params h =>
      obtain ⟨table, _, hquestion⟩ := question_of_reaches_list built (Fetch.reaches_of_mem_calls h)
      exact hquestion.wellTyped
    | getOne name id params h =>
      obtain ⟨table, _, hquestion⟩ := question_of_reaches_getOne built (Fetch.reaches_of_mem_calls h)
      exact hquestion.wellTyped
    | listNested parent id child params h =>
      obtain ⟨table, _, hquestion⟩ :=
        question_of_reaches_listNested built (Fetch.reaches_of_mem_calls h)
      exact hquestion.wellTyped
  exact ⟨htyped, htyped.comparable⟩

/-- The books of an author are counted by the identifier, read as the type of their own column. -/
theorem wellTyped_books_of_author :
    let books : Call := .count Registry.book (.eq "author_id" (.integer 1))
    books.WellTyped Registry.library ∧ books.Comparable := by
  have hcalls : (library.listNested "author" " 1" "book" ⟨[]⟩).calls Memory.empty.source =
      [.count Registry.book (.eq "author_id" (.integer 1)),
        .select Registry.book ⟨.eq "author_id" (.integer 1), [], .unbounded⟩] := rfl
  have hasked : library.Asks Memory.empty.source
      (.count Registry.book (.eq "author_id" (.integer 1))) :=
    .listNested "author" " 1" "book" ⟨[]⟩ (hcalls ▸ List.mem_cons_self)
  exact wellTyped_of_asks Registry.built_library hasked

end Engine

end TableQuery
