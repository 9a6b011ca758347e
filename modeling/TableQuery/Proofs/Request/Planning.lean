import TableQuery.Plan
import TableQuery.Proofs.Schema.Soundness

/-!
# What a plan asks for

The keys that a request sorts by are the requested ones and, when there are any, the columns of the
primary key that are not listed yet, each once and ascending. A plan that is found counts exactly
the rows of the request inside its scope, asks for a page of the same rows, by these keys, and for
declared relationships of the requested names.
-/

namespace TableQuery

/-- The keys that a request sorts by: without requested ones none, so that rows come as stored. -/
def Request.sortKeys (request : Request) (table : Table) : List SortKey :=
  if request.order = [] then []
  else request.order ++
    ((table.primaryKey.filter fun name => name ∉ request.order.map SortKey.column).eraseDups.map
      fun name => ⟨name, .ascending⟩)

namespace SortKey

/-- Extending keys adds the columns that are not listed yet, each once, in ascending direction. -/
theorem extend_eq (keys : List SortKey) (columns : List String) :
    extend keys columns = keys ++ ((columns.filter fun name => name ∉ keys.map column).eraseDups.map
      fun name => ⟨name, .ascending⟩) := by
  induction columns generalizing keys with
  | nil => simp [extend]
  | cons name rest ih =>
    change extend (if name ∈ keys.map column then keys else keys ++ [⟨name, .ascending⟩]) rest = _
    by_cases hlisted : name ∈ keys.map column
    · rw [if_pos hlisted, ih, List.filter_cons_of_neg (by simpa using hlisted)]
    · have hfilter :
          (rest.filter fun other => other ∉ (keys ++ [(⟨name, .ascending⟩ : SortKey)]).map column) =
            (rest.filter fun other => other ∉ keys.map column).filter fun other => !other == name := by
        rw [List.filter_filter]
        refine List.filter_congr fun other _ => ?_
        rw [List.map_append, List.map_singleton]
        by_cases h : other = name <;> simp [h]
      rw [if_neg hlisted, ih, hfilter, List.filter_cons_of_pos (by simpa using hlisted),
        List.eraseDups_cons, List.map_cons, List.append_assoc, List.singleton_append]

/-- An extended order sorts by its keys and, ascending, by the columns that these do not list. -/
theorem mem_extend_iff {keys : List SortKey} {columns : List String} {key : SortKey} :
    key ∈ extend keys columns ↔
      key ∈ keys ∨ ∃ name ∈ columns, name ∉ keys.map column ∧ ⟨name, .ascending⟩ = key := by
  rw [extend_eq, List.mem_append, List.mem_map]
  simp only [List.mem_eraseDups, List.mem_filter, decide_eq_true_eq, and_assoc]

/-- An order extended by columns sorts by each of them. -/
theorem mem_columns_extend {keys : List SortKey} {columns : List String} {name : String}
    (h : name ∈ columns) : name ∈ (extend keys columns).map column := by
  by_cases hlisted : name ∈ keys.map column
  · obtain ⟨key, hkey, rfl⟩ := List.mem_map.1 hlisted
    exact List.mem_map_of_mem (mem_extend_iff.2 (Or.inl hkey))
  · exact List.mem_map.2 ⟨_, mem_extend_iff.2 (Or.inr ⟨name, h, hlisted, rfl⟩), rfl⟩

/-- Extending an order of declared columns by declared columns leaves all of them declared. -/
theorem column?_of_mem_extend {table : Table} {keys : List SortKey} {columns : List String}
    (hkeys : ∀ key ∈ keys, ∃ column, table.column? key.column = some column)
    (hcolumns : ∀ name ∈ columns, ∃ column, table.column? name = some column) {key : SortKey}
    (h : key ∈ extend keys columns) : ∃ column, table.column? key.column = some column := by
  rcases mem_extend_iff.1 h with hkey | ⟨name, hname, _, rfl⟩
  · exact hkeys key hkey
  · exact hcolumns name hname

/-- Resolving keys succeeds when their columns are declared, and extends them unless there are none. -/
theorem resolve_eq_ok_iff_extend {table : Table} {keys resolved : List SortKey} :
    resolve table keys = .ok resolved ↔
      (∀ key ∈ keys, ∃ column, table.column? key.column = some column) ∧
        resolved = if keys = [] then [] else extend keys table.primaryKey := by
  unfold resolve
  split
  next key hfind =>
    have hmissing := List.find?_some hfind
    refine ⟨fun h => by simp at h, fun h => ?_⟩
    obtain ⟨column, hcolumn⟩ := h.1 key (List.mem_of_find?_eq_some hfind)
    simp [hcolumn] at hmissing
  next hfind =>
    have hdeclared : ∀ key ∈ keys, ∃ column, table.column? key.column = some column := by
      intro key hkey
      have := List.find?_eq_none.1 hfind key hkey
      rwa [Option.isNone_iff_eq_none, ← ne_eq, Option.ne_none_iff_exists'] at this
    rw [Except.ok.injEq]
    exact ⟨fun h => ⟨hdeclared, h.symm⟩, fun h => h.2.symm⟩

/-- A request sorts by its order, extended by the primary key unless it is empty. -/
theorem sortKeys_eq_extend (request : Request) (table : Table) :
    request.sortKeys table =
      if request.order = [] then [] else extend request.order table.primaryKey := by
  rw [extend_eq]
  rfl

/-- Resolving an order succeeds when its columns are declared, and completes it. -/
theorem resolve_eq_ok_iff {table : Table} {request : Request} {keys : List SortKey} :
    resolve table request.order = .ok keys ↔
      (∀ key ∈ request.order, ∃ column, table.column? key.column = some column) ∧
        keys = request.sortKeys table := by
  rw [resolve_eq_ok_iff_extend, sortKeys_eq_extend]

/-- Every key of a resolved order sorts by a declared column. -/
theorem column?_of_mem_sortKeys {registry : Registry} {table : Table} {request : Request}
    (hsound : registry.Sound table)
    (hdeclared : ∀ key ∈ request.order, ∃ column, table.column? key.column = some column)
    {key : SortKey} (h : key ∈ request.sortKeys table) :
    ∃ column, table.column? key.column = some column := by
  rw [sortKeys_eq_extend] at h
  split at h
  · contradiction
  · exact column?_of_mem_extend hdeclared hsound.key_declared h

/-- A request that sorts at all also sorts by each column of the primary key. -/
theorem exists_mem_sortKeys {table : Table} {request : Request} (h : request.sortKeys table ≠ [])
    {name : String} (hname : name ∈ table.primaryKey) :
    ∃ key ∈ request.sortKeys table, key.column = name := by
  rw [sortKeys_eq_extend] at h ⊢
  split at h
  next => contradiction
  next horder =>
    rw [if_neg horder]
    exact List.mem_map.1 (mem_columns_extend hname)

end SortKey

namespace Registry

variable {registry : Registry} {table : Table} {request : Request} {scope : Predicate} {plan : Plan}

/-- A relationship of a table is found by its name when its target is registered. -/
theorem relationship?_eq_some {name : String} {r : Relationship} {target : Table}
    (hr : table.relationship? name = some r) (htarget : registry.table? r.target = some target) :
    registry.relationship? table name = some r := by
  rw [relationship?, hr, Option.filter_some, htarget]
  rfl

/-- What a plan for a request holds. -/
structure Planned (registry : Registry) (table : Table) (request : Request) (scope : Predicate)
    (plan : Plan) : Prop where
  order_declared : ∀ key ∈ request.order, ∃ column, table.column? key.column = some column
  count_eq : plan.count = ⟨.all [request.predicate, scope]⟩
  page_eq : plan.page = ⟨.all [request.predicate, scope], request.sortKeys table, request.window⟩
  names_eq : plan.relationships.map Relationship.name = request.relationships
  declared : ∀ r ∈ plan.relationships, r ∈ table.relationships

/-- The rows that count satisfy the request and the scope. -/
theorem Planned.predicate_eq (h : registry.Planned table request scope plan) :
    plan.predicate = .all [request.predicate, scope] := by
  rw [Plan.predicate, h.count_eq]

/-- The page is one of the rows that count. -/
theorem Planned.page_predicate (h : registry.Planned table request scope plan) :
    plan.page.predicate = plan.predicate := by
  rw [h.predicate_eq, h.page_eq]

/-- Resolved relationships are declared on the table, and are those of the names. -/
theorem of_resolveRelationships {names : List String} {relationships : List Relationship}
    (h : registry.resolveRelationships table names = .ok relationships) :
    relationships.map Relationship.name = names ∧
      ∀ r ∈ relationships, r ∈ table.relationships := by
  induction names generalizing relationships with
  | nil =>
    rw [resolveRelationships, Except.ok.injEq] at h
    simp [← h]
  | cons name rest ih =>
    unfold resolveRelationships at h
    split at h
    · contradiction
    next r hr =>
      simp only [Failure.bind_eq_ok_iff, Except.ok.injEq] at h
      obtain ⟨more, hmore, rfl⟩ := h
      obtain ⟨hnames, hdeclared⟩ := ih hmore
      have hfind : table.relationship? name = some r := (Option.filter_eq_some_iff.1 hr).1
      have hname : r.name = name := by simpa using List.find?_some hfind
      refine ⟨by rw [List.map_cons, hname, hnames], fun other hother => ?_⟩
      rcases List.mem_cons.1 hother with rfl | hother
      · exact List.mem_of_find?_eq_some hfind
      · exact hdeclared other hother

/-- A request whose order and relationships are resolved has a plan. -/
theorem plan_eq_ok {keys : List SortKey} {relationships : List Relationship}
    (hkeys : SortKey.resolve table request.order = .ok keys)
    (hrelationships : registry.resolveRelationships table request.relationships = .ok relationships)
    (scope : Predicate) :
    registry.plan table request scope =
      .ok ⟨table.name, ⟨.all [request.predicate, scope]⟩,
        ⟨.all [request.predicate, scope], keys, request.window⟩, relationships⟩ := by
  rw [Registry.plan, hkeys, hrelationships]
  rfl

/-- A plan that is found holds what the request asks for. -/
theorem planned_of_plan (h : registry.plan table request scope = .ok plan) :
    registry.Planned table request scope plan := by
  simp only [Registry.plan, Failure.bind_eq_ok_iff, Except.ok.injEq] at h
  obtain ⟨order, horder, relationships, hrelationships, rfl⟩ := h
  obtain ⟨hdeclared, rfl⟩ := SortKey.resolve_eq_ok_iff.1 horder
  obtain ⟨hnames, hmem⟩ := of_resolveRelationships hrelationships
  exact ⟨hdeclared, rfl, rfl, hnames, hmem⟩

/-- A plan that is found counts the rows of its page, whatever the order and the window. -/
theorem count_of_plan (h : registry.plan table request scope = .ok plan) :
    plan.count = ⟨plan.page.predicate⟩ :=
  congrArg CountQuery.mk (planned_of_plan h).page_predicate.symm

end Registry

end TableQuery
