import TableQuery.Proofs.Engine.Expansion
import TableQuery.Proofs.Request.Planning
import TableQuery.Proofs.Request.Selection

/-!
# Listings of a table in memory

A listing counts the rows that the request selects and shows the part of their arrangement that lies
inside the window. Decoding, planning, filtering, sorting, cutting and projecting are put together
here; each part has its own module.
-/

namespace TableQuery

variable {table : Table} {request : Request} {memory : Memory}

namespace Memory

/-- The window of a query holds the projected rows of an arrangement of all rows it selects. -/
theorem exists_arranged_select (memory : Memory) (table : Table) (query : SelectQuery) :
    ∃ occurrences,
      Arranged table query.order (memory.rows table.name) (query.predicate.holds table) occurrences ∧
        memory.select table query =
          (query.window.apply occurrences).map fun occurrence => table.project occurrence.1 := by
  obtain ⟨occurrences, harranged, hrows⟩ :=
    Arranged.exists_of_sort table query.order (memory.rows table.name) (query.predicate.holds table)
  refine ⟨occurrences, harranged, ?_⟩
  rw [select, matching, ← hrows, Window.apply_map, List.map_map]
  rfl

/-- The page of a plan is what its query selects, also when it is not asked for. -/
theorem outcome_fetchPage (query : SelectQuery) :
    (Engine.fetchPage table query).outcome memory.source = .ok (memory.select table query) := by
  unfold Engine.fetchPage
  split
  next hempty =>
    simp only [Window.isEmptyPage, decide_eq_true_eq] at hempty
    have hnothing : query.window.apply
        (SortKey.sort table query.order (memory.matching table query.predicate)) = [] := by
      rw [Window.apply, hempty]
      rfl
    rw [select, hnothing]
    rfl
  next => exact Fetch.outcome_askSelect _ _

end Memory

namespace Engine

variable {engine : Engine} {name : String} {params : Params} {plan : Plan}

/-- Carrying out a plan over rows in memory counts the rows of the condition and expands the page. -/
theorem outcome_execute_eq (engine : Engine) (table : Table) (plan : Plan) (memory : Memory) :
    (engine.execute table plan).outcome memory.source =
      (engine.registry.expand table (memory.select table plan.page)
        plan.relationships).outcome memory.source >>= fun result =>
          .ok ⟨(memory.matching table plan.predicate).length, result⟩ := by
  rw [execute, Fetch.outcome_bind_of_ok (Fetch.outcome_askCount _ _),
    Fetch.outcome_bind_of_ok (Memory.outcome_fetchPage _), Fetch.outcome_bind]
  rfl

/-- The relationships of a plan have links. -/
theorem exists_links_of_planned {scope : Predicate}
    (htable : engine.registry.table? name = some table)
    (hplanned : engine.registry.Planned table request scope plan) :
    ∃ links : List Link, engine.registry.links table plan.relationships = .ok links := by
  apply Registry.exists_links table
  intro r hr
  exact (Registry.sound_of_validate engine.valid htable).exists_target (hplanned.declared r hr)

/-- Carrying out a plan over rows in memory counts the rows of the condition, and attaches to each row
of the page what the links lead to. -/
theorem outcome_execute_of_links {links : List Link} (memory : Memory)
    (hlinks : engine.registry.links table plan.relationships = .ok links) :
    (engine.execute table plan).outcome memory.source =
      .ok ⟨(memory.matching table plan.predicate).length, (memory.select table plan.page).map
        (Link.attach table (links.map fun link =>
          (link, link.fetched memory table (memory.select table plan.page))))⟩ := by
  rw [outcome_execute_eq, Registry.outcome_expand_of_links hlinks]
  rfl

/-- Carrying out a plan over rows in memory succeeds: it counts the rows of the condition and keeps
the columns of the page. -/
theorem outcome_execute (memory : Memory) {scope : Predicate}
    (htable : engine.registry.table? name = some table)
    (hplanned : engine.registry.Planned table request scope plan) :
    ∃ listing, (engine.execute table plan).outcome memory.source = .ok listing ∧
      listing.total = (memory.matching table plan.predicate).length ∧
      listing.result.map ResultRow.columns = memory.select table plan.page := by
  obtain ⟨links, hlinks⟩ := exists_links_of_planned htable hplanned
  refine ⟨_, outcome_execute_of_links memory hlinks, rfl, ?_⟩
  rw [List.map_map]
  exact List.map_id _

/-- A listing counts the rows that the request selects, and shows them from its offset on up to its
limit, in the order of the requested keys, then of the primary key, then as they are stored. -/
theorem outcome_list_eq_window (built : engine.registry.Built)
    (htable : engine.registry.table? name = some table)
    (hrequest : Request.decode params table engine.settings = .ok request)
    (hplan : engine.registry.plan table request .always = .ok plan) (memory : Memory) :
    ∃ listing occurrences,
      (engine.list name params).outcome memory.source = .ok listing ∧
      Arranged table (request.sortKeys table) (memory.rows name)
        (fun row => request.Selects table row) occurrences ∧
      listing.total = (memory.rows name).countP (fun row => request.Selects table row) ∧
      ∀ i, (listing.result[i]?).map (fun row => row.columns.fields) =
        if request.window.limit.all (i < ·) then
          (occurrences[request.window.offset + i]?).map fun occurrence => table.shown occurrence.1
        else none := by
  have hplanned := Registry.planned_of_plan hplan
  have hname := built.name_eq htable
  have hnodup := (Registry.sound_of_validate engine.valid htable).columns_nodup
  have hholds : plan.predicate.holds table = fun row => decide (request.Selects table row) := by
    funext row
    rw [hplanned.predicate_eq, Bool.eq_iff_iff, decide_eq_true_iff, Predicate.holds_all,
      ← Request.holds_predicate hrequest]
    simp [Predicate.holds]
  obtain ⟨listing, hexecute, htotal, hresult⟩ := outcome_execute memory htable hplanned
  obtain ⟨occurrences, harranged, hselect⟩ := memory.exists_arranged_select table plan.page
  rw [hplanned.page_predicate, hholds, hplanned.page_eq, hname] at harranged
  refine ⟨listing, occurrences, ?_, harranged, ?_, fun i => ?_⟩
  · have hprepare : engine.prepare table params .always = .ok plan :=
      Failure.bind_eq_ok_iff.2 ⟨request, hrequest, hplan⟩
    rw [list, Registry.require_eq_ok_iff.2 htable]
    change (engine.listScoped table params .always).outcome memory.source = .ok listing
    rw [listScoped, hprepare]
    exact hexecute
  · rw [htotal, Memory.matching, hholds, hname, List.countP_eq_length_filter]
  · have hcolumns : (listing.result[i]?).map ResultRow.columns =
        ((memory.select table plan.page)[i]?) := by
      rw [← List.getElem?_map, hresult]
    have hfields (row : Row) : (table.project row).fields = table.shown row :=
      Table.fields_project hnodup row
    rw [hselect, List.getElem?_map, Window.getElem?_apply, hplanned.page_eq] at hcolumns
    have hshown := congrArg (Option.map Row.fields) hcolumns
    rw [Option.map_map] at hshown
    refine hshown.trans ?_
    split
    · simp only [Option.map_map, Function.comp_def, hfields]
    · rfl

/-- Two of three authors have an `a` in their names; of these the page holds the one born last. -/
theorem outcome_list_library :
    let memory := Memory.empty.append "author" [
      .ofList [("id", .int 2), ("name", .str "alan"), ("born", .str "1912-06-23")],
      .ofList [("id", .int 3), ("name", .str "joyce")],
      .ofList [("id", .int 1), ("name", .str "ada"), ("born", .str "1815-12-10")]]
    let params : Params := ⟨[("name____str", "a"), ("name____str_____matching_pattern", "contains"),
      ("order_by_columns", "born:DESC"), ("limit", "1")]⟩
    let request : Request := {
      filters := [⟨"name", none, none, some ⟨.contains, ["a"]⟩⟩]
      window := ⟨some 1, 0⟩
      order := [⟨"born", .descending⟩] }
    ∃ listing occurrences, (library.list "author" params).outcome memory.source = .ok listing ∧
      Arranged Registry.author (request.sortKeys Registry.author) (memory.rows "author")
        (fun row => request.Selects Registry.author row) occurrences ∧
      listing.total = 2 ∧
      (listing.result[0]?).map (fun row => row.columns.fields) =
        (occurrences[0]?).map fun occurrence => Registry.author.shown occurrence.1 := by
  intro memory params request
  have htable : library.registry.table? "author" = some Registry.author := rfl
  have hrequest : Request.decode params Registry.author library.settings = .ok request := rfl
  obtain ⟨listing, occurrences, houtcome, harranged, htotal, hresult⟩ :=
    outcome_list_eq_window Registry.built_library htable hrequest rfl memory
  exact ⟨listing, occurrences, houtcome, harranged, htotal.trans (by decide +kernel), hresult 0⟩

end Engine

end TableQuery
