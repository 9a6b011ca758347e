import TableQuery.Proofs.Engine.Questions
import TableQuery.Proofs.Sql.Execution

/-!
# The same answers from a database and from memory

An engine over a database that holds the rows of a memory answers as the engine over the memory. Each
question that the engine can ask is one that both answer alike, so that all that follows from the
answers, failures included, is the same.
-/

namespace TableQuery

/-- A request whose bounds have years of four digits, and whose window a statement can hold. -/
structure Request.InRange (request : Request) : Prop where
  bounds : ∀ filter ∈ request.filters, ∀ range ∈ filter.range, ∀ bound ∈ range.bounds,
    bound.value.HasFourDigitYear
  window : request.window.InRange

namespace Engine

variable {engine : Engine} {table : Table} {params : Params} {call : Call}

/-- Parameters that are those of a request on a table are those of one in range. -/
def InRange (engine : Engine) (name : String) (params : Params) : Prop :=
  ∀ table request, engine.registry.table? name = some table →
    Request.decode params table engine.settings = .ok request → request.InRange

/-! ## The questions of requests in range -/

/-- The bounds of a plan for a request in range have years of four digits; a scope has no bounds. -/
theorem hasFourDigitYear_of_planned {request decoded : Request} {scope : Predicate} {plan : Plan}
    (hrange : decoded.InRange) (hscope : scope.Scopes table)
    (hplanned : engine.registry.Planned table request scope plan)
    (hfilters : request.filters = decoded.filters) {v : Value}
    (h : plan.page.predicate.Bounds v) : v.HasFourDigitYear := by
  rw [hplanned.page_eq] at h
  obtain ⟨part, hpart, h⟩ := h.of_all
  rcases List.mem_cons.1 hpart with rfl | hpart
  · obtain ⟨filter, hfilter, range, hmem, bound, hbound, rfl⟩ := Request.of_bounds_predicate h
    exact hrange.bounds filter (hfilters ▸ hfilter) range hmem bound hbound
  · rw [List.mem_singleton.1 hpart] at h
    cases hscope with
    | always => cases h
    | isIn => cases h

/-- The bounds of a question have years of four digits. -/
theorem Question.hasFourDigitYear (h : engine.Question table params call)
    (hrange : ∀ request, Request.decode params table engine.settings = .ok request → request.InRange)
    {v : Value} (hbound : call.predicate.Bounds v) : v.HasFourDigitYear := by
  cases h with
  | count registered decoded scopes planned =>
    exact hasFourDigitYear_of_planned (hrange _ decoded) scopes planned rfl
      (planned.page_predicate ▸ hbound)
  | page registered decoded scopes planned =>
    exact hasFourDigitYear_of_planned (hrange _ decoded) scopes planned rfl hbound
  | row registered decoded single fits planned =>
    have hscope := scopes_of_singleKey? single fits
    exact hasFourDigitYear_of_planned (hrange _ decoded) hscope planned rfl hbound
  | parent => cases hbound
  | related => cases hbound

/-- A question that sorts at all also sorts by the primary key. -/
theorem Question.keyed (h : engine.Question table params call) (horder : call.order ≠ [])
    {name : String} (hname : name ∈ call.table.primaryKey) :
    ∃ key ∈ call.order, key.column = name := by
  cases h with
  | count => exact absurd rfl horder
  | page registered decoded scopes planned =>
    simp only [Call.order, Call.table, planned.page_eq] at horder hname ⊢
    exact SortKey.exists_mem_sortKeys horder hname
  | row registered decoded single fits planned =>
    simp only [Call.order, planned.page_eq] at horder
    exact absurd rfl horder
  | parent => exact absurd rfl horder
  | related => exact ⟨_, List.mem_map_of_mem hname, rfl⟩

/-- The window of a question can be held by a statement. -/
theorem Question.window_inRange {asked : Table} {query : SelectQuery}
    (h : engine.Question table params (.select asked query))
    (hrange : ∀ request, Request.decode params table engine.settings = .ok request → request.InRange) :
    query.window.InRange := by
  have hfirst : Window.first.InRange := ⟨by decide, by decide⟩
  have hunbounded : Window.unbounded.InRange := ⟨by decide, by decide⟩
  cases h with
  | page registered decoded scopes planned =>
    rw [planned.page_eq]
    exact (hrange _ decoded).window
  | row => exact hfirst
  | parent => exact hfirst
  | related => exact hunbounded

section Mirrored

variable {db : Sql.Database} {memory : Memory} {source : RowSource}

/-- A database and the memory that it mirrors answer a question of a request in range alike. -/
theorem Question.agree (h : engine.Question table params call)
    (hrange : ∀ request, Request.decode params table engine.settings = .ok request → request.InRange)
    (hmirrors : db.Mirrors engine.registry memory) (hexecutes : db.Executes source) :
    Fetch.Agree source memory.source call := by
  have htyped := h.wellTyped
  cases call with
  | count asked p =>
    exact Sql.count_eq hmirrors hexecutes htyped.registered htyped.predicate
      fun v hv => h.hasFourDigitYear hrange hv
  | select asked query =>
    have hsound := Registry.sound_of_validate engine.valid htyped.registered
    refine Sql.select_eq hsound hmirrors hexecutes htyped.registered ?_
    exact {
      predicate := htyped.predicate
      bounds := fun v hv => h.hasFourDigitYear hrange hv
      declared := htyped.order
      keyed := fun horder name hname => h.keyed horder hname
      window := h.window_inRange hrange }

/-- Listings, lookups and nested listings of requests in range have the same outcome over every
source that executes statements on a database as over the memory that the database mirrors. -/
theorem outcome_eq_of_executes (built : engine.registry.Built)
    (hmirrors : db.Mirrors engine.registry memory) (hexecutes : db.Executes source) :
    (∀ name params, engine.InRange name params →
      (engine.list name params).outcome source = (engine.list name params).outcome memory.source) ∧
    (∀ name id params, engine.InRange name params →
      (engine.getOne name id params).outcome source =
        (engine.getOne name id params).outcome memory.source) ∧
    ∀ parent id child params, engine.InRange child params →
      (engine.listNested parent id child params).outcome source =
        (engine.listNested parent id child params).outcome memory.source := by
  refine ⟨fun name params hrange => ?_, fun name id params hrange => ?_,
    fun parent id child params hrange => ?_⟩
  · refine Fetch.outcome_congr fun call hreaches => ?_
    obtain ⟨table, htable, hquestion⟩ := question_of_reaches_list built hreaches
    exact hquestion.agree (hrange table · htable) hmirrors hexecutes
  · refine Fetch.outcome_congr fun call hreaches => ?_
    obtain ⟨table, htable, hquestion⟩ := question_of_reaches_getOne built hreaches
    exact hquestion.agree (hrange table · htable) hmirrors hexecutes
  · refine Fetch.outcome_congr fun call hreaches => ?_
    obtain ⟨table, htable, hquestion⟩ := question_of_reaches_listNested built hreaches
    exact hquestion.agree (hrange table · htable) hmirrors hexecutes

end Mirrored

/-- The row of an author. -/
def authorRow (id : Int64) (name : String) (born : Option Date) : Row :=
  .ofList [("id", (Value.integer id).toJson), ("name", (Value.text name).toJson),
    ("born", (born.map fun d => (Value.date d).toJson).getD .null)]

/-- The row of an author born in a year of four digits can be stored. -/
theorem storable_authorRow (id : Int64) (name : String) {born : Option Date}
    (hborn : ∀ d ∈ born, Calendar.HasFourDigits d.year) :
    Sql.Storable Registry.author (authorRow id name born) := by
  intro column hcolumn cell hcell
  have hcolumns : column ∈ [(⟨"id", .integer, false⟩ : Column), ⟨"name", .text, true⟩,
      ⟨"born", .date, true⟩] := hcolumn
  simp only [List.mem_cons, List.not_mem_nil, or_false] at hcolumns
  rcases hcolumns with rfl | rfl | rfl
  · obtain rfl : (Value.integer id).toJson = cell := Option.some.inj hcell
    exact Or.inr ⟨_, ⟨.integer id, trivial, by simp⟩, rfl⟩
  · obtain rfl : (Value.text name).toJson = cell := Option.some.inj hcell
    exact Or.inr ⟨_, ⟨.text name, trivial, by simp⟩, rfl⟩
  · obtain rfl : (born.map fun d => (Value.date d).toJson).getD .null = cell := Option.some.inj hcell
    cases born with
    | none => exact Or.inl rfl
    | some d => exact Or.inr ⟨_, ⟨.date d, hborn d rfl, by simp⟩, rfl⟩

/-- The last two names of the authors born since 1800 are listed alike. -/
theorem outcome_list_authors :
    let rows := [authorRow 2 "alan" (some ⟨1912, 6, 23, rfl⟩), authorRow 3 "joyce" none,
      authorRow 1 "ada" (some ⟨1815, 12, 10, rfl⟩)]
    let memory := Memory.empty.append "author" rows
    let db := (Sql.Database.empty.append Registry.author rows).append Registry.book []
    let params : Params := ⟨[("born____from", "1800-01-01"), ("order_by_columns", "name:DESC"),
      ("limit", "2")]⟩
    db.Mirrors library.registry memory ∧ library.InRange "author" params ∧
      (library.list "author" params).outcome db.source =
        (library.list "author" params).outcome memory.source := by
  intro rows memory db params
  have hyear {d : Date} (h : d.year = 1912 ∨ d.year = 1815) : Calendar.HasFourDigits d.year := by
    unfold Calendar.HasFourDigits
    omega
  have hrows : ∀ row ∈ rows, Sql.Storable Registry.author row := by
    intro row hrow
    simp only [rows, List.mem_cons, List.not_mem_nil, or_false] at hrow
    rcases hrow with rfl | rfl | rfl
    · refine storable_authorRow 2 "alan" fun d hd => hyear (Or.inl ?_)
      exact congrArg Date.year (Option.some.inj hd).symm
    · exact storable_authorRow 3 "joyce" fun d hd => absurd hd (by simp)
    · refine storable_authorRow 1 "ada" fun d hd => hyear (Or.inr ?_)
      exact congrArg Date.year (Option.some.inj hd).symm
  have hmirrors : db.Mirrors library.registry memory := by
    have hauthors : memory.rows Registry.author.name = rows := rfl
    have hbooks : memory.rows Registry.book.name = [] := rfl
    refine ⟨fun table htable => ?_, fun table htable => ?_⟩
    · rcases Registry.of_table?_library htable with rfl | rfl
      · rw [hauthors, Sql.Database.rows_append, if_neg (by decide), Sql.Database.rows_append,
          if_pos rfl]
        rfl
      · rw [hbooks, Sql.Database.rows_append, if_pos rfl]
        rfl
    · rcases Registry.of_table?_library htable with rfl | rfl
      · rw [hauthors]
        exact ⟨hrows, by decide +kernel, by decide⟩
      · rw [hbooks]
        exact ⟨fun row hrow => absurd hrow List.not_mem_nil, .nil, by decide⟩
  have hrange : library.InRange "author" params := by
    intro table request htable hrequest
    obtain rfl : Registry.author = table := Option.some.inj htable
    have hdecoded : Request.decode params Registry.author library.settings = .ok {
        filters := [⟨"born", some ⟨some ⟨.greaterOrEqual, .date ⟨1800, 1, 1, rfl⟩⟩, none⟩, none, none⟩]
        window := ⟨some 2, 0⟩
        order := [⟨"name", .descending⟩] } := rfl
    obtain rfl := Except.ok.inj (hdecoded.symm.trans hrequest)
    refine ⟨fun filter hfilter range hmem bound hbound => ?_, by decide, by decide⟩
    rw [List.mem_singleton.1 hfilter] at hmem
    obtain rfl := Option.some.inj hmem
    rw [List.mem_singleton.1 hbound]
    exact ⟨by decide, by decide⟩
  have hsame := (outcome_eq_of_executes Registry.built_library hmirrors db.executes_source).1
  exact ⟨hmirrors, hrange, hsame "author" params hrange⟩

end Engine

end TableQuery
