import TableQuery.Proofs.Engine.Listing
import TableQuery.Proofs.Engine.Steps
import TableQuery.Proofs.Request.Grammar
import TableQuery.Proofs.Request.Insertion

/-!
# Totals and the sizes of pages

A listing counts and pages by separate questions. Its total depends on the constraints of the columns
alone, and its page has as many rows as the window leaves of the total. A configured maximum bounds
every decoded limit, and with it every page.
-/

namespace TableQuery

/-- The number of rows that a window leaves of so many. -/
def Window.size (w : Window) (total : Nat) : Nat :=
  match w.limit with
  | none => total - w.offset
  | some limit => min limit (total - w.offset)

/-- A window leaves no more rows than there are. -/
theorem Window.size_le (w : Window) (total : Nat) : w.size total ≤ total := by
  unfold size
  split
  · exact Nat.sub_le total w.offset
  · exact (Nat.min_le_right _ _).trans (Nat.sub_le total w.offset)

/-- A query selects as many rows as its window leaves of those that satisfy its condition. -/
theorem Memory.length_select (memory : Memory) (table : Table) (query : SelectQuery) :
    (memory.select table query).length =
      query.window.size (memory.matching table query.predicate).length := by
  have hsort := (SortKey.sort_perm table query.order (memory.matching table query.predicate)).length_eq
  rw [select, List.length_map, Window.length_apply, hsort]
  rfl

namespace Request

variable {params other : Params} {table : Table} {settings : Settings} {request decoded : Request}

/-- Parameters with the same values under the keys of the columns have the same filters. -/
theorem filters_congr
    (h : ∀ column ∈ table.columns, ∀ facet : Facet,
      params.getAll (facet.key column.name) = other.getAll (facet.key column.name))
    (hrequest : decode params table settings = .ok request)
    (hdecoded : decode other table settings = .ok decoded) : request.filters = decoded.filters := by
  have hsame : decodeColumns params table.columns = decodeColumns other table.columns :=
    decodeColumns_congr fun column hcolumn => decodeColumn_congr (h column hcolumn)
  rw [filters_of_decode hrequest, filters_of_decode hdecoded] at hsame
  exact Except.ok.inj hsame

/-- With a greatest limit, every decoded window has a limit, which is no greater. -/
theorem limit_le_of_decode (h : decode params table settings = .ok request) {maximum : Nat}
    (hmax : settings.maxLimit = some maximum) :
    ∃ limit ≤ maximum, request.window.limit = some limit := by
  obtain ⟨⟨given, _, hread⟩, _⟩ := decodeWindow_eq_ok_iff.1 (window_of_decode h)
  rcases Window.readLimit_eq_ok_iff.1 hread with ⟨raw, n, _, _, hle, hlimit⟩ | ⟨_, hlimit⟩
  · exact ⟨n, hle maximum hmax, hlimit⟩
  · rw [hmax] at hlimit
    cases hdefault : settings.defaultLimit with
    | none =>
      rw [hdefault] at hlimit
      exact ⟨maximum, le_rfl, hlimit⟩
    | some default =>
      rw [hdefault] at hlimit
      exact ⟨min default maximum, Nat.min_le_right _ _, hlimit⟩

end Request

/-- A listing has the size that a window leaves of its total, which respects the configured maximum. -/
structure Listing.Sized (listing : Listing) (window : Window) (settings : Settings) : Prop where
  length_eq : listing.result.length = window.size listing.total
  le_total : listing.result.length ≤ listing.total
  le_maximum : ∀ maximum ∈ settings.maxLimit, listing.result.length ≤ maximum

namespace Engine

variable {engine : Engine} {table : Table} {params : Params} {scope : Predicate} {memory : Memory}
  {listing : Listing}

/-- A listing inside a scope counts the rows that satisfy the decoded filters and the scope, and shows
what the decoded window leaves of them. -/
theorem of_outcome_listScoped {name : String} (htable : engine.registry.table? name = some table)
    (h : (engine.listScoped table params scope).outcome memory.source = .ok listing) :
    ∃ request, Request.decode params table engine.settings = .ok request ∧
      listing.total = (memory.matching table (.all [request.predicate, scope])).length ∧
      listing.Sized request.window engine.settings := by
  obtain ⟨plan, hprepare, hexecute⟩ := outcome_listScoped_eq_ok_iff.1 h
  obtain ⟨request, hrequest, hplan⟩ := prepare_eq_ok_iff.1 hprepare
  have hplanned := Registry.planned_of_plan hplan
  obtain ⟨found, hfound, htotal, hresult⟩ := outcome_execute memory htable hplanned
  obtain rfl : found = listing := Except.ok.inj (hfound.symm.trans hexecute)
  rw [hplanned.predicate_eq] at htotal
  have hlength : found.result.length = request.window.size found.total := by
    rw [← List.length_map ResultRow.columns, hresult, Memory.length_select, htotal, hplanned.page_eq]
  have hle := request.window.size_le found.total
  refine ⟨request, hrequest, htotal, hlength, hlength ▸ hle, fun maximum hmax => ?_⟩
  obtain ⟨limit, hlimit, hwindow⟩ := Request.limit_le_of_decode hrequest hmax
  rw [hlength, Window.size, hwindow]
  exact (Nat.min_le_left _ _).trans hlimit

/-- A listing that is prepared succeeds. -/
theorem exists_outcome_list {name : String} {plan : Plan} (params : Params) (memory : Memory)
    (htable : engine.registry.table? name = some table)
    (hprepare : engine.prepare table params .always = .ok plan) :
    ∃ listing, (engine.list name params).outcome memory.source = .ok listing := by
  obtain ⟨request, _, hplan⟩ := prepare_eq_ok_iff.1 hprepare
  obtain ⟨listing, hexecute, _⟩ := outcome_execute memory htable (Registry.planned_of_plan hplan)
  have hlist := outcome_listScoped_eq_ok_iff.2 ⟨plan, hprepare, hexecute⟩
  exact ⟨listing, outcome_list_eq_ok_iff.2 ⟨table, htable, hlist⟩⟩

/-- Listings whose parameters agree on the columns have one total. Every listing, nested or not, has as
many rows as the decoded window leaves of its total, and no more than a configured maximum; with a
maximum every decoded window has a limit, which respects it. -/
theorem total_and_size_of_listings (engine : Engine) (memory : Memory) :
    (∀ name params other first second,
      (∀ table, engine.registry.table? name = some table → ∀ column ∈ table.columns,
        ∀ facet : Facet,
          params.getAll (facet.key column.name) = other.getAll (facet.key column.name)) →
      (engine.list name params).outcome memory.source = .ok first →
      (engine.list name other).outcome memory.source = .ok second → first.total = second.total) ∧
    (∀ name params listing, (engine.list name params).outcome memory.source = .ok listing →
      ∃ table request, engine.registry.table? name = some table ∧
        Request.decode params table engine.settings = .ok request ∧
        listing.Sized request.window engine.settings) ∧
    (∀ parent id child params listing,
      (engine.listNested parent id child params).outcome memory.source = .ok listing →
      ∃ table request, engine.registry.table? child = some table ∧
        Request.decode params table engine.settings = .ok request ∧
        listing.Sized request.window engine.settings) ∧
    ∀ maximum, engine.settings.maxLimit = some maximum → ∀ table params request,
      Request.decode params table engine.settings = .ok request →
        ∃ limit ≤ maximum, request.window.limit = some limit := by
  refine ⟨?_, ?_, ?_, ?_⟩
  · intro name params other first second hsame hfirst hsecond
    obtain ⟨table, htable, hfirst⟩ := outcome_list_eq_ok_iff.1 hfirst
    obtain ⟨again, hagain, hsecond⟩ := outcome_list_eq_ok_iff.1 hsecond
    obtain rfl : table = again := Option.some.inj (htable.symm.trans hagain)
    obtain ⟨request, hrequest, htotal, _⟩ := of_outcome_listScoped htable hfirst
    obtain ⟨decoded, hdecoded, hother, _⟩ := of_outcome_listScoped htable hsecond
    have hfilters := Request.filters_congr (hsame table htable) hrequest hdecoded
    rw [htotal, hother, Request.predicate, Request.predicate, hfilters]
  · intro name params listing hlist
    obtain ⟨table, htable, hlist⟩ := outcome_list_eq_ok_iff.1 hlist
    obtain ⟨request, hrequest, _, hsized⟩ := of_outcome_listScoped htable hlist
    exact ⟨table, request, htable, hrequest, hsized⟩
  · intro parent id child params listing hlist
    obtain ⟨_, table, _, _, _, _, _, htable, _, _, _, hlist⟩ := outcome_listNested_eq_ok_iff.1 hlist
    obtain ⟨request, hrequest, _, hsized⟩ := of_outcome_listScoped htable hlist
    exact ⟨table, request, htable, hrequest, hsized⟩
  · intro maximum hmax table params request hrequest
    exact Request.limit_le_of_decode hrequest hmax

/-- Of three books, one listing shows the page behind the first, another asks for no page at all. Both
count the books with an author, and the page respects the maximum although it asks for no limit. -/
theorem total_and_size_of_books :
    let engine : Engine :=
      ⟨.library, { defaultLimit := some 5, maxLimit := some 2 }, Registry.validate_library⟩
    let memory := Memory.empty.append "book" [
      .ofList [("id", .int 7), ("author_id", .int 2), ("title", .str "on numbers")],
      .ofList [("id", .int 8), ("author_id", .null), ("title", .str "letters")],
      .ofList [("id", .int 9), ("author_id", .int 1), ("title", .str "notes")]]
    let behind : Params := ⟨[("author_id____from", "1"), ("offset", "1"), ("order_by_columns", "title")]⟩
    let unseen : Params := ⟨[("limit", "0"), ("author_id____from", "1"), ("relationship", "author")]⟩
    ∃ first second, (engine.list "book" behind).outcome memory.source = .ok first ∧
      (engine.list "book" unseen).outcome memory.source = .ok second ∧
      first.total = second.total ∧ first.result.length ≤ 2 := by
  intro engine memory behind unseen
  have htable : engine.registry.table? "book" = some Registry.book := rfl
  obtain ⟨first, hfirst⟩ := exists_outcome_list behind memory htable rfl
  obtain ⟨second, hsecond⟩ := exists_outcome_list unseen memory htable rfl
  have hsame : ∀ table, engine.registry.table? "book" = some table → ∀ column ∈ table.columns,
      ∀ facet : Facet,
        behind.getAll (facet.key column.name) = unseen.getAll (facet.key column.name) := by
    intro table hfound column hcolumn facet
    obtain rfl : Registry.book = table := Option.some.inj (htable.symm.trans hfound)
    revert column
    cases facet <;> decide
  obtain ⟨htotal, hsized, _⟩ := total_and_size_of_listings engine memory
  obtain ⟨_, _, _, _, hsize⟩ := hsized "book" behind first hfirst
  exact ⟨first, second, hfirst, hsecond, htotal "book" behind unseen first second hsame hfirst hsecond,
    hsize.le_maximum 2 rfl⟩

end Engine

end TableQuery
