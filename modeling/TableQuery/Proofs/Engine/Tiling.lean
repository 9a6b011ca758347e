import TableQuery.Proofs.Engine.Separation
import TableQuery.Proofs.Engine.Totals
import TableQuery.Proofs.Request.Pages

/-!
# Pages tile a listing

A page of a listing has the total of the listing, and the rows of its window with all that is attached
to them. Pages of one size that start one after the other therefore join to the first rows of the
listing, and to the whole of it once they reach its total.
-/

namespace TableQuery

/-- Windows of one size, each behind the one before, join to what lies in front of the last one's
end. -/
theorem Window.flatMap_range_apply {α : Type} (items : List α) (k n : Nat) :
    ((List.range n).flatMap fun i => (⟨some k, i * k⟩ : Window).apply items) =
      items.take (n * k) := by
  induction n with
  | zero => simp
  | succ n ih =>
    have hlast : (⟨some k, n * k⟩ : Window).apply items = (items.drop (n * k)).take k := rfl
    rw [List.range_succ, List.flatMap_append, ih, List.flatMap_singleton, hlast, Nat.succ_mul,
      List.take_add]

namespace Memory

variable {memory : Memory} {table : Table} {query : SelectQuery}

/-- With a window, a query selects the part inside it of what it selects without. -/
theorem select_window (h : query.window = .unbounded) (window : Window) :
    memory.select table { query with window } = window.apply (memory.select table query) := by
  rw [select, select, h, Window.apply_map]
  rfl

end Memory

namespace Engine

open Request (limitKey offsetKey relationshipKey)

variable {engine : Engine} {name : String} {table : Table} {params paged : Params} {memory : Memory}
  {request : Request} {scope : Predicate} {plan : Plan} {listing : Listing} {limit offset k n : Nat}

/-- Without configured limits, a request without a limit and an offset has no window. -/
theorem window_of_planned (hdefault : engine.settings.defaultLimit = none)
    (hmax : engine.settings.maxLimit = none)
    (habsent : ∀ key ∈ [limitKey, offsetKey], params.contains key = false)
    (hrequest : Request.decode params table engine.settings = .ok request)
    (hplanned : engine.registry.Planned table request scope plan) :
    plan.page.window = .unbounded := by
  rw [hplanned.page_eq, Request.window_of_absent hrequest habsent, Window.fallbackLimit, hdefault,
    hmax]
  rfl

/-- A listing without a window shows as many rows as it counts. -/
theorem total_eq_length (hdefault : engine.settings.defaultLimit = none)
    (hmax : engine.settings.maxLimit = none)
    (habsent : ∀ key ∈ [limitKey, offsetKey], params.contains key = false)
    (htable : engine.registry.table? name = some table)
    (hlist : (engine.listScoped table params scope).outcome memory.source = .ok listing) :
    listing.total = listing.result.length := by
  obtain ⟨request, hrequest, _, hsized⟩ := of_outcome_listScoped htable hlist
  rw [hsized.length_eq, Request.window_of_absent hrequest habsent, Window.fallbackLimit, hdefault, hmax]
  rfl

/-- The relationships that are requested of a table join it by columns without floating-point
numbers. -/
def AsksExactly (engine : Engine) (name : String) (params : Params) : Prop :=
  ∀ table, engine.registry.table? name = some table → ∀ r ∈ table.relationships,
    r.name ∈ params.getSplit relationshipKey → r.IsExact table

/-- The relationships of a plan are requested. -/
theorem AsksExactly.isExact (hexact : engine.AsksExactly name params)
    (htable : engine.registry.table? name = some table)
    (hrequest : Request.decode params table engine.settings = .ok request)
    (hplanned : engine.registry.Planned table request scope plan) :
    ∀ r ∈ plan.relationships, r.IsExact table := by
  intro r hr
  apply hexact table htable r (hplanned.declared r hr)
  rw [← List.mem_eraseDups, ← Request.relationships_of_decode hrequest, ← hplanned.names_eq]
  exact List.mem_map_of_mem hr

/-- A page of a listing has its total, and the rows of the listing inside the window of the page. -/
theorem outcome_list_of_pages (hdefault : engine.settings.defaultLimit = none)
    (hmax : engine.settings.maxLimit = none)
    (habsent : ∀ key ∈ [limitKey, offsetKey], params.contains key = false)
    (hexact : engine.AsksExactly name params)
    (hlist : (engine.list name params).outcome memory.source = .ok listing)
    (hpages : params.Pages limit offset paged) :
    (engine.list name paged).outcome memory.source =
      .ok ⟨listing.total, (⟨some limit, offset⟩ : Window).apply listing.result⟩ := by
  obtain ⟨table, htable, hscoped⟩ := outcome_list_eq_ok_iff.1 hlist
  obtain ⟨plan, hprepare, hexecute⟩ := outcome_listScoped_eq_ok_iff.1 hscoped
  obtain ⟨request, hrequest, hplan⟩ := prepare_eq_ok_iff.1 hprepare
  have hplanned := Registry.planned_of_plan hplan
  have hrelationships := hexact.isExact htable hrequest hplanned
  have hwindow := window_of_planned hdefault hmax habsent hrequest hplanned
  obtain ⟨links, hlinks⟩ := exists_links_of_planned htable hplanned
  have hpaged := Request.decode_of_pages hpages hmax hrequest
  have hplanPaged := Registry.plan_window hplan ⟨some limit, offset⟩
  -- Both plans select from the same sorted rows, and expand each row by itself.
  have hexecutePaged := outcome_execute_eq_expanded htable (Registry.planned_of_plan hplanPaged)
    hlinks hrelationships memory
  rw [Memory.select_window hwindow] at hexecutePaged
  rw [outcome_execute_eq_expanded htable hplanned hlinks hrelationships memory,
    Except.ok.injEq] at hexecute
  have hpreparePaged := prepare_eq_ok_iff.2 ⟨_, hpaged, hplanPaged⟩
  rw [outcome_list_eq_ok_iff]
  refine ⟨table, htable, outcome_listScoped_eq_ok_iff.2 ⟨_, hpreparePaged, ?_⟩⟩
  rw [hexecutePaged, ← hexecute, Window.apply_map]
  rfl

/-- The pages of one size that follow each other have the total of the listing and join to its first
rows, with all that is attached to them; they join to the listing once they reach its total. -/
theorem outcome_list_tiles (hdefault : engine.settings.defaultLimit = none)
    (hmax : engine.settings.maxLimit = none)
    (habsent : ∀ key ∈ [limitKey, offsetKey], params.contains key = false)
    (hexact : engine.AsksExactly name params)
    (hlist : (engine.list name params).outcome memory.source = .ok listing)
    (hk : 0 < k) (hbound : n * k < Decimal.wordBound) :
    ∃ tiles : Nat → Listing,
      (∀ i < n, params.Pages k (i * k) (params.page k (i * k)) ∧
        (∀ paged, params.Pages k (i * k) paged →
          (engine.list name paged).outcome memory.source = .ok (tiles i)) ∧
        (tiles i).total = listing.total) ∧
      ((List.range n).flatMap fun i => (tiles i).result) = listing.result.take (n * k) ∧
      (listing.total ≤ n * k →
        ((List.range n).flatMap fun i => (tiles i).result) = listing.result) := by
  have hjoin := Window.flatMap_range_apply listing.result k n
  refine ⟨fun i => ⟨listing.total, (⟨some k, i * k⟩ : Window).apply listing.result⟩,
    fun i hi => ⟨?_, fun paged hpages => ?_, rfl⟩, hjoin, fun htotal => ?_⟩
  · have hbefore : i * k < n * k := Nat.mul_lt_mul_of_pos_right hi hk
    have hsize : k ≤ n * k := Nat.le_mul_of_pos_left k (Nat.zero_lt_of_lt hi)
    exact Params.pages_page habsent (hsize.trans_lt hbound) (hbefore.trans hbound)
  · exact outcome_list_of_pages hdefault hmax habsent hexact hlist hpages
  · obtain ⟨table, htable, hscoped⟩ := outcome_list_eq_ok_iff.1 hlist
    have hlength := total_eq_length hdefault hmax habsent htable hscoped
    exact hjoin.trans (List.take_of_length_le (hlength ▸ htotal))

/-- Three books with their authors are listed on two pages of two. -/
theorem outcome_list_books_tiles :
    let memory := (Memory.empty.append "author" [
        .ofList [("id", .int 1), ("name", .str "ada")], .ofList [("id", .int 2), ("name", .str "alan")]]
      ).append "book" [
        .ofList [("id", .int 7), ("author_id", .int 2), ("title", .str "on numbers")],
        .ofList [("id", .int 8), ("author_id", .null), ("title", .str "letters")],
        .ofList [("id", .int 9), ("author_id", .int 1), ("title", .str "notes")]]
    let params : Params := ⟨[("order_by_columns", "title:DESC"), ("relationship", "author")]⟩
    ∃ (listing : Listing) (tiles : Nat → Listing),
      (library.list "book" params).outcome memory.source = .ok listing ∧ listing.total = 3 ∧
      (∀ i < 2, params.Pages 2 (i * 2) (params.page 2 (i * 2)) ∧
        (∀ paged, params.Pages 2 (i * 2) paged →
          (library.list "book" paged).outcome memory.source = .ok (tiles i)) ∧
        (tiles i).total = listing.total) ∧
      ((List.range 2).flatMap fun i => (tiles i).result) = listing.result := by
  intro memory params
  have htable : library.registry.table? "book" = some Registry.book := rfl
  let request : Request := { order := [⟨"title", .descending⟩], relationships := ["author"] }
  let plan : Plan := {
    table := "book"
    count := ⟨.all [request.predicate, .always]⟩
    page := ⟨.all [request.predicate, .always], [⟨"title", .descending⟩, ⟨"id", .ascending⟩], .unbounded⟩
    relationships := Registry.book.relationships }
  have hrequest : Request.decode params Registry.book library.settings = .ok request := rfl
  have hplan : library.registry.plan Registry.book request .always = .ok plan := rfl
  obtain ⟨listing, hexecute, htotal, _⟩ :=
    outcome_execute memory htable (Registry.planned_of_plan hplan)
  have hlist : (library.list "book" params).outcome memory.source = .ok listing :=
    outcome_list_eq_ok_iff.2 ⟨_, htable,
      outcome_listScoped_eq_ok_iff.2 ⟨plan, prepare_eq_ok_iff.2 ⟨request, hrequest, hplan⟩, hexecute⟩⟩
  have hexact : library.AsksExactly "book" params := by
    intro table hfound r hr _
    obtain rfl : Registry.book = table := Option.some.inj (htable.symm.trans hfound)
    have hall : ∀ r ∈ Registry.book.relationships, r.IsExact Registry.book := by decide
    exact hall r hr
  have hthree : listing.total = 3 := htotal.trans (by decide +kernel)
  obtain ⟨tiles, htiles, _, hall⟩ :=
    outcome_list_tiles rfl rfl (by decide) hexact hlist Nat.two_pos (n := 2) (by decide)
  exact ⟨listing, tiles, hlist, hthree, htiles, hall (hthree ▸ by decide)⟩

end Engine

end TableQuery
