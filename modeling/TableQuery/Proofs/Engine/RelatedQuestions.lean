import Mathlib.Data.List.Basic
import TableQuery.Proofs.Engine.Expansion

/-!
# One question for each relationship

Expanding relationships over a page asks once for each relationship that leads anywhere from the page,
and not at all for the others, however many rows the page has. What is asked for are all the rows with
one of the values of the page, each value once by its text, in the order in which the rows of the page
show them first.
-/

namespace TableQuery

/-! ## The first of each key -/

section FirstOfEach

variable {α : Type} {key : α → String} {a : α} {items : List α}

/-- The first item of each key and no other, one for each key, in the order of the items. -/
structure FirstOfEach (key : α → String) (items kept : List α) : Prop where
  first : ∀ b ∈ kept, items.find? (fun a => key a = key b) = some b
  covers : ∀ a ∈ items, ∃ b ∈ kept, key b = key a
  nodup : (kept.map key).Nodup
  ordered : kept.Pairwise fun b c =>
    items.findIdx (fun a => key a = key b) < items.findIdx (fun a => key a = key c)

/-- Distinct elements are the first with their keys. -/
theorem find?_of_mem_distinctBy (h : a ∈ distinctBy key items) :
    items.find? (fun b => key b = key a) = some a := by
  induction items with
  | nil => contradiction
  | cons first rest ih =>
    rcases List.mem_cons.1 h with rfl | h
    · simp
    · obtain ⟨hmem, hkey⟩ := List.mem_filter.1 h
      rw [List.find?_cons_of_neg (by simpa using Ne.symm (of_decide_eq_true hkey)), ih hmem]

/-- Distinct elements stand in the order of the first elements with their keys. -/
theorem pairwise_distinctBy (key : α → String) (items : List α) :
    (distinctBy key items).Pairwise fun b c =>
      items.findIdx (fun a => key a = key b) < items.findIdx (fun a => key a = key c) := by
  induction items with
  | nil => exact .nil
  | cons first rest ih =>
    have hother {b : α} (hb : b ∈ (distinctBy key rest).filter fun b => key b ≠ key first) :
        (first :: rest).findIdx (fun a => key a = key b) =
          rest.findIdx (fun a => key a = key b) + 1 := by
      have hkey := of_decide_eq_true (List.mem_filter.1 hb).2
      simp [List.findIdx_cons, Ne.symm hkey]
    refine List.Pairwise.cons (fun b hb => ?_) ?_
    · rw [hother hb]
      simp [List.findIdx_cons]
    · refine List.Pairwise.imp_of_mem (fun hb hc hlt => ?_) (ih.filter _)
      rw [hother hb, hother hc]
      exact Nat.add_lt_add_right hlt 1

/-- Distinct elements are the first of each key. -/
theorem firstOfEach_distinctBy (key : α → String) (items : List α) :
    FirstOfEach key items (distinctBy key items) where
  first _ hb := find?_of_mem_distinctBy hb
  covers _ ha := exists_mem_distinctBy ha
  nodup := by
    refine List.pairwise_map.2 ((pairwise_distinctBy key items).imp fun hlt heq => ?_)
    rw [heq] at hlt
    exact Nat.lt_irrefl _ hlt
  ordered := pairwise_distinctBy key items

end FirstOfEach

/-! ## What is asked -/

variable {registry : Registry} {table : Table} {rows : List Row} {source : RowSource} {r : Relationship}

/-- A source answers a question. -/
def RowSource.Answers (source : RowSource) : Call → Prop
  | .count table predicate => ∃ n, source.count table predicate = .ok n
  | .select table query => ∃ rows, source.select table query = .ok rows

/-- What is asked for a relationship: nothing when no row of the page has a value in the local column,
and otherwise all rows of the target, by its primary key, that hold one of the values of the page. -/
inductive Relationship.AsksFor (registry : Registry) (table : Table) (rows : List Row)
    (r : Relationship) : Option Call → Prop
  | nothing (h : ∀ row ∈ rows, table.cell? row r.localColumn = none) :
      AsksFor registry table rows r none
  | related {target : Table} {keys : List Value} (registered : registry.table? r.target = some target)
      (linked : ∃ row ∈ rows, ∃ v, table.cell? row r.localColumn = some v)
      (distinct : FirstOfEach Value.joinText
        (rows.filterMap fun row => table.cell? row r.localColumn) keys) :
      AsksFor registry table rows r (some (.select target {
        predicate := .isIn r.targetColumn keys
        order := target.primaryKey.map fun name => ⟨name, .ascending⟩
        window := .unbounded }))

namespace Fetch

variable {α β : Type} {fetch : Fetch α} {f : α → Fetch β}

/-- No question of a computation fails. -/
def Answered (source : RowSource) (fetch : Fetch α) : Prop :=
  ∀ call ∈ fetch.calls source, source.Answers call

/-- When no question of two parts fails, none of the first does. -/
theorem Answered.of_bind (h : (fetch >>= f).Answered source) : fetch.Answered source := by
  intro call hcall
  refine h call ?_
  rw [calls_bind]
  exact List.mem_append_left _ hcall

/-- When no question of two parts fails, none of the second does. -/
theorem Answered.of_bind_of_ok {a : α} (h : (fetch >>= f).Answered source)
    (hok : fetch.outcome source = .ok a) : (f a).Answered source := by
  intro call hcall
  refine h call ?_
  rw [calls_bind_of_ok hok]
  exact List.mem_append_right _ hcall

end Fetch

namespace Link

/-- The question for the rows that a link leads to, if it leads anywhere. -/
def question? (table : Table) (rows : List Row) (link : Link) : Option Call :=
  let keys := table.distinctKeys link.relationship.localColumn rows
  if keys = [] then none else some (.select link.target (.related link.target link.relationship keys))

/-- A link that leads anywhere is asked for its rows. -/
theorem fetch_of_ne_nil {link : Link}
    (h : table.distinctKeys link.relationship.localColumn rows ≠ []) :
    link.fetch table rows = .askSelect link.target (.related link.target link.relationship
      (table.distinctKeys link.relationship.localColumn rows)) := by
  unfold fetch
  split
  next hnil => exact absurd hnil h
  next => rfl

/-- When no question fails, fetching the rows of a link succeeds and asks its question. -/
theorem exists_outcome_fetch {link : Link} (h : (link.fetch table rows).Answered source) :
    (∃ fetched, (link.fetch table rows).outcome source = .ok fetched) ∧
      (link.fetch table rows).calls source = (link.question? table rows).toList := by
  by_cases hkeys : table.distinctKeys link.relationship.localColumn rows = []
  · have hfetch : link.fetch table rows = .done [] := by
      rw [fetch, hkeys]
    rw [hfetch, question?, if_pos hkeys]
    exact ⟨⟨[], rfl⟩, rfl⟩
  · rw [fetch_of_ne_nil hkeys] at h ⊢
    have hanswers : source.Answers (.select link.target (.related link.target link.relationship
        (table.distinctKeys link.relationship.localColumn rows))) :=
      h _ (by rw [Fetch.calls_askSelect]; exact List.mem_cons_self)
    rw [question?, if_neg hkeys, Fetch.outcome_askSelect, Fetch.calls_askSelect]
    exact ⟨hanswers, rfl⟩

/-- When no question fails, fetching the rows of all links asks their questions and gives each link with
what is fetched for it. -/
theorem exists_outcome_fetchAll {links : List Link}
    (h : (fetchAll table rows links).Answered source) :
    ∃ groups, (fetchAll table rows links).outcome source = .ok groups ∧
      groups.map Prod.fst = links ∧
      (∀ group ∈ groups, (group.1.fetch table rows).outcome source = .ok group.2) ∧
      (fetchAll table rows links).calls source = links.filterMap (question? table rows) := by
  induction links with
  | nil => exact ⟨[], rfl, rfl, fun _ hgroup => absurd hgroup List.not_mem_nil, rfl⟩
  | cons link rest ih =>
    rw [fetchAll] at h ⊢
    obtain ⟨⟨fetched, hfetched⟩, hcalls⟩ := exists_outcome_fetch h.of_bind
    have hlater := h.of_bind_of_ok hfetched
    obtain ⟨groups, hgroups, hlinks, hrest, hmore⟩ := ih hlater.of_bind
    rw [Fetch.outcome_bind_of_ok hfetched, Fetch.outcome_bind_of_ok hgroups,
      Fetch.calls_bind_of_ok hfetched, Fetch.calls_bind_of_ok hgroups, Fetch.calls_done,
      List.append_nil, hcalls, hmore, List.filterMap_cons]
    refine ⟨(link, fetched) :: groups, rfl, ?_, List.forall_mem_cons.2 ⟨hfetched, hrest⟩, ?_⟩
    · rw [List.map_cons, hlinks]
    · cases link.question? table rows <;> rfl

/-- The question of a link is what is asked for its relationship. -/
theorem asksFor_question? {link : Link}
    (htarget : registry.table? link.relationship.target = some link.target) :
    link.relationship.AsksFor registry table rows (link.question? table rows) := by
  have hdistinct := firstOfEach_distinctBy Value.joinText
    (rows.filterMap fun row => table.cell? row link.relationship.localColumn)
  dsimp only [question?]
  split
  next hkeys =>
    refine .nothing fun row hrow => Option.eq_none_iff_forall_ne_some.2 fun v hv => ?_
    obtain ⟨key, hkey, _⟩ := hdistinct.covers v (List.mem_filterMap.2 ⟨row, hrow, hv⟩)
    exact List.not_mem_nil (hkeys ▸ hkey : key ∈ ([] : List Value))
  next hkeys =>
    obtain ⟨key, hkey⟩ := List.exists_mem_of_ne_nil _ hkeys
    obtain ⟨row, hrow, hcell⟩ := Table.exists_cell?_of_mem_distinctKeys hkey
    exact .related htarget ⟨row, hrow, key, hcell⟩ hdistinct

end Link

/-- When no question fails, expanding relationships with registered targets over a page succeeds: it asks
the questions of their links and attaches what is fetched for each. -/
theorem Registry.exists_groups {relationships : List Relationship}
    (htargets : ∀ r ∈ relationships, ∃ target, registry.table? r.target = some target)
    (hanswers : (registry.expand table rows relationships).Answered source) :
    ∃ groups : List (Link × List Row),
      (registry.expand table rows relationships).outcome source =
        .ok (rows.map (Link.attach table groups)) ∧
      (groups.map fun group => group.1.relationship) = relationships ∧
      (∀ group ∈ groups, registry.table? group.1.relationship.target = some group.1.target ∧
        (group.1.fetch table rows).outcome source = .ok group.2) ∧
      (registry.expand table rows relationships).calls source =
        groups.filterMap fun group => group.1.question? table rows := by
  obtain ⟨links, hlinks⟩ := exists_links table htargets
  obtain ⟨hrelationships, htarget⟩ := of_links hlinks
  have hasked : (Fetch.ofExcept (registry.links table relationships)).outcome source = .ok links := by
    rw [Fetch.outcome_ofExcept, hlinks]
  have hnone : (Fetch.ofExcept (registry.links table relationships)).calls source = [] := by
    rw [hlinks]
    rfl
  rw [expand] at hanswers ⊢
  obtain ⟨groups, hgroups, rfl, hfetched, hcalls⟩ :=
    Link.exists_outcome_fetchAll (hanswers.of_bind_of_ok hasked).of_bind
  rw [Fetch.outcome_bind_of_ok hasked, Fetch.outcome_bind_of_ok hgroups,
    Fetch.calls_bind_of_ok hasked, Fetch.calls_bind_of_ok hgroups, Fetch.calls_done, hnone, hcalls,
    List.nil_append, List.append_nil, List.filterMap_map, ← hrelationships, List.map_map]
  exact ⟨groups, rfl, rfl,
    fun group hgroup => ⟨htarget _ (List.mem_map_of_mem hgroup), hfetched group hgroup⟩, rfl⟩

/-- When no question fails, expanding relationships with registered targets over a page succeeds, and
asks for each relationship in turn exactly what its values on the page need. -/
theorem Registry.expand_asks_once {relationships : List Relationship}
    (htargets : ∀ r ∈ relationships, ∃ target, registry.table? r.target = some target)
    (hanswers : (registry.expand table rows relationships).Answered source) :
    (∃ results, (registry.expand table rows relationships).outcome source = .ok results) ∧
      ∃ question : Relationship → Option Call,
        (registry.expand table rows relationships).calls source = relationships.filterMap question ∧
        ∀ r ∈ relationships, r.AsksFor registry table rows (question r) := by
  obtain ⟨groups, houtcome, rfl, hgroups, hcalls⟩ := exists_groups htargets hanswers
  let question (r : Relationship) : Option Call :=
    (registry.table? r.target).bind fun target => Link.question? table rows ⟨r, target⟩
  have hquestion {group : Link × List Row} (hgroup : group ∈ groups) :
      question group.1.relationship = group.1.question? table rows := by
    simp only [question, (hgroups group hgroup).1, Option.bind_some]
  refine ⟨⟨_, houtcome⟩, question, ?_, fun r hr => ?_⟩
  · rw [hcalls, List.filterMap_map]
    exact List.filterMap_congr fun group hgroup => (hquestion hgroup).symm
  · obtain ⟨group, hgroup, rfl⟩ := List.mem_map.1 hr
    rw [hquestion hgroup]
    exact Link.asksFor_question? (hgroups group hgroup).1

/-- Four rows of books by two authors take one question, for the authors in the order of their first
books. -/
theorem Registry.expand_asks_once_library :
    let books : List Row := [
      .ofList [("id", .int 7), ("author_id", .int 2)], .ofList [("id", .int 8), ("author_id", .null)],
      .ofList [("id", .int 9), ("author_id", .int 1)], .ofList [("id", .int 10), ("author_id", .int 2)]]
    let expansion := library.expand book books book.relationships
    let source := Memory.empty.source
    expansion.calls source = [.select author {
      predicate := .isIn "id" [.integer 2, .integer 1]
      order := [⟨"id", .ascending⟩]
      window := .unbounded }] ∧
    (∃ results, expansion.outcome source = .ok results) ∧
      ∃ question : Relationship → Option Call,
        expansion.calls source = book.relationships.filterMap question ∧
        ∀ r ∈ book.relationships, r.AsksFor library book books (question r) := by
  intro books expansion source
  have htargets : ∀ r ∈ book.relationships, ∃ target, library.table? r.target = some target :=
    fun r hr => ⟨author, List.mem_singleton.1 hr ▸ rfl⟩
  refine ⟨rfl, expand_asks_once htargets fun call _ => ?_⟩
  cases call <;> exact ⟨_, rfl⟩

end TableQuery
