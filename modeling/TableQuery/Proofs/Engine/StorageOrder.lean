import TableQuery.Proofs.Engine.Questions
import TableQuery.Proofs.Request.Grammar
import TableQuery.Proofs.Rows.Distinct

/-!
# Listings and storage order

A sorted listing does not tell in which order its rows are stored, nor those that it links to. What
the engine asks a memory counts rows, or selects them by keys that cover a primary key, and such
questions are answered alike by all memories of the same rows.
-/

namespace TableQuery

variable {table : Table} {memory other : Memory}

/-- Two memories hold the same rows of every table, each as often, perhaps in different orders. -/
def Memory.SameRows (memory other : Memory) : Prop :=
  ∀ name, (memory.rows name).Perm (other.rows name)

/-- What is stored in a table after more rows were appended. -/
theorem Memory.rows_append (memory : Memory) (appended name : String) (rows : List Row) :
    (memory.append appended rows).rows name =
      if name = appended then memory.rows appended ++ rows else memory.rows name := by
  rw [Memory.rows, Memory.append, NameMap.get?_insert]
  split
  · rfl
  · rfl

namespace Memory.SameRows

/-- Appending the same rows in two orders keeps the same rows. -/
theorem append (h : memory.SameRows other) {name : String} {rows others : List Row}
    (hperm : rows.Perm others) : (memory.append name rows).SameRows (other.append name others) := by
  intro found
  rw [rows_append, rows_append]
  split
  · exact (h name).append hperm
  · exact h found

/-- The same rows satisfy a condition. -/
theorem matching_perm (h : memory.SameRows other) (table : Table) (predicate : Predicate) :
    (memory.matching table predicate).Perm (other.matching table predicate) :=
  (h table.name).filter _

/-- Sorting by the primary key, after other keys perhaps, selects the same rows in the same order. -/
theorem select_eq (h : memory.SameRows other) {query : SelectQuery}
    (hkeyed : ∀ name ∈ table.primaryKey, ∃ key ∈ query.order, key.column = name)
    (hdistinct : table.KeysDistinct (memory.rows table.name)) :
    memory.select table query = other.select table query := by
  have hsort : SortKey.sort table query.order (memory.matching table query.predicate) =
      SortKey.sort table query.order (other.matching table query.predicate) :=
    (hdistinct.filter _).sort_eq hkeyed (h.matching_perm table query.predicate)
  rw [select, select, hsort]

end Memory.SameRows

/-- A request with an entry in its order sorts by some key. -/
theorem Request.Reads.sortKeys_ne_nil {params : Params} {settings : Settings} {request : Request}
    (h : request.Reads params table settings) (hsorted : params.getSplit Request.orderKey ≠ []) :
    request.sortKeys table ≠ [] := by
  have horder : request.order ≠ [] := by
    intro hnil
    have hreads := h.order
    rw [hnil, List.forall₂_nil_right_iff] at hreads
    exact hsorted hreads
  rw [Request.sortKeys, if_neg horder]
  exact List.append_ne_nil_of_left_ne_nil horder _

namespace Engine

variable {engine : Engine} {name : String} {params : Params}

/-- The rows of a listed table have distinct primary keys, and so have the rows of every table that a
requested relationship leads to. -/
structure KeysDistinct (engine : Engine) (memory : Memory) (name : String) (params : Params) :
    Prop where
  listed : ∀ table, engine.registry.table? name = some table → table.KeysDistinct (memory.rows name)
  related : ∀ table, engine.registry.table? name = some table → ∀ r ∈ table.relationships,
    r.name ∈ params.getSplit Request.relationshipKey →
      ∀ target, engine.registry.table? r.target = some target →
        target.KeysDistinct (memory.rows r.target)

/-- A sorted listing of rows with distinct keys is the same however the rows are stored. -/
theorem outcome_list_eq_of_sameRows (built : engine.registry.Built) (hsame : memory.SameRows other)
    (hsorted : params.getSplit Request.orderKey ≠ [])
    (hdistinct : engine.KeysDistinct memory name params) :
    (engine.list name params).outcome memory.source =
      (engine.list name params).outcome other.source := by
  -- It is enough that both memories answer each question alike that a listing can ask.
  refine Fetch.outcome_congr fun call h => ?_
  obtain ⟨table, htable, h⟩ := Fetch.reaches_ofExcept_bind h
  obtain ⟨plan, hprepare, h⟩ := Fetch.reaches_ofExcept_bind h
  have htable := Registry.require_eq_ok_iff.1 htable
  obtain ⟨request, hrequest, hplan⟩ := Failure.bind_eq_ok_iff.1 hprepare
  have hplanned := Registry.planned_of_plan hplan
  have hreads := Request.reads_of_decode
    (Registry.sound_of_validate engine.valid htable).columns_nodup hrequest
  rcases Fetch.reaches_bind h with h | ⟨total, _, h⟩
  · rw [Fetch.eq_of_reaches_askCount h]
    exact congrArg Except.ok (hsame.matching_perm table plan.predicate).length_eq
  rcases Fetch.reaches_bind h with h | ⟨rows, _, h⟩
  · unfold fetchPage at h
    split at h
    · exact absurd h Fetch.not_reaches_done
    · rw [Fetch.eq_of_reaches_askSelect h]
      refine congrArg Except.ok (hsame.select_eq (fun column hcolumn => ?_) ?_)
      · rw [hplanned.page_eq]
        exact SortKey.exists_mem_sortKeys (hreads.sortKeys_ne_nil hsorted) hcolumn
      · rw [built.name_eq htable]
        exact hdistinct.listed table htable
  rcases Fetch.reaches_bind h with h | ⟨result, _, h⟩
  · obtain ⟨r, hr, target, htarget, rfl⟩ := of_reaches_expand h
    refine congrArg Except.ok (hsame.select_eq (fun column hcolumn => ?_) ?_)
    · exact ⟨⟨column, .ascending⟩, List.mem_map_of_mem hcolumn, rfl⟩
    · rw [built.name_eq htarget]
      refine hdistinct.related table htable r (hplanned.declared r hr) ?_ target htarget
      have hname : r.name ∈ request.relationships := hplanned.names_eq ▸ List.mem_map_of_mem hr
      rwa [hreads.relationships, List.mem_eraseDups] at hname
  · exact absurd h Fetch.not_reaches_done

/-- Authors of one name are shown by their identifiers, and the books of each by theirs, in both of two
orders of storage. -/
theorem outcome_list_authors_reversed :
    let authors : List Row := [
      .ofList [("id", .int 2), ("name", .str "ada")], .ofList [("id", .int 1), ("name", .str "ada")]]
    let books : List Row := [
      .ofList [("id", .int 9), ("author_id", .int 1), ("title", .str "notes")],
      .ofList [("id", .int 7), ("author_id", .int 1), ("title", .str "letters")]]
    let memory := (Memory.empty.append "author" authors).append "book" books
    let other := (Memory.empty.append "author" authors.reverse).append "book" books.reverse
    let params : Params := ⟨[("order_by_columns", "name:DESC"), ("relationship", "book")]⟩
    memory.SameRows other ∧ (library.list "author" params).outcome memory.source =
      (library.list "author" params).outcome other.source := by
  intro authors books memory other params
  have hempty : Memory.empty.SameRows Memory.empty := fun name => .refl _
  have hsame : memory.SameRows other :=
    (hempty.append (List.reverse_perm authors).symm).append (List.reverse_perm books).symm
  have hauthor : library.registry.table? "author" = some Registry.author := rfl
  have hbook : library.registry.table? "book" = some Registry.book := rfl
  have hdistinct : library.KeysDistinct memory "author" params := by
    refine ⟨fun table htable => ?_, fun table htable r hr _ target htarget => ?_⟩
    · obtain rfl := Option.some.inj (hauthor.symm.trans htable)
      decide +kernel
    · obtain rfl := Option.some.inj (hauthor.symm.trans htable)
      obtain rfl := List.mem_singleton.1 hr
      obtain rfl := Option.some.inj (hbook.symm.trans htarget)
      decide +kernel
  have hsorted : params.getSplit Request.orderKey ≠ [] := by decide
  exact ⟨hsame, outcome_list_eq_of_sameRows Registry.built_library hsame hsorted hdistinct⟩

end Engine

end TableQuery
