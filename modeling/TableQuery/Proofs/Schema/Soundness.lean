import TableQuery.Schema.Registry

/-!
# What validation guarantees

A registry that is built by registering and linking tables keeps every table under its own name. When
it is also accepted, each of its tables has distinct columns, a declared key, and relationships that
join two declared columns of one type. Registries that are read from text are not covered by the
first part: their keys are free.
-/

namespace TableQuery

namespace Table

/-- A primary key has no problems exactly when it has a column and all its columns are declared. -/
theorem keyProblems_eq_nil_iff (table : Table) :
    table.keyProblems = [] ↔
      table.primaryKey ≠ [] ∧
        ∀ name ∈ table.primaryKey, ∃ column, table.column? name = some column := by
  simp only [keyProblems, List.append_eq_nil_iff, List.map_eq_nil_iff, List.filter_eq_nil_iff]
  constructor
  · intro h
    obtain ⟨hkey, hdeclared⟩ := h
    refine ⟨fun hnil => by simp [hnil] at hkey, fun name hname => ?_⟩
    exact Option.ne_none_iff_exists'.1 fun hnone => hdeclared name hname (by simp [hnone])
  · intro h
    obtain ⟨hkey, hdeclared⟩ := h
    refine ⟨by simp [hkey], fun name hname => ?_⟩
    obtain ⟨column, hcolumn⟩ := hdeclared name hname
    simp [hcolumn]

/-- Relationships of fresh and pairwise distinct names on declared columns have no problems. -/
theorem relationshipProblems_eq_nil_iff (table : Table) (seen : List String)
    (relationships : List Relationship) :
    table.relationshipProblems seen relationships = [] ↔
      (relationships.map Relationship.name).Nodup ∧ (∀ r ∈ relationships, r.name ∉ seen) ∧
        ∀ r ∈ relationships, ∃ column, table.column? r.localColumn = some column := by
  induction relationships generalizing seen with
  | nil => simp [relationshipProblems]
  | cons first rest ih =>
    simp only [relationshipProblems, List.append_eq_nil_iff, ih, List.map_cons, List.nodup_cons,
      List.mem_map, forall_eq_or_imp, List.mem_cons, not_or, ite_eq_right_iff, reduceCtorEq,
      imp_false, not_exists, not_and, Option.isNone_iff_eq_none]
    constructor
    · intro h
      obtain ⟨⟨hseen, hlocal⟩, hnodup, hfresh, hrest⟩ := h
      exact ⟨⟨fun r hr => (hfresh r hr).1, hnodup⟩, ⟨hseen, fun r hr => (hfresh r hr).2⟩,
        Option.ne_none_iff_exists'.1 hlocal, hrest⟩
    · intro h
      obtain ⟨⟨hfirst, hnodup⟩, ⟨hseen, hfresh⟩, hlocal, hrest⟩ := h
      exact ⟨⟨hseen, Option.ne_none_iff_exists'.2 hlocal⟩, hnodup,
        fun r hr => ⟨hfirst r hr, hfresh r hr⟩, hrest⟩

end Table

namespace Registry

variable {registry : Registry} {name : String} {table : Table}

/-- The registries that come from the empty one by registering and linking. -/
inductive Built : Registry → Prop
  | empty : Built .empty
  | register {registry : Registry} (table : Table) (built : Built registry) :
      Built (registry.register table)
  | link {registry : Registry} (left leftColumn right rightColumn : String)
      (built : Built registry) : Built (registry.link left leftColumn right rightColumn)

/-- A declared relationship changes a table in nothing but its relationships. -/
theorem name_eq_of_declare {declared : String} {r : Relationship}
    (hnames : ∀ {name table}, registry.table? name = some table → table.name = name)
    (h : (registry.declare declared r).table? name = some table) : table.name = name := by
  simp only [table?, declare, NameMap.get?_modify] at h
  split at h
  · obtain ⟨before, hbefore, rfl⟩ := Option.map_eq_some_iff.1 h
    change before.name = name
    exact hnames hbefore
  · exact hnames h

/-- Every table of a built registry is kept under its own name. -/
theorem Built.name_eq (built : registry.Built) (h : registry.table? name = some table) :
    table.name = name := by
  induction built generalizing name table with
  | empty => simp [table?, Registry.empty, NameMap.empty, NameMap.get?] at h
  | register added _ ih =>
    simp only [table?, Registry.register, NameMap.get?_insert] at h
    split at h
    next heq => exact heq ▸ (Option.some.inj h ▸ rfl)
    next => exact ih h
  | link left leftColumn right rightColumn _ ih =>
    exact name_eq_of_declare (name_eq_of_declare ih) h

/-- A relationship that joins two declared columns of one type, seen from its table. -/
structure Joins (registry : Registry) (table : Table) (r : Relationship) (target : Table)
    (near remote : Column) : Prop where
  target_eq : registry.table? r.target = some target
  near_eq : table.column? r.localColumn = some near
  remote_eq : target.column? r.targetColumn = some remote
  type_eq : near.type = remote.type

/-- What an accepted registry guarantees of one of its tables. -/
structure Sound (registry : Registry) (table : Table) : Prop where
  columns_nodup : (table.columns.map Column.name).Nodup
  columns_not_reserved : ∀ column ∈ table.columns, column.name ≠ relatedMember
  key_ne_nil : table.primaryKey ≠ []
  key_declared : ∀ name ∈ table.primaryKey, ∃ column, table.column? name = some column
  relationships_nodup : (table.relationships.map Relationship.name).Nodup
  joins : ∀ r ∈ table.relationships, ∃ target near remote, registry.Joins table r target near remote

/-- The relationships of a sound table lead to registered tables. -/
theorem Sound.exists_target (h : registry.Sound table) {r : Relationship}
    (hr : r ∈ table.relationships) : ∃ target, registry.table? r.target = some target := by
  obtain ⟨target, _, _, hjoins⟩ := h.joins r hr
  exact ⟨target, hjoins.target_eq⟩

/-- A declared local column without target problems belongs to a join of two columns of one type. -/
theorem joins_of_targetProblems {r : Relationship} {near : Column}
    (hnear : table.column? r.localColumn = some near)
    (h : registry.targetProblems table r = []) :
    ∃ target remote, registry.Joins table r target near remote := by
  simp only [targetProblems, hnear] at h
  split at h
  · simp at h
  next target htarget =>
    split at h
    · simp at h
    next remote hremote =>
      exact ⟨target, remote, htarget, hnear, hremote, by simpa using h⟩

/-- Every table of an accepted registry is sound. -/
theorem sound_of_validate (hvalid : registry.validate = .ok ())
    (h : registry.table? name = some table) : registry.Sound table := by
  have hproblems := (validate_eq_ok_iff registry).1 hvalid
  rw [problems, List.flatMap_eq_nil_iff] at hproblems
  have htable := hproblems table (NameMap.mem_values_of_get? h)
  simp only [Table.problems, List.append_eq_nil_iff, List.flatMap_eq_nil_iff,
    Table.columnProblems_eq_nil_iff, Table.keyProblems_eq_nil_iff,
    Table.relationshipProblems_eq_nil_iff] at htable
  obtain ⟨⟨⟨⟨hcolumns, _, hreserved⟩, hkey, hdeclared⟩, hnames, _, hlocal⟩, htargets⟩ := htable
  refine ⟨hcolumns, hreserved, hkey, hdeclared, hnames, fun r hr => ?_⟩
  obtain ⟨near, hnear⟩ := hlocal r hr
  obtain ⟨target, remote, hjoins⟩ := joins_of_targetProblems hnear (htargets r hr)
  exact ⟨target, near, remote, hjoins⟩

/-- A required table is the one that is registered under the name. -/
theorem require_eq_ok_iff : registry.require name = .ok table ↔ registry.table? name = some table := by
  unfold require
  cases registry.table? name <;> simp

/-- Authors, with the books that they wrote. -/
def author : Table where
  name := "author"
  columns := [⟨"id", .integer, false⟩, ⟨"name", .text, true⟩, ⟨"born", .date, true⟩]
  primaryKey := ["id"]
  relationships := [⟨"book", "book", "id", "author_id"⟩]

/-- Books, with the author who wrote them. -/
def book : Table where
  name := "book"
  columns := [⟨"id", .integer, false⟩, ⟨"author_id", .integer, true⟩, ⟨"title", .text, false⟩]
  primaryKey := ["id"]
  relationships := [⟨"author", "author", "author_id", "id"⟩]

/-- Authors and their books. -/
def library : Registry := (empty.register author).register book

/-- The library has no other tables. -/
theorem of_table?_library (h : library.table? name = some table) : table = author ∨ table = book := by
  simp only [table?, library, register, NameMap.get?_insert] at h
  split at h
  · exact Or.inr (Option.some.inj h).symm
  · split at h
    · exact Or.inl (Option.some.inj h).symm
    · contradiction

/-- The library is built by registering. -/
theorem built_library : library.Built := .register _ (.register _ .empty)

/-- The library is accepted. -/
theorem validate_library : library.validate = .ok () :=
  (validate_eq_ok_iff library).2 (by decide)

end Registry

end TableQuery
