import Mathlib.Data.List.Duplicate
import TableQuery.Proofs.Schema.Soundness

/-!
# What validation reports

The ways in which a table of a registry can be wrong are listed here apart from the loops that look for
them, each with the problem that reports it. Validation reports exactly these: it accepts a registry when
all its tables are sound, and otherwise its details hold a message for every fault, which begins with the
name of the table.
-/

namespace TableQuery

/-! ## Items in turn -/

/-- The problems of items in turn, after items of the names in `seen`: a repeated name, then what is wrong
with the item by itself. -/
def problemsInTurn {α : Type} (name : α → String) (repeated : String → Problem)
    (own : α → List Problem) (seen : List String) : List α → List Problem
  | [] => []
  | a :: rest =>
    (if name a ∈ seen then [repeated (name a)] else []) ++ own a
      ++ problemsInTurn name repeated own (name a :: seen) rest

section

variable {α : Type} {name : α → String} {repeated : String → Problem} {own : α → List Problem}
  {problem : Problem}

/-- Exactly the names that occur twice are reported as repeated. -/
theorem mem_problemsInTurn {seen : List String} {items : List α} :
    problem ∈ problemsInTurn name repeated own seen items ↔
      (∃ found, (found ∈ seen ∧ found ∈ items.map name ∨ (items.map name).Duplicate found) ∧
        problem = repeated found) ∨ ∃ a ∈ items, problem ∈ own a := by
  induction items generalizing seen with
  | nil => simp [problemsInTurn]
  | cons a rest ih =>
    -- A name of the rest is repeated there when it is that of `a`, was seen before, or occurs twice.
    simp only [problemsInTurn, List.mem_append, ih, List.mem_ite_nil_right, List.map_cons,
      List.mem_cons, List.not_mem_nil, or_false, List.duplicate_cons_iff, exists_eq_or_imp]
    grind

end

namespace Table

variable {table : Table} {problem : Problem} {name : String}

/-- No column is found by a name that none has. -/
theorem column?_eq_none_iff : table.column? name = none ↔ name ∉ table.columns.map Column.name := by
  simp [column?]

/-- Columns are reported when their name is repeated or reserved. -/
theorem columnProblems_eq (table : String) (seen : List String) (columns : List Column) :
    columnProblems table seen columns =
      problemsInTurn Column.name (.duplicateColumn table) (fun column =>
        if column.name = relatedMember then [.reservedColumn table column.name] else [])
        seen columns := by
  induction columns generalizing seen with
  | nil => rfl
  | cons column rest ih => rw [columnProblems, ih, problemsInTurn]

/-- Relationships are reported when their name is repeated or their local column is unknown. -/
theorem relationshipProblems_eq (table : Table) (seen : List String)
    (relationships : List Relationship) :
    table.relationshipProblems seen relationships =
      problemsInTurn Relationship.name (.duplicateRelationship table.name) (fun r =>
        if (table.column? r.localColumn).isNone
        then [.unknownLocalColumn table.name r.name r.localColumn] else [])
        seen relationships := by
  induction relationships generalizing seen with
  | nil => rfl
  | cons r rest ih => rw [relationshipProblems, ih, problemsInTurn]

/-- What is reported of columns. -/
theorem mem_columnProblems_iff {columns : List Column} :
    problem ∈ columnProblems name [] columns ↔
      (∃ found, (columns.map Column.name).Duplicate found ∧ problem = .duplicateColumn name found) ∨
        relatedMember ∈ columns.map Column.name ∧ problem = .reservedColumn name relatedMember := by
  simp only [columnProblems_eq, mem_problemsInTurn, List.not_mem_nil, false_and, false_or,
    List.mem_ite_nil_right, List.mem_singleton, List.mem_map]
  refine or_congr_right ⟨?_, ?_⟩
  · rintro ⟨column, hcolumn, hname, rfl⟩
    exact ⟨⟨column, hcolumn, hname⟩, by rw [hname]⟩
  · rintro ⟨⟨column, hcolumn, hname⟩, rfl⟩
    exact ⟨column, hcolumn, hname, by rw [hname]⟩

/-- What is reported of the primary key. -/
theorem mem_keyProblems_iff :
    problem ∈ table.keyProblems ↔
      table.primaryKey = [] ∧ problem = .missingKey table.name ∨
        ∃ part ∈ table.primaryKey, part ∉ table.columns.map Column.name ∧
          problem = .undeclaredKeyColumn table.name part := by
  simp only [keyProblems, List.mem_append, List.mem_ite_nil_right, List.mem_singleton, List.mem_map,
    List.mem_filter, Option.isNone_iff_eq_none, column?_eq_none_iff, and_assoc, eq_comm (a := problem)]

/-- What is reported of relationships by themselves. -/
theorem mem_relationshipProblems_iff {relationships : List Relationship} :
    problem ∈ table.relationshipProblems [] relationships ↔
      (∃ found, (relationships.map Relationship.name).Duplicate found ∧
          problem = .duplicateRelationship table.name found) ∨
        ∃ r ∈ relationships, r.localColumn ∉ table.columns.map Column.name ∧
          problem = .unknownLocalColumn table.name r.name r.localColumn := by
  simp only [relationshipProblems_eq, mem_problemsInTurn, List.not_mem_nil, false_and, false_or,
    List.mem_ite_nil_right, List.mem_singleton, Option.isNone_iff_eq_none, column?_eq_none_iff]

end Table

namespace Registry

variable {registry : Registry} {table : Table} {problem : Problem}

/-- The ways in which a table of a registry is wrong, with the problems that report them. Where a
relationship leads counts only when its target is registered, and the types of the joined columns only
when both are declared. -/
inductive Violates (registry : Registry) (table : Table) : Problem → Prop
  | duplicateColumn {name : String} (twice : (table.columns.map Column.name).Duplicate name) :
      Violates registry table (.duplicateColumn table.name name)
  | reservedColumn (used : relatedMember ∈ table.columns.map Column.name) :
      Violates registry table (.reservedColumn table.name relatedMember)
  | missingKey (none : table.primaryKey = []) : Violates registry table (.missingKey table.name)
  | undeclaredKeyColumn {name : String} (part : name ∈ table.primaryKey)
      (undeclared : name ∉ table.columns.map Column.name) :
      Violates registry table (.undeclaredKeyColumn table.name name)
  | duplicateRelationship {name : String}
      (twice : (table.relationships.map Relationship.name).Duplicate name) :
      Violates registry table (.duplicateRelationship table.name name)
  | unknownLocalColumn {r : Relationship} (mem : r ∈ table.relationships)
      (unknown : r.localColumn ∉ table.columns.map Column.name) :
      Violates registry table (.unknownLocalColumn table.name r.name r.localColumn)
  | unknownTarget {r : Relationship} (mem : r ∈ table.relationships)
      (unknown : registry.table? r.target = none) :
      Violates registry table (.unknownTarget table.name r.name r.target)
  | unknownTargetColumn {r : Relationship} {target : Table} (mem : r ∈ table.relationships)
      (found : registry.table? r.target = some target)
      (unknown : r.targetColumn ∉ target.columns.map Column.name) :
      Violates registry table (.unknownTargetColumn table.name r.name r.target r.targetColumn)
  | differentTypes {r : Relationship} {target : Table} {near remote : Column}
      (mem : r ∈ table.relationships) (found : registry.table? r.target = some target)
      (near_eq : table.column? r.localColumn = some near)
      (remote_eq : target.column? r.targetColumn = some remote) (differ : near.type ≠ remote.type) :
      Violates registry table (.differentTypes table.name r.name)

/-- Every violation is reported under the name of its table. -/
theorem Violates.table_eq (h : registry.Violates table problem) : problem.table = table.name := by
  cases h <;> rfl

/-- What is reported of where a relationship leads. -/
theorem mem_targetProblems_iff {r : Relationship} :
    problem ∈ registry.targetProblems table r ↔
      registry.table? r.target = none ∧ problem = .unknownTarget table.name r.name r.target ∨
      ∃ target, registry.table? r.target = some target ∧
        (target.column? r.targetColumn = none ∧
            problem = .unknownTargetColumn table.name r.name r.target r.targetColumn ∨
          ∃ near remote, table.column? r.localColumn = some near ∧
            target.column? r.targetColumn = some remote ∧ near.type ≠ remote.type ∧
            problem = .differentTypes table.name r.name) := by
  unfold targetProblems
  cases registry.table? r.target with
  | none => simp
  | some target =>
    cases hremote : target.column? r.targetColumn with
    | none => simp [hremote]
    | some remote => cases table.column? r.localColumn <;> simp [hremote]

/-- What is reported of a table and its relationships are its violations. -/
theorem mem_problems_iff_violates :
    problem ∈ table.problems ++ table.relationships.flatMap (registry.targetProblems table) ↔
      registry.Violates table problem := by
  simp only [Table.problems, List.mem_append, Table.mem_columnProblems_iff, Table.mem_keyProblems_iff,
    Table.mem_relationshipProblems_iff, List.mem_flatMap, mem_targetProblems_iff,
    Table.column?_eq_none_iff]
  constructor
  · intro h
    rcases h with ((hcolumns | hkey) | hnames) | ⟨r, hr, htarget⟩
    · rcases hcolumns with ⟨name, twice, rfl⟩ | ⟨used, rfl⟩
      · exact .duplicateColumn twice
      · exact .reservedColumn used
    · rcases hkey with ⟨none, rfl⟩ | ⟨name, part, undeclared, rfl⟩
      · exact .missingKey none
      · exact .undeclaredKeyColumn part undeclared
    · rcases hnames with ⟨name, twice, rfl⟩ | ⟨r, hr, unknown, rfl⟩
      · exact .duplicateRelationship twice
      · exact .unknownLocalColumn hr unknown
    · rcases htarget with ⟨unknown, rfl⟩ | ⟨target, found, hcolumn⟩
      · exact .unknownTarget hr unknown
      · rcases hcolumn with ⟨unknown, rfl⟩ | ⟨near, remote, near_eq, remote_eq, differ, rfl⟩
        · exact .unknownTargetColumn hr found unknown
        · exact .differentTypes hr found near_eq remote_eq differ
  · intro h
    cases h with
    | duplicateColumn twice => exact Or.inl (Or.inl (Or.inl (Or.inl ⟨_, twice, rfl⟩)))
    | reservedColumn used => exact Or.inl (Or.inl (Or.inl (Or.inr ⟨used, rfl⟩)))
    | missingKey none => exact Or.inl (Or.inl (Or.inr (Or.inl ⟨none, rfl⟩)))
    | undeclaredKeyColumn part undeclared =>
      exact Or.inl (Or.inl (Or.inr (Or.inr ⟨_, part, undeclared, rfl⟩)))
    | duplicateRelationship twice => exact Or.inl (Or.inr (Or.inl ⟨_, twice, rfl⟩))
    | unknownLocalColumn mem unknown => exact Or.inl (Or.inr (Or.inr ⟨_, mem, unknown, rfl⟩))
    | unknownTarget mem unknown => exact Or.inr ⟨_, mem, Or.inl ⟨unknown, rfl⟩⟩
    | unknownTargetColumn mem found unknown =>
      exact Or.inr ⟨_, mem, Or.inr ⟨_, found, Or.inl ⟨unknown, rfl⟩⟩⟩
    | differentTypes mem found near_eq remote_eq differ =>
      exact Or.inr ⟨_, mem, Or.inr ⟨_, found, Or.inr ⟨_, _, near_eq, remote_eq, differ, rfl⟩⟩⟩

/-- A problem is reported exactly when it is a violation of a registered table. -/
theorem mem_problems_iff :
    problem ∈ registry.problems ↔
      ∃ name table, registry.table? name = some table ∧ registry.Violates table problem := by
  simp only [problems, List.mem_flatMap, mem_problems_iff_violates, NameMap.mem_values_iff]
  constructor
  · intro h
    obtain ⟨table, ⟨name, htable⟩, hviolates⟩ := h
    exact ⟨name, table, htable, hviolates⟩
  · intro h
    obtain ⟨name, table, htable, hviolates⟩ := h
    exact ⟨table, ⟨name, htable⟩, hviolates⟩

/-- A sound table violates nothing. -/
theorem Sound.not_violates (h : registry.Sound table) : ¬ registry.Violates table problem := by
  intro hviolates
  cases hviolates with
  | duplicateColumn twice => exact twice.not_nodup h.columns_nodup
  | reservedColumn used =>
    obtain ⟨column, hcolumn, hname⟩ := List.mem_map.1 used
    exact h.columns_not_reserved column hcolumn hname
  | missingKey none => exact h.key_ne_nil none
  | undeclaredKeyColumn part undeclared =>
    obtain ⟨column, hcolumn⟩ := h.key_declared _ part
    exact Option.some_ne_none column (hcolumn.symm.trans (Table.column?_eq_none_iff.2 undeclared))
  | duplicateRelationship twice => exact twice.not_nodup h.relationships_nodup
  | unknownLocalColumn mem unknown =>
    obtain ⟨_, near, _, hjoins⟩ := h.joins _ mem
    exact Option.some_ne_none near
      (hjoins.near_eq.symm.trans (Table.column?_eq_none_iff.2 unknown))
  | unknownTarget mem unknown =>
    obtain ⟨target, _, _, hjoins⟩ := h.joins _ mem
    exact Option.some_ne_none target (hjoins.target_eq.symm.trans unknown)
  | unknownTargetColumn mem found unknown =>
    obtain ⟨target, _, remote, hjoins⟩ := h.joins _ mem
    obtain rfl := Option.some.inj (found.symm.trans hjoins.target_eq)
    exact Option.some_ne_none remote
      (hjoins.remote_eq.symm.trans (Table.column?_eq_none_iff.2 unknown))
  | differentTypes mem found near_eq remote_eq differ =>
    obtain ⟨target, _, _, hjoins⟩ := h.joins _ mem
    obtain rfl := Option.some.inj (found.symm.trans hjoins.target_eq)
    obtain rfl := Option.some.inj (near_eq.symm.trans hjoins.near_eq)
    obtain rfl := Option.some.inj (remote_eq.symm.trans hjoins.remote_eq)
    exact differ hjoins.type_eq

/-- A table that violates nothing is sound. -/
theorem sound_of_forall_not_violates (h : ∀ problem, ¬ registry.Violates table problem) :
    registry.Sound table where
  columns_nodup := List.nodup_iff_forall_not_duplicate.2 fun _ twice => h _ (.duplicateColumn twice)
  columns_not_reserved column hcolumn hname :=
    h _ (.reservedColumn (List.mem_map.2 ⟨column, hcolumn, hname⟩))
  key_ne_nil hnil := h _ (.missingKey hnil)
  key_declared name hname := Option.ne_none_iff_exists'.1 fun hnone =>
    h _ (.undeclaredKeyColumn hname (Table.column?_eq_none_iff.1 hnone))
  relationships_nodup :=
    List.nodup_iff_forall_not_duplicate.2 fun _ twice => h _ (.duplicateRelationship twice)
  joins r hr := by
    obtain ⟨target, htarget⟩ := Option.ne_none_iff_exists'.1 fun hnone => h _ (.unknownTarget hr hnone)
    obtain ⟨near, hnear⟩ := Option.ne_none_iff_exists'.1 fun hnone =>
      h _ (.unknownLocalColumn hr (Table.column?_eq_none_iff.1 hnone))
    obtain ⟨remote, hremote⟩ := Option.ne_none_iff_exists'.1 fun hnone =>
      h _ (.unknownTargetColumn hr htarget (Table.column?_eq_none_iff.1 hnone))
    exact ⟨target, near, remote, htarget, hnear, hremote, Decidable.by_contra fun hdiffer =>
      h _ (.differentTypes hr htarget hnear hremote hdiffer)⟩

/-- A table is sound exactly when it violates nothing. -/
theorem sound_iff_forall_not_violates :
    registry.Sound table ↔ ∀ problem, ¬ registry.Violates table problem :=
  ⟨fun h _ => h.not_violates, sound_of_forall_not_violates⟩

/-- A registry is accepted exactly when its tables are sound. -/
theorem validate_eq_ok_iff_sound :
    registry.validate = .ok () ↔
      ∀ name table, registry.table? name = some table → registry.Sound table := by
  simp only [validate_eq_ok_iff, List.eq_nil_iff_forall_not_mem, mem_problems_iff, not_exists, not_and,
    sound_iff_forall_not_violates]
  constructor
  · intro h name table htable problem
    exact h problem name table htable
  · intro h problem name table htable
    exact h name table htable problem

/-- A registry that is refused is refused with all its problems. -/
theorem validate_eq_error (h : registry.validate ≠ .ok ()) :
    registry.validate = .error (.internal (.invalidRegistry registry.problems)) := by
  unfold validate at h ⊢
  split
  next hnil =>
    rw [hnil] at h
    contradiction
  next => rfl

end Registry

/-! ## Messages -/

/-- The message of a problem begins with the name of its table. -/
theorem Problem.prefix_message (problem : Problem) :
    (problem.table ++ ": ").toList <+: problem.message.toList := by
  cases problem <;>
    simp [message, table, String.toList_append, List.append_assoc, List.prefix_append_right_inj]

/-- Each of several joined texts stands in the joined text. -/
theorem infix_intercalate {α : Type} {separator part : List α} {parts : List (List α)}
    (h : part ∈ parts) : part <:+: separator.intercalate parts := by
  induction parts with
  | nil => contradiction
  | cons first rest ih =>
    cases rest with
    | nil =>
      obtain rfl := List.mem_singleton.1 h
      simp
    | cons second rest =>
      rw [List.intercalate_cons_cons]
      rcases List.mem_cons.1 h with rfl | h
      · exact ⟨[], separator ++ separator.intercalate (second :: rest), by simp⟩
      · exact (ih h).trans (List.suffix_append _ _).isInfix

namespace Registry

/-- Validation accepts exactly the registries whose tables are all sound. What it reports of any other
registry are exactly the violations of its tables, and its details hold the message of each of them,
which begins with the name of the table. -/
theorem validate_reports_violations (registry : Registry) :
    (registry.validate = .ok () ↔
      ∀ name table, registry.table? name = some table → registry.Sound table) ∧
    (registry.validate ≠ .ok () → ∃ problems detail,
      registry.validate = .error (.internal (.invalidRegistry problems)) ∧
      (InternalFault.invalidRegistry problems).detail? = some detail ∧
      (∀ problem, problem ∈ problems ↔
        ∃ name table, registry.table? name = some table ∧ registry.Violates table problem) ∧
      ∀ name table problem, registry.table? name = some table → registry.Violates table problem →
        problem.message.toList <:+: detail.toList ∧
          (table.name ++ ": ").toList <+: problem.message.toList) := by
  refine ⟨validate_eq_ok_iff_sound, fun hrefused => ⟨registry.problems, _, validate_eq_error hrefused,
    rfl, fun problem => mem_problems_iff, ?_⟩⟩
  intro name table problem htable hviolates
  have hreported := mem_problems_iff.2 ⟨name, table, htable, hviolates⟩
  refine ⟨?_, hviolates.table_eq ▸ problem.prefix_message⟩
  rw [String.toList_intercalate, List.map_map]
  exact infix_intercalate (List.mem_map_of_mem hreported)

/-- Books without a key, whose identifier is declared twice and whose author is no registered table. -/
theorem validate_reports_violations_book :
    let book : Table := {
      name := "book"
      columns := [⟨"id", .integer, false⟩, ⟨"by", .integer, true⟩, ⟨"id", .text, false⟩]
      relationships := [⟨"author", "author", "by", "id"⟩] }
    let registry := empty.register book
    registry.validate ≠ .ok () ∧ ∃ problems detail,
      registry.validate = .error (.internal (.invalidRegistry problems)) ∧
      (InternalFault.invalidRegistry problems).detail? = some detail ∧
      "book: duplicate column 'id'".toList <:+: detail.toList ∧
      "book: no primary key".toList <:+: detail.toList ∧
      "book: relationship 'author' targets unknown table 'author'".toList <:+: detail.toList := by
  intro book registry
  have hrefused : registry.validate ≠ .ok () := by
    rw [ne_eq, validate_eq_ok_iff]
    decide
  have hbook : registry.table? "book" = some book := rfl
  obtain ⟨_, hreports⟩ := validate_reports_violations registry
  obtain ⟨problems, detail, herror, hdetail, _, hmessages⟩ := hreports hrefused
  have htwice : (book.columns.map Column.name).Duplicate "id" :=
    List.duplicate_iff_two_le_count.2 (by decide)
  have htarget : (⟨"author", "author", "by", "id"⟩ : Relationship) ∈ book.relationships :=
    List.mem_singleton_self _
  exact ⟨hrefused, problems, detail, herror, hdetail,
    (hmessages _ _ _ hbook (.duplicateColumn htwice)).1, (hmessages _ _ _ hbook (.missingKey rfl)).1,
    (hmessages _ _ _ hbook (.unknownTarget htarget rfl)).1⟩

end Registry

end TableQuery
