import TableQuery.Expansion
import TableQuery.Proofs.Rows.Arrangement
import TableQuery.Proofs.Rows.Projection

/-!
# What is shown of a row stands for the row

Conditions, comparisons and the matching of related rows read a row through its typed cells only, so
that nothing tells rows with the same typed cells apart. What a table shows of a stored row has the
typed cells of this row, also where columns share a name, cells are missing or of another form, or the
row holds more than the table declares. The rows that a query selects therefore satisfy its condition
and come in its order by what they hold themselves.
-/

namespace TableQuery

/-- Fields whose values depend on their names alone: each name has its value, however often it
occurs. -/
theorem Row.get?_ofList_map (names : List String) (say : String → Json) (name : String) :
    (Row.ofList (names.map fun other => (other, say other))).get? name =
      if name ∈ names then some (say name) else none := by
  have hset (row : Row) : ((names.map fun other => (other, say other)).foldl
      (fun row field => row.set field.1 field.2) row).get? name =
        if name ∈ names then some (say name) else row.get? name := by
    induction names generalizing row with
    | nil => simp
    | cons first rest ih =>
      rw [List.map_cons, List.foldl_cons, ih, get?_set]
      by_cases hrest : name ∈ rest
      · simp [hrest]
      · by_cases hfirst : name = first <;> simp [hrest, hfirst]
  exact hset Row.empty

/-- A window holds items in the order in which they stand. -/
theorem Window.apply_sublist {α : Type} (w : Window) (items : List α) :
    (w.apply items).Sublist items := by
  unfold apply
  split
  · exact List.drop_sublist _ items
  · exact (List.take_sublist _ _).trans (List.drop_sublist _ items)

namespace Table

variable {table : Table} {a b : Row}

/-- Two rows have the same typed cells. -/
def SameCells (table : Table) (a b : Row) : Prop :=
  ∀ name, table.cell? a name = table.cell? b name

/-- A projected row has a cell under each column name, with null for a missing one, and no other. -/
theorem get?_project (table : Table) (row : Row) (name : String) :
    (table.project row).get? name =
      if name ∈ table.columns.map Column.name then some ((row.get? name).getD .null) else none := by
  rw [← Row.get?_ofList_map (table.columns.map Column.name) fun other => (row.get? other).getD .null,
    List.map_map]
  rfl

/-- A table shows the typed cells of a row. -/
theorem sameCells_project (table : Table) (row : Row) : table.SameCells (table.project row) row := by
  intro name
  unfold cell?
  cases hcolumn : table.column? name with
  | none => rfl
  | some column =>
    -- Columns may share a name, so that the cell is found by its name and not by its column's place.
    obtain ⟨hmem, rfl⟩ := column?_eq_some hcolumn
    rw [Option.bind_some, Option.bind_some, get?_project, if_pos (List.mem_map_of_mem hmem)]
    cases row.get? column.name with
    | none => cases column.type <;> rfl
    | some cell => rfl

/-- What a table shows of a row, it shows of what it shows. -/
theorem project_project (table : Table) (row : Row) :
    table.project (table.project row) = table.project row := by
  refine congrArg Row.ofList (List.map_congr_left fun column hcolumn => ?_)
  rw [get?_project, if_pos (List.mem_map_of_mem hcolumn), Option.getD_some]

end Table

variable {table : Table} {a b : Row}

/-- A condition reads typed cells only. The induction follows the parts of conjunctions and
disjunctions. -/
theorem Predicate.holds_congr (h : table.SameCells a b) (p : Predicate) :
    p.holds table a = p.holds table b := by
  match p with
  | .always => rfl
  | .and parts =>
    have hparts : ∀ part ∈ parts, part.holds table a = part.holds table b :=
      fun part _ => holds_congr h part
    rw [holds, holds, holdsAll_eq_all, holdsAll_eq_all, Bool.eq_iff_iff, List.all_eq_true,
      List.all_eq_true]
    exact forall₂_congr fun part hpart => by rw [hparts part hpart]
  | .or parts =>
    have hparts : ∀ part ∈ parts, part.holds table a = part.holds table b :=
      fun part _ => holds_congr h part
    rw [holds, holds, holdsAny_eq_any, holdsAny_eq_any, Bool.eq_iff_iff, List.any_eq_true,
      List.any_eq_true]
    exact exists_congr fun part => and_congr_right fun hpart => by rw [hparts part hpart]
  | .compare name _ _ => rw [holds, holds, h name]
  | .membership name _ _ => rw [holds, holds, h name]
  | .text name _ _ => rw [holds, holds, h name]
termination_by p

namespace SortKey

variable {keys : List SortKey} {rows : List Row}

/-- Comparing with another row reads typed cells only. -/
theorem compareAll_congr (h : table.SameCells a b) (keys : List SortKey) (other : Row) :
    compareAll table keys a other = compareAll table keys b other := by
  induction keys with
  | nil => rfl
  | cons key keys ih =>
    change (key.compareRows table a other).then (compareAll table keys a other) =
      (key.compareRows table b other).then (compareAll table keys b other)
    rw [ih, compareRows, compareRows, h key.column]

/-- Rows in the order of sort keys: each comes before every later one, or ties with it on all keys. -/
def Sorted (table : Table) (keys : List SortKey) (rows : List Row) : Prop :=
  rows.Pairwise fun a b => Before table keys a b ∨ ∀ key ∈ keys, key.Ties table a b

/-- Rows are sorted when none comes after a later one. -/
theorem sorted_iff :
    Sorted table keys rows ↔ rows.Pairwise fun a b => compareAll table keys a b ≠ .gt := by
  refine List.Pairwise.iff_of_mem fun {a b} _ _ => ?_
  rw [← compareAll_eq_lt_iff, ← compareAll_eq_eq_iff]
  cases compareAll table keys a b <;> simp

/-- Sorting sorts. -/
theorem sorted_sort (table : Table) (keys : List SortKey) (rows : List Row) :
    Sorted table keys (sort table keys rows) :=
  sorted_iff.2 (pairwise_mergeSort_ne_gt (compareAll table keys) rows)

end SortKey

/-- Nothing that a query or a relationship asks tells two rows apart: they satisfy the same conditions,
compare alike with every row on either side, and hold the same values with the same texts to match by. -/
structure Table.Indistinguishable (table : Table) (a b : Row) : Prop where
  holds_eq : ∀ p : Predicate, p.holds table a = p.holds table b
  compare_left : ∀ keys other,
    SortKey.compareAll table keys a other = SortKey.compareAll table keys b other
  compare_right : ∀ keys other,
    SortKey.compareAll table keys other a = SortKey.compareAll table keys other b
  cell_eq : ∀ name, table.cell? a name = table.cell? b name
  joinText_eq : ∀ name, table.joinText? a name = table.joinText? b name

/-- Rows with the same typed cells are indistinguishable. -/
theorem Table.SameCells.indistinguishable (h : table.SameCells a b) : table.Indistinguishable a b where
  holds_eq := Predicate.holds_congr h
  compare_left := SortKey.compareAll_congr h
  compare_right keys other := by
    rw [SortKey.compareAll_swap table keys a, SortKey.compareAll_swap table keys b,
      SortKey.compareAll_congr h]
  cell_eq := h
  joinText_eq name := by rw [joinText?, joinText?, h name]

namespace Memory

/-- Selected rows satisfy the condition of their query. -/
theorem holds_of_mem_select {memory : Memory} {query : SelectQuery} {row : Row}
    (h : row ∈ memory.select table query) : query.predicate.holds table row = true := by
  obtain ⟨stored, hstored, rfl⟩ := List.mem_map.1 h
  have hmatching := (SortKey.sort_perm table query.order _).mem_iff.1 (Window.mem_of_mem_apply hstored)
  rw [Predicate.holds_congr (table.sameCells_project stored)]
  exact (List.mem_filter.1 hmatching).2

/-- Selected rows come in the order of their query. -/
theorem sorted_select (memory : Memory) (table : Table) (query : SelectQuery) :
    SortKey.Sorted table query.order (memory.select table query) := by
  have hstored := (SortKey.sorted_sort table query.order (memory.matching table query.predicate)).sublist
    (query.window.apply_sublist _)
  rw [SortKey.sorted_iff, select, List.pairwise_map]
  refine (SortKey.sorted_iff.1 hstored).imp fun {a b} hab => ?_
  rwa [(table.sameCells_project a).indistinguishable.compare_left,
    (table.sameCells_project b).indistinguishable.compare_right]

end Memory

/-- Nothing tells what a table shows of a row from the row, and showing it again changes nothing. So
the rows that a memory selects satisfy the condition of their query, and they are sorted by its keys. -/
theorem Table.project_indistinguishable (table : Table) :
    (∀ row, table.Indistinguishable (table.project row) row ∧
      table.project (table.project row) = table.project row) ∧
    ∀ (memory : Memory) (query : SelectQuery),
      (∀ row ∈ memory.select table query, query.predicate.holds table row = true) ∧
        SortKey.Sorted table query.order (memory.select table query) :=
  ⟨fun row => ⟨(table.sameCells_project row).indistinguishable, table.project_project row⟩,
    fun memory query => ⟨fun _ => Memory.holds_of_mem_select, memory.sorted_select table query⟩⟩

/-- Measurements in a table that declares the height twice, as a number and as a text. One of them has
a cell that is not declared, another order of the cells, and a name that is not a text. -/
theorem Table.project_indistinguishable_measured :
    let table : Table := {
      name := "measurement"
      columns := [⟨"height", .integer, true⟩, ⟨"name", .text, true⟩, ⟨"height", .text, true⟩] }
    let low : Row := .ofList [("depth", .bool true), ("name", .arr []), ("height", .int 2)]
    let tall : Row := .ofList [("height", .int 5)]
    let memory := Memory.empty.append "measurement" [low, tall]
    let query : SelectQuery := {
      predicate := .compare "height" .greater (.integer 1)
      order := [⟨"height", .descending⟩, ⟨"name", .ascending⟩]
      window := .unbounded }
    (table.project low).fields = [("height", .int 2), ("name", .arr [])] ∧
      table.Indistinguishable (table.project low) low ∧
      table.project (table.project low) = table.project low ∧
      table.project low ∈ memory.select table query ∧
      query.predicate.holds table (table.project low) = true ∧
      SortKey.Sorted table query.order (memory.select table query) := by
  intro table low tall memory query
  have hmatching : low ∈ memory.matching table query.predicate :=
    List.mem_filter.2 ⟨List.mem_cons_self, by decide⟩
  have hselected : table.project low ∈ memory.select table query :=
    List.mem_map_of_mem ((SortKey.sort_perm table query.order _).mem_iff.2 hmatching)
  obtain ⟨hrows, hselect⟩ := table.project_indistinguishable
  exact ⟨rfl, (hrows low).1, (hrows low).2, hselected, (hselect memory query).1 _ hselected,
    (hselect memory query).2⟩

end TableQuery
