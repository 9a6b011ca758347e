import TableQuery.Proofs.Sql.StoredOrder
import TableQuery.Proofs.Sql.Truth
import TableQuery.Proofs.Sql.Windows

/-!
# Executing statements

What a database may answer to a statement: the rows that satisfy the condition, in an order that the
sort keys allow, cut to the window. Rows that tie on all keys may come in any order. If the keys
cover the primary key there is one order only, and the answer is that of the rows in memory.
-/

namespace TableQuery

namespace Sql

/-- The rows that an execution of a statement may return: those that it finds, sorted by its keys and
cut. Rows that tie come in any order, except that without keys all rows come as stored. -/
def Statement.Returns (s : Statement) (stored returned : List StoredRow) : Prop :=
  ∃ sorted, sorted.Perm (s.found stored) ∧
    (sorted.Pairwise fun a b => compareStored s.order a b ≠ .gt) ∧
    (s.order = [] → sorted = s.found stored) ∧ returned = s.cut sorted

/-- Sorting what ties as it is stored is one way to execute a statement. -/
theorem Statement.returns_selected (s : Statement) (stored : List StoredRow) :
    s.Returns stored (s.selected stored) := by
  have := transCmp_compareStored s.order
  refine ⟨_, List.mergeSort_perm _ _, pairwise_mergeSort_ne_gt _ _, fun hkeys => ?_, rfl⟩
  rw [hkeys]
  exact List.mergeSort_of_pairwise (List.pairwise_of_forall fun _ _ => rfl)

/-- A source that answers by executing statements on a database. -/
structure Database.Executes (db : Database) (source : RowSource) : Prop where
  count : ∀ table p stored, db.rows table.name = .ok stored →
    source.count table p = .ok ((Statement.ofCount table p).found stored).length
  select : ∀ table query stored, db.rows table.name = .ok stored → query.window.InRange →
    ∃ returned, (Statement.ofQuery table query).Returns stored returned ∧
      source.select table query = returned.mapM (readRow table)

/-- The source of a database executes statements on it. -/
theorem Database.executes_source (db : Database) : db.Executes db.source where
  count table p stored hstored := by
    change (db.rows table.name >>= _) = _
    rw [hstored]
    change Except.ok (List.length (List.drop 0 (List.mergeSort _ _))) = _
    rw [List.drop_zero, List.length_mergeSort]
  select table query stored hstored _ := by
    refine ⟨_, Statement.returns_selected _ _, ?_⟩
    change (db.rows table.name >>= _) = _
    rw [hstored]
    rfl

/-- Storing rows of a table puts them after those that it has, and leaves other tables alone. -/
theorem Database.rows_append (db : Database) (table : Table) (rows : List Row) (name : String) :
    (db.append table rows).rows name =
      if name = table.name then
        .ok ((db.tables.get? table.name).getD [] ++ rows.map (storeRow table))
      else db.rows name := by
  rw [Database.rows, Database.append, NameMap.get?_insert]
  by_cases hname : name = table.name
  · rw [if_pos hname, if_pos hname]
  · rw [if_neg hname, if_neg hname]
    rfl

/-! ## Rows in memory and in a database -/

/-- Rows that a database keeps for a table: each can be stored, two of them differ in their primary
keys, and there are no more than the greatest limit, as a database numbers its rows by such words. -/
structure Kept (table : Table) (rows : List Row) : Prop where
  storable : ∀ row ∈ rows, Storable table row
  distinct : rows.Pairwise fun a b =>
    ∃ name ∈ table.primaryKey, table.cell? a name ≠ table.cell? b name
  length_le : rows.length ≤ Statement.greatestLimit

/-- A database holds the rows of a memory: for each registered table the same rows in the same
order, and these can be kept. -/
structure Database.Mirrors (db : Database) (registry : Registry) (memory : Memory) : Prop where
  stored : ∀ table, registry.table? table.name = some table →
    db.rows table.name = .ok ((memory.rows table.name).map (storeRow table))
  kept : ∀ table, registry.table? table.name = some table → Kept table (memory.rows table.name)

/-- A query whose answer does not depend on how rows are stored: it is well typed, its bounds have
years of four digits, its keys sort by declared columns and by all of the primary key unless there
are none, and its window can be held by a statement. -/
structure Portable (table : Table) (query : SelectQuery) : Prop where
  predicate : query.predicate.WellTyped table
  bounds : ∀ v, query.predicate.Bounds v → v.HasFourDigitYear
  declared : ∀ key ∈ query.order, ∃ column, table.column? key.column = some column
  keyed : query.order ≠ [] → ∀ name ∈ table.primaryKey, ∃ key ∈ query.order, key.column = name
  window : query.window.InRange

section Answers

variable {table : Table} {rows : List Row} {a b : Row} {p : Predicate} {query : SelectQuery}
  {keys : List SortKey} {sorted : List StoredRow}

/-- Storable cells of one type that tie are the same. -/
theorem eq_of_cellTies {first second : Option Value} {type : ColumnType}
    (hfirst : ∀ v ∈ first, v.Storable type) (hsecond : ∀ v ∈ second, v.Storable type)
    (h : Value.CellTies first second) : first = second := by
  cases h with
  | missing => rfl
  | equal heq => exact congrArg some ((hfirst _ rfl).eq_of_compare?_eq (hsecond _ rfl) heq)

/-- Kept rows of one primary key are the same. -/
theorem Kept.eq_of_cells (h : Kept table rows) (ha : a ∈ rows) (hb : b ∈ rows)
    (hcells : ∀ name ∈ table.primaryKey, table.cell? a name = table.cell? b name) : a = b := by
  obtain ⟨i, hi, rfl⟩ := List.mem_iff_getElem.1 ha
  obtain ⟨j, hj, rfl⟩ := List.mem_iff_getElem.1 hb
  have hdistinct := List.pairwise_iff_getElem.1 h.distinct
  rcases Nat.lt_trichotomy i j with hlt | rfl | hgt
  · obtain ⟨name, hname, hne⟩ := hdistinct i j hi hj hlt
    exact absurd (hcells name hname) hne
  · rfl
  · obtain ⟨name, hname, hne⟩ := hdistinct j i hj hi hgt
    exact absurd (hcells name hname).symm hne

/-- A condition finds the stored forms of the rows of which it holds. -/
theorem filter_storeRow (hp : p.WellTyped table) (hrows : ∀ row ∈ rows, Storable table row)
    (hbounds : ∀ v, p.Bounds v → v.HasFourDigitYear) :
    (rows.map (storeRow table)).filter (satisfies (Statement.condition? p)) =
      (rows.filter (p.holds table)).map (storeRow table) := by
  rw [List.filter_map]
  refine congrArg (List.map (storeRow table)) (List.filter_congr fun row hrow => ?_)
  exact satisfies_condition? hp (hrows row hrow) hbounds

/-- The limit and the offset of a statement cut as the window does. -/
theorem cut_ofQuery (h : sorted.length ≤ Statement.greatestLimit) :
    (Statement.ofQuery table query).cut sorted = query.window.apply sorted := by
  rw [Statement.cut_eq_apply, Statement.apply_window_ofQuery h]

/-- Kept rows that neither come after each other are the same if the keys cover the primary key. -/
theorem Kept.eq_of_ne_gt (h : Kept table rows) (ha : a ∈ rows) (hb : b ∈ rows)
    (hdeclared : ∀ key ∈ keys, ∃ column, table.column? key.column = some column)
    (hkeyed : ∀ name ∈ table.primaryKey, ∃ key ∈ keys, key.column = name)
    (hab : SortKey.compareAll table keys a b ≠ .gt)
    (hba : SortKey.compareAll table keys b a ≠ .gt) : a = b := by
  have hties := SortKey.ties_of_ne_gt hab hba
  refine h.eq_of_cells ha hb fun name hname => ?_
  obtain ⟨key, hkey, rfl⟩ := hkeyed name hname
  obtain ⟨column, hcolumn⟩ := hdeclared key hkey
  exact eq_of_cellTies ((h.storable a ha).cell? hcolumn) ((h.storable b hb).cell? hcolumn)
    (hties key hkey)

/-- Sorting stored rows by keys that cover the primary key leaves one order, that of the rows. -/
theorem eq_sort_of_pairwise (hkept : Kept table rows) {found : List Row}
    (hfound : ∀ row ∈ found, row ∈ rows)
    (hdeclared : ∀ key ∈ keys, ∃ column, table.column? key.column = some column)
    (hkeyed : ∀ name ∈ table.primaryKey, ∃ key ∈ keys, key.column = name)
    (hperm : sorted.Perm (found.map (storeRow table)))
    (hpairs : sorted.Pairwise fun a b => compareStored keys a b ≠ .gt) :
    sorted = (SortKey.sort table keys found).map (storeRow table) := by
  have hcompare {a b : Row} (ha : a ∈ found) (hb : b ∈ found) :=
    compareStored_storeRow (hkept.storable a (hfound a ha)) (hkept.storable b (hfound b hb)) hdeclared
  have hsort : ∀ row ∈ SortKey.sort table keys found, row ∈ found :=
    fun row hrow => (SortKey.sort_perm table keys found).mem_iff.1 hrow
  have hother : ((SortKey.sort table keys found).map (storeRow table)).Pairwise
      fun a b => compareStored keys a b ≠ .gt := by
    rw [List.pairwise_map]
    refine (pairwise_mergeSort_ne_gt (SortKey.compareAll table keys) found).imp_of_mem ?_
    intro a b ha hb hab
    rwa [hcompare (hsort a ha) (hsort b hb)]
  have hantisymm : ∀ a b, a ∈ sorted → b ∈ (SortKey.sort table keys found).map (storeRow table) →
      compareStored keys a b ≠ .gt → compareStored keys b a ≠ .gt → a = b := by
    intro a b ha hb hab hba
    obtain ⟨first, hfirst, rfl⟩ := List.mem_map.1 (hperm.mem_iff.1 ha)
    obtain ⟨second, hsecond, rfl⟩ := List.mem_map.1 hb
    have hsecond := hsort second hsecond
    rw [hcompare hfirst hsecond] at hab
    rw [hcompare hsecond hfirst] at hba
    exact congrArg (storeRow table) (hkept.eq_of_ne_gt (hfound _ hfirst) (hfound _ hsecond)
      hdeclared hkeyed hab hba)
  have hsame := (SortKey.sort_perm table keys found).map (storeRow table)
  exact List.Perm.eq_of_pairwise hantisymm hpairs hother (hperm.trans hsame.symm)

end Answers

section Agreement

variable {registry : Registry} {table : Table} {db : Database} {memory : Memory} {source : RowSource}
  {query : SelectQuery} {p : Predicate}

/-- A source over a database counts as many rows as the mirrored memory. -/
theorem count_eq (hmirrors : db.Mirrors registry memory) (hexecutes : db.Executes source)
    (htable : registry.table? table.name = some table) (hp : p.WellTyped table)
    (hbounds : ∀ v, p.Bounds v → v.HasFourDigitYear) :
    source.count table p = .ok (memory.matching table p).length := by
  have hfound := filter_storeRow hp (hmirrors.kept table htable).storable hbounds
  have hcount := hexecutes.count table p _ (hmirrors.stored table htable)
  change _ = Except.ok (List.length (List.filter (satisfies (Statement.condition? p)) _)) at hcount
  rw [hcount, hfound, List.length_map]
  rfl

/-- A source over a database selects the same rows as the mirrored memory. -/
theorem select_eq (hsound : registry.Sound table) (hmirrors : db.Mirrors registry memory)
    (hexecutes : db.Executes source) (htable : registry.table? table.name = some table)
    (hquery : Portable table query) :
    source.select table query = .ok (memory.select table query) := by
  have hkept := hmirrors.kept table htable
  obtain ⟨returned, ⟨sorted, hperm, hpairs, hstored, rfl⟩, hselect⟩ :=
    hexecutes.select table query _ (hmirrors.stored table htable) hquery.window
  have hfound : (Statement.ofQuery table query).found
      ((memory.rows table.name).map (storeRow table)) =
        (memory.matching table query.predicate).map (storeRow table) :=
    filter_storeRow hquery.predicate hkept.storable hquery.bounds
  have hmem : ∀ row ∈ memory.matching table query.predicate, row ∈ memory.rows table.name :=
    fun row hrow => (List.mem_filter.1 hrow).1
  rw [hfound] at hperm hstored
  have hsorted : sorted = (SortKey.sort table query.order
      (memory.matching table query.predicate)).map (storeRow table) := by
    by_cases hkeys : query.order = []
    · rw [hstored hkeys, hkeys, SortKey.sort]
      exact congrArg _ (List.mergeSort_of_pairwise (List.pairwise_of_forall fun _ _ => rfl)).symm
    · exact eq_sort_of_pairwise hkept hmem hquery.declared (hquery.keyed hkeys) hperm hpairs
  have hlength : sorted.length ≤ Statement.greatestLimit := by
    rw [hperm.length_eq, List.length_map]
    exact Nat.le_trans (List.length_filter_le _ _) hkept.length_le
  rw [hselect, cut_ofQuery hlength, hsorted, Window.apply_map, List.mapM_map]
  refine Failure.mapM_eq_ok _ fun row hrow => readRow_storeRow hsound.columns_nodup ?_
  have hrow := (SortKey.sort_perm _ _ _).mem_iff.1 (Window.mem_of_mem_apply hrow)
  exact hkept.storable row (hmem row hrow)

end Agreement

end Sql

end TableQuery
