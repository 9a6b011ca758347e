import TableQuery.Plan
import TableQuery.Proofs.Request.Keys
import TableQuery.Proofs.Request.Selection

/-!
# A further list value

Adding one value under the list key of a column that has no list yet changes what is decoded in one
respect: the rows must also have the value in that column. Everything else stays, also the fault that
is reported if there is one, wherever the pair is added and whatever else is said of the column.
-/

namespace TableQuery

namespace Failure

variable {α β γ δ : Type} {R : α → β → Prop} {S : γ → δ → Prop}

/-- Two steps fail alike, or succeed with related results. -/
inductive Alike (R : α → β → Prop) : Except Failure α → Except Failure β → Prop
  | ok {a : α} {b : β} (related : R a b) : Alike R (.ok a) (.ok b)
  | error (failure : Failure) : Alike R (.error failure) (.error failure)

/-- Results that are related in one way may be known to be related in another. -/
theorem Alike.imp {T : α → β → Prop} {first : Except Failure α} {second : Except Failure β}
    (h : Alike R first second) (himp : ∀ a b, R a b → T a b) : Alike T first second := by
  cases h with
  | ok related => exact .ok (himp _ _ related)
  | error failure => exact .error failure

/-- Sequences are alike when their first steps are, and then what follows. -/
theorem Alike.bind {first : Except Failure α} {second : Except Failure β}
    {next : α → Except Failure γ} {other : β → Except Failure δ} (h : Alike R first second)
    (hnext : ∀ a b, R a b → Alike S (next a) (other b)) : Alike S (first >>= next) (second >>= other) := by
  cases h with
  | ok related => exact hnext _ _ related
  | error failure => exact .error failure

/-- Sequences are the same when their first steps are alike, and what follows is the same. -/
theorem Alike.bind_eq {first : Except Failure α} {second : Except Failure β}
    {next : α → Except Failure γ} {other : β → Except Failure γ} (h : Alike R first second)
    (hnext : ∀ a b, R a b → next a = other b) : (first >>= next) = (second >>= other) := by
  cases h with
  | ok related => exact hnext _ _ related
  | error failure => rfl

/-- After one step, sequences are alike when what follows is. -/
theorem Alike.bind_same (first : Except Failure α) {next : α → Except Failure γ}
    {other : α → Except Failure δ} (hnext : ∀ a, Alike S (next a) (other a)) :
    Alike S (first >>= next) (first >>= other) := by
  cases first with
  | ok a => exact hnext a
  | error failure => exact .error failure

end Failure

namespace ColumnFilter

variable {filter : ColumnFilter} {table : Table} {row : Row}

/-- A filter that is kept only when it is active holds of the rows of which it holds, since a filter
without constraints holds of every row. -/
theorem holds_kept_iff :
    (∀ kept ∈ (if filter.isActive then some filter else none).toList,
      kept.predicate.holds table row = true) ↔ filter.predicate.holds table row = true := by
  by_cases hactive : filter.isActive = true
  · simp [hactive]
  · have hnothing := mt isActive_iff.2 hactive
    simp only [not_or, not_exists, not_and] at hnothing
    obtain ⟨hrange, hlist, hpattern⟩ := hnothing
    simp only [hactive, Bool.false_eq_true, if_false, Option.toList_none, List.not_mem_nil,
      IsEmpty.forall_iff, implies_true, true_iff, holds_predicate_iff_parts]
    exact ⟨fun range hmem bound hbound => absurd hbound (hrange range hmem bound),
      fun list hmem => absurd hmem (hlist list), fun pattern hmem => absurd hmem (hpattern pattern)⟩

/-- A list narrows the condition of a filter that has none. -/
theorem holds_predicate_with_list (column : String) (range : Option RangeFilter) (list : ListFilter)
    (pattern : Option MatchFilter) :
    (⟨column, range, some list, pattern⟩ : ColumnFilter).predicate.holds table row = true ↔
      (⟨column, range, none, pattern⟩ : ColumnFilter).predicate.holds table row = true ∧
        (listPart column list).holds table row = true := by
  simp only [holds_predicate_iff_parts, holds_listPart, Option.mem_def, Option.some.injEq,
    forall_eq', reduceCtorEq, IsEmpty.forall_iff, implies_true, true_and]
  exact ⟨fun h => ⟨⟨h.1, h.2.2⟩, h.2.1⟩, fun h => ⟨h.1.1, h.2, h.1.2⟩⟩

end ColumnFilter

namespace Request

variable {params added : Params} {column near : Column} {table : Table} {settings : Settings}
  {text : String} {v : Value}

/-- Some filters narrow others by a condition: together they hold of the rows of which the others and
the condition do. -/
def Narrow (table : Table) (condition : Predicate) (filters narrowed : List ColumnFilter) : Prop :=
  ∀ row, (∀ filter ∈ narrowed, filter.predicate.holds table row = true) ↔
    (∀ filter ∈ filters, filter.predicate.holds table row = true) ∧
      condition.holds table row = true

/-! ## One column -/

/-- One value without an operator is decoded as membership in a list of one. -/
theorem decodeList_of_single (hlist : params.getAll (Facet.list.key column.name) = [text])
    (hoperator : params.getAll (Facet.listOperator.key column.name) = [])
    (hread : Value.read? column.type text = some v) :
    decodeList params column = .ok (some ⟨.isIn, [v]⟩) := by
  simp only [decodeList, decodeLiteral, Params.single, hlist, hoperator, List.mapM_cons,
    List.mapM_nil, coerce, hread]
  rfl

/-- The column of the value is narrowed to it. -/
theorem alike_decodeColumn_of_inserts
    (hinserts : Params.Inserts (Facet.list.key near.name) text params added)
    (hlist : params.getAll (Facet.list.key near.name) = [])
    (hoperator : params.getAll (Facet.listOperator.key near.name) = [])
    (hread : Value.read? near.type text = some v) (table : Table) :
    Failure.Alike (fun found narrowed : Option ColumnFilter =>
        Narrow table (.eq near.name v) found.toList narrowed.toList)
      (decodeColumn params near) (decodeColumn added near) := by
  have hother (facet : Facet) (hfacet : facet ≠ .list) :
      added.getAll (facet.key near.name) = params.getAll (facet.key near.name) :=
    hinserts.getAll_of_ne fun heq => hfacet (Facet.key_inj.1 heq).1
  have hrange : decodeRange added near = decodeRange params near :=
    decodeRange_congr fun facet hfacet => hother facet fun heq => absurd (heq ▸ hfacet) (by decide)
  have hpattern : decodePattern added near = decodePattern params near :=
    decodePattern_congr fun facet hfacet => hother facet fun heq => absurd (heq ▸ hfacet) (by decide)
  have hsingle : decodeList added near = .ok (some ⟨.isIn, [v]⟩) :=
    decodeList_of_single (hinserts.getAll_self hlist)
      ((hother .listOperator (by decide)).trans hoperator) hread
  rw [decodeColumn, decodeColumn, hrange, hpattern, hsingle, decodeList_of_absent hlist hoperator]
  refine .bind_same _ fun range => .bind_same _ fun pattern => .ok fun row => ?_
  rw [ColumnFilter.holds_kept_iff, ColumnFilter.holds_kept_iff]
  exact ColumnFilter.holds_predicate_with_list near.name range ⟨.isIn, [v]⟩ pattern

/-! ## All columns -/

/-- The columns with another name are decoded as without the value. -/
theorem decodeColumn_of_inserts (hinserts : Params.Inserts (Facet.list.key near.name) text params added)
    (hother : column.name ≠ near.name) : decodeColumn added column = decodeColumn params column :=
  decodeColumn_congr fun _ => hinserts.getAll_of_ne fun heq => hother (Facet.key_inj.1 heq).2

/-- The filters of columns with distinct names are narrowed to the value. -/
theorem alike_decodeColumns_of_inserts
    (hinserts : Params.Inserts (Facet.list.key near.name) text params added)
    (hlist : params.getAll (Facet.list.key near.name) = [])
    (hoperator : params.getAll (Facet.listOperator.key near.name) = [])
    (hread : Value.read? near.type text = some v) (table : Table) {columns : List Column}
    (hnodup : (columns.map Column.name).Nodup) (hnear : near ∈ columns) :
    Failure.Alike (Narrow table (.eq near.name v)) (decodeColumns params columns)
      (decodeColumns added columns) := by
  induction columns with
  | nil => contradiction
  | cons first rest ih =>
    rw [List.map_cons, List.nodup_cons] at hnodup
    rw [decodeColumns, decodeColumns]
    rcases List.mem_cons.1 hnear with rfl | hnear
    -- The column of the value comes first: no later column has its name.
    · have hrest : decodeColumns added rest = decodeColumns params rest :=
        decodeColumns_congr fun column hcolumn => decodeColumn_of_inserts hinserts
          fun heq => hnodup.1 (heq ▸ List.mem_map_of_mem hcolumn)
      rw [hrest]
      refine (alike_decodeColumn_of_inserts hinserts hlist hoperator hread table).bind
        fun found narrowed hnarrow => .bind_same _ fun filters => .ok fun row => ?_
      simp only [List.mem_append, or_imp, forall_and]
      rw [hnarrow row, and_right_comm]
    · have hne : first.name ≠ near.name := fun heq => hnodup.1 (heq ▸ List.mem_map_of_mem hnear)
      rw [decodeColumn_of_inserts hinserts hne]
      refine .bind_same _ fun found => (ih hnodup.2 hnear).bind
        fun filters narrowed hnarrow => .ok fun row => ?_
      simp only [List.mem_append, or_imp, forall_and]
      rw [hnarrow row, and_assoc]

/-! ## The request -/

/-- A request narrows another by a condition, and agrees with it in all that is no filter. -/
structure Narrows (table : Table) (condition : Predicate) (request narrowed : Request) : Prop where
  filters : Narrow table condition request.filters narrowed.filters
  window : narrowed.window = request.window
  order : narrowed.order = request.order
  relationships : narrowed.relationships = request.relationships

/-- The request is narrowed to the value, or the same fault is reported. -/
theorem alike_decode_of_inserts
    (hinserts : Params.Inserts (Facet.list.key near.name) text params added)
    (hlist : params.getAll (Facet.list.key near.name) = [])
    (hoperator : params.getAll (Facet.listOperator.key near.name) = [])
    (hread : Value.read? near.type text = some v)
    (hnodup : (table.columns.map Column.name).Nodup) (hnear : near ∈ table.columns) :
    Failure.Alike (Narrows table (.eq near.name v)) (decode params table settings)
      (decode added table settings) := by
  have hglobal : ∀ key ∈ globalKeys, added.getAll key = params.getAll key := fun key hkey =>
    hinserts.getAll_of_ne fun heq => Facet.key_notMem_globalKeys .list near.name (heq ▸ hkey)
  rw [decode, decode,
    decodeWindow_congr fun key hkey => hglobal key (mem_globalKeys_of_window hkey),
    Params.getSplit_congr (hglobal orderKey (by decide)),
    Params.getSplit_congr (hglobal relationshipKey (by decide))]
  refine (alike_decodeColumns_of_inserts hinserts hlist hoperator hread table hnodup hnear).bind
    fun filters narrowed hnarrow => .bind_same _ fun window => .bind_same _ fun order => .ok ?_
  exact ⟨hnarrow, rfl, rfl, rfl⟩

/-- The condition of the narrowed request holds of the rows of which those of the request and the
further condition do. -/
theorem Narrows.holds_predicate {condition : Predicate} {request narrowed : Request} {row : Row}
    (h : Narrows table condition request narrowed) :
    narrowed.predicate.holds table row =
      (request.predicate.holds table row && condition.holds table row) := by
  rw [Bool.eq_iff_iff, Bool.and_eq_true, predicate, predicate, Predicate.holds_all,
    Predicate.holds_all, List.forall_mem_map, List.forall_mem_map]
  exact h.filters row

end Request

end TableQuery
