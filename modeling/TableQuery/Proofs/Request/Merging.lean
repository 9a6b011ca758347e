import TableQuery.Proofs.Request.Keys
import TableQuery.Proofs.Request.Selection
import TableQuery.Proofs.Schema.Soundness

/-!
# Requests on different columns

Parameters may be put together from two parts in any order that keeps the values under each key in
theirs. When no column has keys in both parts, and the second part has only keys of columns, nothing
that is decoded for one part is disturbed by the other: each column has its filter from the part that
speaks of it, and a row is selected exactly when both parts select it.
-/

namespace TableQuery

/-- Parameters that hold the pairs of two parts, the values under each key in the order of the part. -/
structure Params.Merges (first second merged : Params) : Prop where
  perm : merged.pairs.Perm (first.pairs ++ second.pairs)
  left : ∀ key, (first.getAll key).Sublist (merged.getAll key)
  right : ∀ key, (second.getAll key).Sublist (merged.getAll key)

namespace Params.Merges

variable {first second merged : Params} {key : String}

/-- The parts may be exchanged. -/
theorem symm (h : first.Merges second merged) : second.Merges first merged :=
  ⟨h.perm.trans List.perm_append_comm, h.right, h.left⟩

/-- Under a key stand as many values as in both parts. -/
theorem length_getAll (h : first.Merges second merged) (key : String) :
    (merged.getAll key).length = (first.getAll key).length + (second.getAll key).length := by
  have hcount := (h.perm.filter fun pair => pair.1 = key).length_eq
  simpa only [getAll, List.length_map, List.filter_append, List.length_append] using hcount

/-- Under a key that only one part has stand its values. -/
theorem getAll_eq (h : first.Merges second merged) (hkey : second.getAll key = []) :
    merged.getAll key = first.getAll key := by
  refine ((h.left key).eq_of_length ?_).symm
  rw [h.length_getAll, hkey, List.length_nil, Nat.add_zero]

/-- An interleaving of the pairs of two parts puts them together. -/
theorem of_sublist (hperm : merged.pairs.Perm (first.pairs ++ second.pairs))
    (hleft : first.pairs.Sublist merged.pairs) (hright : second.pairs.Sublist merged.pairs) :
    first.Merges second merged :=
  ⟨hperm, fun _ => (hleft.filter _).map _, fun _ => (hright.filter _).map _⟩

end Params.Merges

/-- The parameters have no key of a column. -/
def Params.Omits (params : Params) (column : String) : Prop :=
  ∀ facet : Facet, params.contains (facet.key column) = false

namespace Request

variable {table : Table} {settings : Settings} {params first second merged : Params}
  {request left right : Request} {row : Row}

/-- A request with the filters of two others, one at most for each column, and all else from the
first. -/
structure Combines (table : Table) (left right request : Request) : Prop where
  window : request.window = left.window
  order : request.order = left.order
  relationships : request.relationships = left.relationships
  filters : request.filters = table.columns.filterMap fun column => request.filter? column.name
  apart : ∀ column ∈ table.columns,
    left.filter? column.name = none ∨ right.filter? column.name = none
  filter?_eq : ∀ column ∈ table.columns,
    request.filter? column.name = (left.filter? column.name).or (right.filter? column.name)

/-- A column without keys has no filter. -/
theorem filter?_eq_none_of_omits {column : Column} (hnodup : (table.columns.map Column.name).Nodup)
    (hdecode : decode params table settings = .ok request) (hcolumn : column ∈ table.columns)
    (homits : params.Omits column.name) : request.filter? column.name = none := by
  have hnothing : decodeColumn params column = .ok none :=
    decodeColumn_of_absent fun facet => (Params.contains_eq_false_iff _ _).1 (homits facet)
  have hfound := ((decode_eq_ok_iff hnodup).1 hdecode).1 column hcolumn
  exact Except.ok.inj (hfound.symm.trans hnothing)

/-- A column that the second part does not speak of is decoded as in the first one. -/
theorem decodeColumn_of_merges {column : Column} (hmerges : first.Merges second merged)
    (homits : second.Omits column.name) : decodeColumn merged column = decodeColumn first column :=
  decodeColumn_congr fun facet =>
    hmerges.getAll_eq ((Params.contains_eq_false_iff _ _).1 (homits facet))

/-- When no column has keys in both parts, each is decoded from the part that speaks of it. -/
theorem decodeColumn_or_of_merges {column : Column} (hnodup : (table.columns.map Column.name).Nodup)
    (hmerges : first.Merges second merged)
    (hleft : decode first table settings = .ok left)
    (hright : decode second table settings = .ok right) (hcolumn : column ∈ table.columns)
    (hapart : first.Omits column.name ∨ second.Omits column.name) :
    (left.filter? column.name = none ∨ right.filter? column.name = none) ∧
      decodeColumn merged column =
        .ok ((left.filter? column.name).or (right.filter? column.name)) := by
  rcases hapart with homits | homits
  · have hnone := filter?_eq_none_of_omits hnodup hleft hcolumn homits
    refine ⟨Or.inl hnone, ?_⟩
    rw [decodeColumn_of_merges hmerges.symm homits, hnone, Option.none_or]
    exact ((decode_eq_ok_iff hnodup).1 hright).1 column hcolumn
  · have hnone := filter?_eq_none_of_omits hnodup hright hcolumn homits
    refine ⟨Or.inr hnone, ?_⟩
    rw [decodeColumn_of_merges hmerges homits, hnone, Option.or_none]
    exact ((decode_eq_ok_iff hnodup).1 hleft).1 column hcolumn

/-- A row is selected exactly when it satisfies the filter of each column. -/
theorem holds_predicate_iff_filter?
    (hfilters : request.filters = table.columns.filterMap fun column => request.filter? column.name) :
    request.predicate.holds table row = true ↔
      ∀ column ∈ table.columns, ∀ filter ∈ request.filter? column.name,
        filter.predicate.holds table row = true := by
  rw [predicate, Predicate.holds_all, List.forall_mem_map]
  constructor
  · intro h column hcolumn filter hfilter
    exact h filter (hfilters ▸ List.mem_filterMap.2 ⟨column, hcolumn, hfilter⟩)
  · intro h filter hfilter
    rw [hfilters] at hfilter
    obtain ⟨column, hcolumn, hfilter⟩ := List.mem_filterMap.1 hfilter
    exact h column hcolumn filter hfilter

/-- A combined request selects the rows that both requests select. -/
theorem Combines.holds_predicate (h : Combines table left right request)
    (hleft : left.filters = table.columns.filterMap fun column => left.filter? column.name)
    (hright : right.filters = table.columns.filterMap fun column => right.filter? column.name) :
    request.predicate.holds table row =
      (left.predicate.holds table row && right.predicate.holds table row) := by
  rw [Bool.eq_iff_iff, Bool.and_eq_true, holds_predicate_iff_filter? h.filters,
    holds_predicate_iff_filter? hleft, holds_predicate_iff_filter? hright, ← forall₂_and]
  refine forall₂_congr fun column hcolumn => ?_
  rw [h.filter?_eq column hcolumn]
  rcases h.apart column hcolumn with hnone | hnone
  · simp [hnone]
  · simp [hnone]

/-- Merged parameters are decoded, with the filters of both parts and all else from the first. -/
theorem exists_combines_of_merges (hnodup : (table.columns.map Column.name).Nodup)
    (hmerges : first.Merges second merged)
    (hkeys : ∀ pair ∈ second.pairs, ∃ (facet : Facet) (column : String), pair.1 = facet.key column)
    (hapart : ∀ column ∈ table.columns, first.Omits column.name ∨ second.Omits column.name)
    (hleft : decode first table settings = .ok left)
    (hright : decode second table settings = .ok right) :
    ∃ request, decode merged table settings = .ok request ∧
      Combines table left right request := by
  obtain ⟨_, _, hwindow, horder, hrelationships⟩ := (decode_eq_ok_iff hnodup).1 hleft
  have hglobal : ∀ key ∈ globalKeys, merged.getAll key = first.getAll key := by
    intro key hkey
    refine hmerges.getAll_eq ?_
    simp only [Params.getAll, List.map_eq_nil_iff, List.filter_eq_nil_iff, decide_eq_true_eq]
    intro pair hpair heq
    obtain ⟨facet, column, hfacet⟩ := hkeys pair hpair
    exact Facet.key_notMem_globalKeys facet column (hfacet ▸ heq ▸ hkey)
  have hdecoded (column : Column) (hcolumn : column ∈ table.columns) :=
    decodeColumn_or_of_merges hnodup hmerges hleft hright hcolumn (hapart column hcolumn)
  have hdecode : decode merged table settings = .ok ⟨table.columns.filterMap (found? merged),
      left.window, left.order, left.relationships⟩ := by
    simp only [decode, Failure.bind_eq_ok_iff, decodeColumns_eq_ok_iff]
    refine ⟨_, ⟨fun column hcolumn => ?_, rfl⟩, left.window, ?_, left.order, ?_, ?_⟩
    · rw [found?_of_decodeColumn (hdecoded column hcolumn).2]
      exact (hdecoded column hcolumn).2
    · rw [decodeWindow_congr fun key hkey => hglobal key (mem_globalKeys_of_window hkey), hwindow]
    · rw [Params.getSplit_congr (hglobal orderKey (by decide)), horder]
    · rw [Params.getSplit_congr (hglobal relationshipKey (by decide)), hrelationships]
  refine ⟨_, hdecode, {
    window := rfl
    order := rfl
    relationships := rfl
    filters := ((decode_eq_ok_iff hnodup).1 hdecode).2.1
    apart := fun column hcolumn => (hdecoded column hcolumn).1
    filter?_eq := fun column hcolumn => ?_ }⟩
  rw [filter?, find?_filterMap_found? hnodup hcolumn,
    found?_of_decodeColumn (hdecoded column hcolumn).2]

/-- A key belongs to one facet of one column, and never to the whole request. So what two parts say of
different columns is decoded as each says it, and selects the rows that both select. -/
theorem decode_of_merges :
    (∀ (facet other : Facet) (column second : String),
      facet.key column = other.key second → facet = other ∧ column = second) ∧
    (∀ (facet : Facet) (column : String), facet.key column ∉ globalKeys) ∧
    ∀ {table : Table} {settings : Settings} {first second merged : Params} {left right : Request},
      (table.columns.map Column.name).Nodup →
      first.Merges second merged →
      (∀ pair ∈ second.pairs, ∃ (facet : Facet) (column : String), pair.1 = facet.key column) →
      (∀ column ∈ table.columns, first.Omits column.name ∨ second.Omits column.name) →
      decode first table settings = .ok left →
      decode second table settings = .ok right →
      ∃ request, decode merged table settings = .ok request ∧ Combines table left right request ∧
        ∀ row, request.predicate.holds table row =
          (left.predicate.holds table row && right.predicate.holds table row) := by
  refine ⟨fun facet other column second => Facet.key_inj.1, Facet.key_notMem_globalKeys,
    fun hnodup hmerges hkeys hapart hleft hright => ?_⟩
  obtain ⟨request, hdecode, hcombines⟩ :=
    exists_combines_of_merges hnodup hmerges hkeys hapart hleft hright
  exact ⟨request, hdecode, hcombines, fun row => hcombines.holds_predicate
    ((decode_eq_ok_iff hnodup).1 hleft).2.1 ((decode_eq_ok_iff hnodup).1 hright).2.1⟩

/-- The bound of an identifier goes between the values of a list of names. -/
theorem decode_merged_authors :
    let first : Params := ⟨[("name____list", "ada"), ("limit", "5"), ("name____list", "alan")]⟩
    let second : Params := ⟨[("id____from", "3")]⟩
    let merged : Params :=
      ⟨[("name____list", "ada"), ("id____from", "3"), ("limit", "5"), ("name____list", "alan")]⟩
    let left : Request := {
      filters := [⟨"name", none, some ⟨.isIn, [.text "ada", .text "alan"]⟩, none⟩]
      window := ⟨some 5, 0⟩ }
    let right : Request := {
      filters := [⟨"id", some ⟨some ⟨.greaterOrEqual, .integer 3⟩, none⟩, none, none⟩] }
    first.Merges second merged ∧ ∃ request, decode merged Registry.author {} = .ok request ∧
      Combines Registry.author left right request ∧
      ∀ row, request.predicate.holds Registry.author row =
        (left.predicate.holds Registry.author row && right.predicate.holds Registry.author row) := by
  intro first second merged left right
  have hmerges : first.Merges second merged := .of_sublist (by decide) (by decide) (by decide)
  have hkeys : ∀ pair ∈ second.pairs, ∃ (facet : Facet) (column : String),
      pair.1 = facet.key column := by
    simpa [second] using ⟨Facet.lower, "id", rfl⟩
  have hapart : ∀ column ∈ Registry.author.columns,
      first.Omits column.name ∨ second.Omits column.name := by
    have homits (params : Params) (column : String)
        (h : ∀ facet ∈ Facet.all, params.contains (facet.key column) = false) :
        params.Omits column := fun facet => h facet (by cases facet <;> decide)
    simp only [Registry.author, List.forall_mem_cons]
    exact ⟨Or.inl (homits _ _ (by decide)), Or.inr (homits _ _ (by decide)),
      Or.inr (homits _ _ (by decide)), nofun⟩
  exact ⟨hmerges, decode_of_merges.2.2 (by decide) hmerges hkeys hapart rfl rfl⟩

end Request

end TableQuery
