import TableQuery.Proofs.Request.Planning
import TableQuery.Proofs.Request.Selection
import TableQuery.Source.Fetch

/-!
# Well-typed questions

A condition on a table is well typed when each of its leaves names a declared column and holds values
of the type of this column. Comparing a cell with a value of such a leaf is always defined, and never
compares an integer with a floating-point number. The conditions that decoded requests become are
well typed.
-/

namespace TableQuery

namespace Predicate

/-- Every leaf names a declared column and holds values that the column can hold; comparisons stand
on columns with ranges, patterns on texts, and what is excluded is not nothing. -/
inductive WellTyped (table : Table) : Predicate → Prop
  | always : WellTyped table .always
  | and {parts : List Predicate} (h : ∀ part ∈ parts, WellTyped table part) :
      WellTyped table (.and parts)
  | or {parts : List Predicate} (h : ∀ part ∈ parts, WellTyped table part) :
      WellTyped table (.or parts)
  | compare {name : String} {operator : RangeOperator} {v : Value} {column : Column}
      (declared : table.column? name = some column) (fits : v.Fits column.type)
      (range : column.type.supportsRange = true) : WellTyped table (.compare name operator v)
  | membership {name : String} {values : List Value} {negated : Bool} {column : Column}
      (declared : table.column? name = some column) (fits : ∀ v ∈ values, v.Fits column.type)
      (nonempty : negated = true → values ≠ []) : WellTyped table (.membership name values negated)
  | text {name : String} {mode : MatchMode} {wanted : String} {column : Column}
      (declared : table.column? name = some column) (text : column.type = .text) :
      WellTyped table (.text name mode wanted)

/-- A condition that asks about a single column. -/
inductive About : Predicate → String → Prop
  | compare (name : String) (operator : RangeOperator) (v : Value) :
      About (.compare name operator v) name
  | membership (name : String) (values : List Value) (negated : Bool) :
      About (.membership name values negated) name
  | text (name : String) (mode : MatchMode) (wanted : String) : About (.text name mode wanted) name

/-- A leaf of a condition, with the column that it asks about. -/
inductive Leaf : Predicate → String → Predicate → Prop
  | self {leaf : Predicate} {name : String} (h : leaf.About name) : Leaf leaf name leaf
  | and {parts : List Predicate} {part leaf : Predicate} {name : String} (h : part ∈ parts)
      (among : Leaf part name leaf) : Leaf (.and parts) name leaf
  | or {parts : List Predicate} {part leaf : Predicate} {name : String} (h : part ∈ parts)
      (among : Leaf part name leaf) : Leaf (.or parts) name leaf

/-- A leaf asks about its column. -/
theorem Leaf.about {p leaf : Predicate} {name : String} (h : p.Leaf name leaf) : leaf.About name := by
  induction h with
  | self h => exact h
  | and _ _ ih => exact ih
  | or _ _ ih => exact ih

/-- What is asked of the leaves of a conjunction is asked of those of each part. -/
theorem forall_leaf_and {parts : List Predicate} {asked : String → Predicate → Prop} :
    (∀ name leaf, (Predicate.and parts).Leaf name leaf → asked name leaf) ↔
      ∀ part ∈ parts, ∀ name leaf, part.Leaf name leaf → asked name leaf := by
  refine ⟨fun h part hpart name leaf hleaf => h name leaf (.and hpart hleaf), ?_⟩
  intro h name leaf hleaf
  cases hleaf with
  | self habout => cases habout
  | and hpart among => exact h _ hpart name leaf among

/-- What is asked of the leaves of a disjunction is asked of those of each part. -/
theorem forall_leaf_or {parts : List Predicate} {asked : String → Predicate → Prop} :
    (∀ name leaf, (Predicate.or parts).Leaf name leaf → asked name leaf) ↔
      ∀ part ∈ parts, ∀ name leaf, part.Leaf name leaf → asked name leaf := by
  refine ⟨fun h part hpart name leaf hleaf => h name leaf (.or hpart hleaf), ?_⟩
  intro h name leaf hleaf
  cases hleaf with
  | self habout => cases habout
  | or hpart among => exact h _ hpart name leaf among

/-- What asks about a single column is its own only leaf. -/
theorem About.forall_leaf {p : Predicate} {name : String} (h : p.About name)
    {asked : String → Predicate → Prop} :
    (∀ other leaf, p.Leaf other leaf → asked other leaf) ↔ asked name p := by
  refine ⟨fun hall => hall name p (.self h), ?_⟩
  intro hself other leaf hleaf
  cases h <;> cases hleaf with
  | self habout =>
    cases habout
    exact hself

/-- Some leaf of a condition compares the cells of a column with a value. -/
inductive Compares : Predicate → String → Value → Prop
  | compare (name : String) (operator : RangeOperator) (v : Value) :
      Compares (.compare name operator v) name v
  | membership (name : String) {values : List Value} (negated : Bool) {v : Value} (h : v ∈ values) :
      Compares (.membership name values negated) name v
  | text (name : String) (mode : MatchMode) (wanted : String) :
      Compares (.text name mode wanted) name (.text wanted)
  | and {parts : List Predicate} {part : Predicate} {name : String} {v : Value} (h : part ∈ parts)
      (leaf : Compares part name v) : Compares (.and parts) name v
  | or {parts : List Predicate} {part : Predicate} {name : String} {v : Value} (h : part ∈ parts)
      (leaf : Compares part name v) : Compares (.or parts) name v

variable {table : Table} {p : Predicate} {parts : List Predicate} {name : String} {v : Value}

/-- A value of a leaf fits the column that the leaf names. -/
theorem WellTyped.fits (h : p.WellTyped table) (hleaf : p.Compares name v) :
    ∃ column, table.column? name = some column ∧ v.Fits column.type := by
  induction hleaf with
  | compare name operator v =>
    cases h with
    | compare declared fits range => exact ⟨_, declared, fits⟩
  | membership name negated hmem =>
    cases h with
    | membership declared fits nonempty => exact ⟨_, declared, fits _ hmem⟩
  | text name mode wanted =>
    cases h with
    | text declared text => exact ⟨_, declared, text ▸ .text wanted⟩
  | and hmem _ ih =>
    cases h with
    | and hparts => exact ih (hparts _ hmem)
  | or hmem _ ih =>
    cases h with
    | or hparts => exact ih (hparts _ hmem)

/-- A leaf of a well-typed condition is well typed. -/
theorem WellTyped.of_leaf {leaf : Predicate} (h : p.WellTyped table) (hleaf : p.Leaf name leaf) :
    leaf.WellTyped table := by
  induction hleaf with
  | and hpart _ ih =>
    cases h with
    | and hparts => exact ih (hparts _ hpart)
  | or hpart _ ih =>
    cases h with
    | or hparts => exact ih (hparts _ hpart)
  | _ => exact h

/-- The members that a well-typed condition contributes to a conjunction are well typed. -/
theorem WellTyped.of_mem_conjuncts (h : p.WellTyped table) {part : Predicate}
    (hpart : part ∈ p.conjuncts) : part.WellTyped table := by
  cases h with
  | always => contradiction
  | and hparts => exact hparts part hpart
  | _ =>
    rw [List.mem_singleton.1 hpart]
    constructor <;> assumption

/-- A flat conjunction of well-typed conditions is well typed. -/
theorem WellTyped.all (h : ∀ part ∈ parts, part.WellTyped table) : (all parts).WellTyped table := by
  have hmembers : ∀ part ∈ parts.flatMap conjuncts, part.WellTyped table := by
    intro part hpart
    obtain ⟨whole, hwhole, hmem⟩ := List.mem_flatMap.1 hpart
    exact (h whole hwhole).of_mem_conjuncts hmem
  unfold Predicate.all ofConjuncts
  split
  next => exact .always
  next only heq => exact hmembers only (heq ▸ List.mem_singleton_self only)
  next => exact .and hmembers

/-- A disjunction of well-typed conditions is well typed. -/
theorem WellTyped.any (h : ∀ part ∈ parts, part.WellTyped table) : (any parts).WellTyped table := by
  unfold Predicate.any
  split
  next only => exact h only (List.mem_singleton_self only)
  next => exact .or h

end Predicate

/-! ## Bounds -/

namespace Predicate

/-- A value is the bound of a comparison in a condition. -/
inductive Bounds : Predicate → Value → Prop
  | compare (name : String) (operator : RangeOperator) (v : Value) :
      Bounds (.compare name operator v) v
  | and {parts : List Predicate} {part : Predicate} {v : Value} (h : part ∈ parts)
      (leaf : Bounds part v) : Bounds (.and parts) v
  | or {parts : List Predicate} {part : Predicate} {v : Value} (h : part ∈ parts)
      (leaf : Bounds part v) : Bounds (.or parts) v

/-- A bound of a flat conjunction is one of a part. -/
theorem Bounds.of_all (h : (all parts).Bounds v) : ∃ part ∈ parts, part.Bounds v := by
  have hmember : ∃ member ∈ parts.flatMap conjuncts, member.Bounds v := by
    unfold all ofConjuncts at h
    split at h
    next => cases h
    next only heq => exact ⟨only, heq ▸ List.mem_singleton_self only, h⟩
    next =>
      cases h with
      | and hmem leaf => exact ⟨_, hmem, leaf⟩
  obtain ⟨member, hmember, hbound⟩ := hmember
  obtain ⟨part, hpart, hmem⟩ := List.mem_flatMap.1 hmember
  refine ⟨part, hpart, ?_⟩
  cases part with
  | always => contradiction
  | and members => exact .and hmem hbound
  | _ => exact List.mem_singleton.1 hmem ▸ hbound

/-- The bounds of a leaf are bounds of the condition. -/
theorem Bounds.of_leaf {p leaf : Predicate} {name : String} {v : Value} (hleaf : p.Leaf name leaf)
    (h : leaf.Bounds v) : p.Bounds v := by
  induction hleaf with
  | and hpart _ ih => exact .and hpart (ih h)
  | or hpart _ ih => exact .or hpart (ih h)
  | _ => exact h

/-- A disjunction of text matches has no bounds. -/
theorem not_bounds_any_text {mode : MatchMode} {texts : List String} :
    ¬ (any (texts.map (.text name mode))).Bounds v := by
  have hleaf (part : Predicate) (hpart : part ∈ texts.map (.text name mode)) : ¬ part.Bounds v := by
    obtain ⟨wanted, _, rfl⟩ := List.mem_map.1 hpart
    intro h
    cases h
  intro h
  unfold any at h
  split at h
  next only heq => exact hleaf only (heq ▸ List.mem_singleton_self only) h
  next =>
    cases h with
    | or hmem leaf => exact hleaf _ hmem leaf

end Predicate

/-- A bound in the condition of a request is one of the bounds of its ranges. -/
theorem Request.of_bounds_predicate {request : Request} (h : request.predicate.Bounds v) :
    ∃ filter ∈ request.filters, ∃ range ∈ filter.range, ∃ bound ∈ range.bounds, v = bound.value := by
  obtain ⟨part, hpart, h⟩ := h.of_all
  obtain ⟨filter, hfilter, rfl⟩ := List.mem_map.1 hpart
  obtain ⟨part, hpart, h⟩ := h.of_all
  refine ⟨filter, hfilter, ?_⟩
  rcases ColumnFilter.mem_parts.1 hpart with ⟨range, hrange, hmem⟩ | ⟨list, _, rfl⟩ |
    ⟨pattern, _, rfl⟩
  · obtain ⟨bound, hbound, rfl⟩ := List.mem_map.1 hmem
    cases h
    exact ⟨range, hrange, bound, hbound, rfl⟩
  · cases h
  · exact absurd h Predicate.not_bounds_any_text

/-! ## Questions -/

namespace Call

/-- The table that a question is about. -/
def table : Call → Table
  | .count table _ => table
  | .select table _ => table

/-- The condition of a question. -/
def predicate : Call → Predicate
  | .count _ predicate => predicate
  | .select _ query => query.predicate

/-- The keys that the answer to a question is sorted by. -/
def order : Call → List SortKey
  | .count _ _ => []
  | .select _ query => query.order

/-- A question about a registered table, with a well-typed condition and declared sort keys. -/
structure WellTyped (registry : Registry) (call : Call) : Prop where
  registered : registry.table? call.table.name = some call.table
  predicate : call.predicate.WellTyped call.table
  order : ∀ key ∈ call.order, ∃ column, call.table.column? key.column = some column

/-- Every comparison that a question can need is defined and between values of one type: of a cell
with a value of the condition, and of two cells of a sort key. -/
structure Comparable (call : Call) : Prop where
  leaves : ∀ name v, call.predicate.Compares name v → ∀ row, ∀ cell ∈ call.table.cell? row name,
    cell.type = v.type ∧ (cell.compare? v).isSome
  keys : ∀ key ∈ call.order, ∀ a b, ∀ v ∈ call.table.cell? a key.column,
    ∀ w ∈ call.table.cell? b key.column, v.type = w.type ∧ (v.compare? w).isSome

/-- All comparisons of a well-typed question are defined. -/
theorem WellTyped.comparable {registry : Registry} {call : Call} (h : call.WellTyped registry) :
    call.Comparable where
  leaves name v hleaf row cell hcell := by
    obtain ⟨column, hcolumn, hfits⟩ := h.predicate.fits hleaf
    have hcellfits := Table.fits_of_cell? hcolumn hcell
    exact ⟨hcellfits.type_eq.trans hfits.type_eq.symm, hcellfits.compare?_isSome hfits⟩
  keys key hkey a b v hv w hw := by
    obtain ⟨column, hcolumn⟩ := h.order key hkey
    have hfitsv := Table.fits_of_cell? hcolumn hv
    have hfitsw := Table.fits_of_cell? hcolumn hw
    exact ⟨hfitsv.type_eq.trans hfitsw.type_eq.symm, hfitsv.compare?_isSome hfitsw⟩

end Call

/-! ## Decoded requests -/

namespace Request

variable {table : Table} {params : Params} {column : Column} {filter : ColumnFilter}

/-- A text that is read for a column gives a value that the column can hold. -/
theorem fits_of_coerce {key raw : String} {v : Value} (h : coerce column key raw = .ok v) :
    v.Fits column.type := by
  unfold coerce at h
  split at h
  next value hread =>
    rw [Except.ok.injEq] at h
    exact h ▸ Value.fits_of_read? hread
  next => contradiction

/-- Facets that occur are only let through when they are supported. -/
theorem supported_of_refuse {supported : Bool} {facets : List Facet} {fault : String → DecodeFault}
    (h : refuse params column supported facets fault = .ok ()) {facet : Facet}
    (hfacet : facet ∈ facets)
    (hoccurs : params.contains (facet.key column.name) = true) : supported = true := by
  unfold refuse at h
  split at h
  next hsupported => exact hsupported
  next =>
    split at h
    next => contradiction
    next hfind =>
      have hnone := List.find?_eq_none.1 hfind _ (List.mem_map_of_mem hfacet)
      exact absurd hoccurs hnone

/-- A key with values occurs. -/
theorem contains_of_getAll_ne_nil {key : String} (h : params.getAll key ≠ []) :
    params.contains key = true := by
  cases hcontains : params.contains key with
  | true => rfl
  | false => exact absurd ((Params.contains_eq_false_iff params key).1 hcontains) h

/-- A bound that is decoded comes from a text under its key, read for the column. -/
theorem of_decodeBound {value operator : Facet} {default : RangeOperator} {bound : RangeBound}
    (h : decodeBound params column value operator default = .ok (some bound)) :
    bound.value.Fits column.type ∧ params.contains (value.key column.name) = true := by
  simp only [decodeBound, Failure.bind_eq_ok_iff] at h
  obtain ⟨_, _, raw, hraw, h⟩ := h
  cases raw with
  | none => simp at h
  | some raw =>
    simp only [Failure.bind_eq_ok_iff, Except.ok.injEq, Option.some.injEq] at h
    obtain ⟨v, hv, rfl⟩ := h
    refine ⟨fits_of_coerce hv, contains_of_getAll_ne_nil fun hnil => ?_⟩
    simp [Params.single, hnil] at hraw

/-- A range that is decoded stands on a column with ranges, and its bounds fit the column. -/
theorem of_decodeRange {range : RangeFilter} (h : decodeRange params column = .ok (some range))
    {bound : RangeBound} (hbound : bound ∈ range.bounds) :
    bound.value.Fits column.type ∧ column.type.supportsRange = true := by
  simp only [decodeRange, Failure.bind_eq_ok_iff, Except.ok.injEq, Option.ite_none_left_eq_some,
    Option.some.injEq] at h
  obtain ⟨_, hrefuse, lower, hlower, upper, hupper, _, rfl⟩ := h
  rcases List.mem_append.1 hbound with hmem | hmem
  · obtain rfl : lower = some bound := Option.mem_toList.1 hmem
    obtain ⟨hfits, hoccurs⟩ := of_decodeBound hlower
    exact ⟨hfits, supported_of_refuse hrefuse (by decide) hoccurs⟩
  · obtain rfl : upper = some bound := Option.mem_toList.1 hmem
    obtain ⟨hfits, hoccurs⟩ := of_decodeBound hupper
    exact ⟨hfits, supported_of_refuse hrefuse (by decide) hoccurs⟩

/-- A list that is decoded is not empty, and its values fit the column. -/
theorem of_decodeList {list : ListFilter} (h : decodeList params column = .ok (some list)) :
    (∀ v ∈ list.values, v.Fits column.type) ∧ list.values ≠ [] := by
  simp only [decodeList, Failure.bind_eq_ok_iff] at h
  obtain ⟨operator, _, h⟩ := h
  split at h
  · simp at h
  next raws hraws =>
    split at h
    · contradiction
    · simp only [Failure.bind_eq_ok_iff, Except.ok.injEq, Option.some.injEq] at h
      obtain ⟨values, hvalues, rfl⟩ := h
      obtain ⟨hmem, hlength⟩ := Failure.of_mapM_eq_ok hvalues
      refine ⟨fun v hv => ?_, fun hnil => hraws ?_⟩
      · obtain ⟨raw, _, hread⟩ := hmem v hv
        exact fits_of_coerce hread
      · change values = [] at hnil
        rw [hnil] at hlength
        exact List.length_eq_zero_iff.1 hlength.symm

/-- A pattern that is decoded stands on a column of texts. -/
theorem of_decodePattern {pattern : MatchFilter}
    (h : decodePattern params column = .ok (some pattern)) : column.type = .text := by
  simp only [decodePattern, Failure.bind_eq_ok_iff] at h
  obtain ⟨_, hrefuse, _, _, h⟩ := h
  split at h
  · simp at h
  next texts htexts =>
    have hoccurs := contains_of_getAll_ne_nil fun hnil => htexts hnil
    have hsupported := supported_of_refuse hrefuse (by decide) hoccurs
    cases htype : column.type with
    | text => rfl
    | _ => simp [htype, ColumnType.supportsMatch] at hsupported

/-- The condition of the constraints on a declared column is well typed. -/
theorem wellTyped_of_decodeColumn (hcolumn : table.column? column.name = some column)
    (h : decodeColumn params column = .ok (some filter)) : filter.predicate.WellTyped table := by
  simp only [decodeColumn, Failure.bind_eq_ok_iff, Except.ok.injEq, Option.ite_none_right_eq_some,
    Option.some.injEq] at h
  obtain ⟨range, hrange, list, hlist, pattern, hpattern, _, rfl⟩ := h
  refine .all fun part hpart => ?_
  rcases ColumnFilter.mem_parts.1 hpart with ⟨given, hgiven, hmem⟩ | ⟨given, hgiven, rfl⟩ |
    ⟨given, hgiven, rfl⟩
  · obtain ⟨bound, hbound, rfl⟩ := List.mem_map.1 hmem
    obtain rfl : range = some given := hgiven
    obtain ⟨hfits, hsupported⟩ := of_decodeRange hrange hbound
    exact .compare hcolumn hfits hsupported
  · obtain rfl : list = some given := hgiven
    obtain ⟨hfits, hne⟩ := of_decodeList hlist
    exact .membership hcolumn hfits fun _ => hne
  · obtain rfl : pattern = some given := hgiven
    refine .any fun part hpart => ?_
    obtain ⟨wanted, _, rfl⟩ := List.mem_map.1 hpart
    exact .text hcolumn (of_decodePattern hpattern)

/-- The condition of a decoded request is well typed on a table with distinct columns. -/
theorem wellTyped_of_decode {settings : Settings} {request : Request}
    (hnodup : (table.columns.map Column.name).Nodup)
    (h : decode params table settings = .ok request) : request.predicate.WellTyped table := by
  refine .all fun part hpart => ?_
  obtain ⟨filter, hfilter, rfl⟩ := List.mem_map.1 hpart
  obtain ⟨column, hcolumn, hdecoded⟩ := mem_of_decode h hfilter
  exact wellTyped_of_decodeColumn (Table.column?_of_mem hnodup hcolumn) hdecoded

end Request

end TableQuery
