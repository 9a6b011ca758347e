import TableQuery.Proofs.Request.Keys
import TableQuery.Proofs.Request.Texts
import TableQuery.Proofs.Schema.Soundness

/-!
# What a request may say

The parameters that a table admits, key by key, and what a request says that is decoded from them.
Decoding succeeds on exactly these parameters, although it checks them in an order of its own and
stops at the first fault.
-/

namespace TableQuery

/-- The facets that may have any number of values. -/
def Facet.isRepeatable : Facet → Bool
  | list | pattern => true
  | _ => false

/-- The facets whose values constrain their column. -/
def Facet.ofValues : List Facet := [lower, upper, list, pattern]

namespace Params

/-- Under a key stands the literal of what is chosen, or nothing when the default is. -/
def Chooses {α : Type} (params : Params) (key : String) (literal : α → String) (default chosen : α) :
    Prop :=
  params.getAll key = [literal chosen] ∨ params.getAll key = [] ∧ chosen = default

/-- What parameters may say of a column. A column without ranges, or without patterns, has none of
their keys. Only lists and patterns have several values, and a list has one at most when it is
compared for equality. Operators and modes are literals, also where there is no value for them, and
the values of bounds and lists are values of the column. -/
structure AdmitsColumn (params : Params) (column : Column) : Prop where
  range : column.type.supportsRange = false →
    ∀ facet ∈ Facet.ofRange, params.contains (facet.key column.name) = false
  pattern : column.type.supportsMatch = false →
    ∀ facet ∈ Facet.ofPattern, params.contains (facet.key column.name) = false
  once : ∀ facet : Facet, facet.isRepeatable = false →
    (params.getAll (facet.key column.name)).length ≤ 1
  rangeOperator : ∀ facet ∈ [Facet.lowerOperator, .upperOperator],
    ∀ text ∈ params.getAll (facet.key column.name), ∃ op : RangeOperator, op.literal = text
  listOperator : ∀ text ∈ params.getAll (Facet.listOperator.key column.name),
    ∃ op : ListOperator, op.literal = text
  patternMode : ∀ text ∈ params.getAll (Facet.patternMode.key column.name),
    ∃ mode : MatchMode, mode.literal = text
  readable : ∀ facet ∈ [Facet.lower, .upper, .list],
    ∀ raw ∈ params.getAll (facet.key column.name), ∃ v, Value.read? column.type raw = some v
  scalar : ∀ op ∈ [ListOperator.equal, .notEqual],
    op.literal ∈ params.getAll (Facet.listOperator.key column.name) →
      (params.getAll (Facet.list.key column.name)).length ≤ 1

/-- The parameters of a request for a table: admitted for each of its columns, at most one limit and
one offset, which are numbers of 64 bits, the limit not above the configured maximum, and an order of
entries that stand for keys of pairwise distinct columns. -/
structure Admits (params : Params) (table : Table) (settings : Settings) : Prop where
  columns : ∀ column ∈ table.columns, params.AdmitsColumn column
  once : ∀ key ∈ [Request.limitKey, Request.offsetKey], (params.getAll key).length ≤ 1
  limit : ∀ raw ∈ params.getAll Request.limitKey,
    ∃ n, Decimal.Denotes raw n ∧ ∀ maximum ∈ settings.maxLimit, n ≤ maximum
  offset : ∀ raw ∈ params.getAll Request.offsetKey, ∃ n, Decimal.Denotes raw n
  order : ∃ keys, List.Forall₂ SortKey.Reads (params.getSplit Request.orderKey) keys ∧
    (keys.map SortKey.column).Nodup

end Params

/-! ## What is decoded -/

/-- One end of a range is open without a value, and otherwise has the value and its operator. -/
inductive RangeBound.Reads (params : Params) (column : Column) (value operator : Facet)
    (default : RangeOperator) : Option RangeBound → Prop
  | absent (hvalue : params.getAll (value.key column.name) = []) :
      Reads params column value operator default none
  | given {raw : String} {bound : RangeBound}
      (hvalue : params.getAll (value.key column.name) = [raw])
      (hread : Value.read? column.type raw = some bound.value)
      (hoperator : params.Chooses (operator.key column.name) RangeOperator.literal default
        bound.operator) :
      Reads params column value operator default (some bound)

/-- There is a list when it has a value, and it holds all values in order under its operator. -/
inductive ListFilter.Reads (params : Params) (column : Column) : Option ListFilter → Prop
  | absent (hvalues : params.getAll (Facet.list.key column.name) = []) : Reads params column none
  | given {list : ListFilter} (hvalues : params.getAll (Facet.list.key column.name) ≠ [])
      (hread : List.Forall₂ (fun raw v => Value.read? column.type raw = some v)
        (params.getAll (Facet.list.key column.name)) list.values)
      (hoperator : params.Chooses (Facet.listOperator.key column.name) ListOperator.literal .isIn
        list.operator) :
      Reads params column (some list)

/-- There is a pattern when it has a text, and it holds all texts as they stand under its mode. -/
inductive MatchFilter.Reads (params : Params) (column : Column) : Option MatchFilter → Prop
  | absent (htexts : params.getAll (Facet.pattern.key column.name) = []) : Reads params column none
  | given {pattern : MatchFilter} (htexts : params.getAll (Facet.pattern.key column.name) ≠ [])
      (hread : pattern.texts = params.getAll (Facet.pattern.key column.name))
      (hmode : params.Chooses (Facet.patternMode.key column.name) MatchMode.literal .exact
        pattern.mode) :
      Reads params column (some pattern)

/-- A filter of a column holds what the parameters say of the column. -/
structure ColumnFilter.Reads (params : Params) (column : Column) (filter : ColumnFilter) : Prop where
  column_eq : filter.column = column.name
  lower : RangeBound.Reads params column .lower .lowerOperator .greaterOrEqual
    (filter.range.bind RangeFilter.lower)
  upper : RangeBound.Reads params column .upper .upperOperator .lessOrEqual
    (filter.range.bind RangeFilter.upper)
  closed : ∀ range ∈ filter.range, range.isOpen = false
  list : ListFilter.Reads params column filter.list
  pattern : MatchFilter.Reads params column filter.pattern

/-- A request holds what the parameters say: the filters of the columns for which there are values,
one for each and in the order of the columns, the limit or else the least one that is configured, the
offset or else 0, the keys of the order, and each relationship once. -/
structure Request.Reads (params : Params) (table : Table) (settings : Settings) (request : Request) :
    Prop where
  filters : request.filters = table.columns.filterMap fun column => request.filter? column.name
  filter : ∀ column ∈ table.columns, ∀ filter ∈ request.filter? column.name,
    filter.Reads params column
  unfiltered : ∀ column ∈ table.columns, request.filter? column.name = none ↔
    ∀ facet ∈ Facet.ofValues, params.contains (facet.key column.name) = false
  limit : (∃ raw n, params.getAll limitKey = [raw] ∧ Decimal.Denotes raw n ∧
      request.window.limit = some n) ∨
    params.getAll limitKey = [] ∧
      request.window.limit = (settings.defaultLimit.toList ++ settings.maxLimit.toList).min?
  offset : (∃ raw, params.getAll offsetKey = [raw] ∧ Decimal.Denotes raw request.window.offset) ∨
    params.getAll offsetKey = [] ∧ request.window.offset = 0
  order : List.Forall₂ SortKey.Reads (params.getSplit orderKey) request.order
  relationships : request.relationships = (params.getSplit relationshipKey).eraseDups

/-! ## Literals and values -/

namespace Request

variable {params : Params} {column : Column} {key : String}

section Literals

variable {α : Type} {literal : α → String} {read : String → Option α} {fault : String → DecodeFault}
  {default chosen : α}

/-- A literal is decoded as what it chooses. -/
theorem decodeLiteral_eq_ok_iff (hread : ∀ {text a}, read text = some a ↔ literal a = text) :
    decodeLiteral params key read fault default = .ok chosen ↔
      params.Chooses key literal default chosen := by
  simp only [decodeLiteral, Failure.bind_eq_ok_iff, Params.single_eq_ok_iff, Params.Chooses]
  constructor
  · intro h
    obtain ⟨_ | text, hvalues, h⟩ := h
    · exact Or.inr ⟨hvalues, (Except.ok.inj h).symm⟩
    · refine Or.inl (hvalues.trans ?_)
      cases hfound : read text with
      | none => simp [hfound] at h
      | some a =>
        simp only [hfound, Except.ok.injEq] at h
        rw [← h, hread.1 hfound]
        rfl
  · intro h
    rcases h with hvalues | ⟨hvalues, rfl⟩
    · exact ⟨some (literal chosen), hvalues, by simp only [hread.2 rfl]⟩
    · exact ⟨none, hvalues, rfl⟩

/-- Nothing but what is chosen has its literal under the key. -/
theorem eq_of_chooses (hread : ∀ {text a}, read text = some a ↔ literal a = text)
    (hchosen : params.Chooses key literal default chosen) {other : α}
    (hmem : literal other ∈ params.getAll key) : other = chosen := by
  rcases hchosen with hvalues | ⟨hvalues, _⟩
  · rw [hvalues, List.mem_singleton] at hmem
    exact Option.some.inj ((hread.2 hmem).symm.trans (hread.2 rfl))
  · rw [hvalues] at hmem
    contradiction

/-- Something is chosen under a key with at most one value, which is a literal. -/
theorem exists_chooses_iff : (∃ chosen, params.Chooses key literal default chosen) ↔
    (params.getAll key).length ≤ 1 ∧ ∀ text ∈ params.getAll key, ∃ a, literal a = text := by
  simp only [Params.Chooses]
  match params.getAll key with
  | [] => simp
  | [text] => simp [eq_comm]
  | first :: second :: rest => simp

end Literals

/-- A text is read for a column as the value that it denotes. -/
theorem coerce_eq_ok_iff {raw : String} {v : Value} :
    coerce column key raw = .ok v ↔ Value.read? column.type raw = some v := by
  unfold coerce
  cases Value.read? column.type raw <;> simp

/-- Texts are read for a column one by one. -/
theorem mapM_coerce_eq_ok_iff {raws : List String} {values : List Value} :
    raws.mapM (coerce column key) = .ok values ↔
      List.Forall₂ (fun raw v => Value.read? column.type raw = some v) raws values := by
  induction raws generalizing values with
  | nil => simp [pure, Except.pure, eq_comm]
  | cons raw rest ih =>
    simp only [List.mapM_cons, Failure.bind_eq_ok_iff, ih, coerce_eq_ok_iff]
    constructor
    · intro h
      obtain ⟨v, hv, more, hmore, h⟩ := h
      cases h
      exact .cons hv hmore
    · intro h
      cases h with
      | cons hv hmore => exact ⟨_, hv, _, hmore, rfl⟩

/-- There are related things for all items in order when there is one for each item. -/
theorem exists_forall₂_iff {α β : Type} {R : α → β → Prop} {items : List α} :
    (∃ results, List.Forall₂ R items results) ↔ ∀ a ∈ items, ∃ b, R a b := by
  induction items with
  | nil => simp
  | cons a rest ih =>
    rw [List.forall_mem_cons, ← ih]
    constructor
    · intro h
      obtain ⟨_, h⟩ := h
      cases h with
      | cons ha hrest => exact ⟨⟨_, ha⟩, _, hrest⟩
    · intro h
      obtain ⟨⟨b, ha⟩, results, hrest⟩ := h
      exact ⟨b :: results, .cons ha hrest⟩

/-- Facets are let through when they are supported or do not occur. -/
theorem refuse_eq_ok_iff {supported : Bool} {facets : List Facet} {fault : String → DecodeFault} :
    refuse params column supported facets fault = .ok () ↔
      (supported = false → ∀ facet ∈ facets, params.contains (facet.key column.name) = false) := by
  unfold refuse
  cases supported with
  | true => simp
  | false =>
    cases hfind : (facets.map fun facet => facet.key column.name).find? params.contains with
    | none =>
      rw [List.find?_eq_none, List.forall_mem_map] at hfind
      simpa using hfind
    | some key =>
      obtain ⟨facet, hfacet, rfl⟩ := List.mem_map.1 (List.mem_of_find?_eq_some hfind)
      have hoccurs := List.find?_some hfind
      simp only [Bool.false_eq_true, if_false, reduceCtorEq, true_implies, false_iff]
      exact fun h => absurd (h facet hfacet) (by simp [hoccurs])

/-! ## Bounds, lists and patterns -/

section Bounds

variable {value operator : Facet} {default : RangeOperator} {bound : Option RangeBound}

/-- One end of a range is decoded as the parameters say. -/
theorem reads_of_decodeBound (h : decodeBound params column value operator default = .ok bound) :
    RangeBound.Reads params column value operator default bound := by
  simp only [decodeBound, Failure.bind_eq_ok_iff, Params.single_eq_ok_iff,
    decodeLiteral_eq_ok_iff RangeOperator.ofLiteral?_eq_some_iff] at h
  obtain ⟨op, hop, _ | raw, hvalue, h⟩ := h
  · cases h
    exact .absent hvalue
  · obtain ⟨v, hv, h⟩ := Failure.bind_eq_ok_iff.1 h
    cases h
    exact .given hvalue (coerce_eq_ok_iff.1 hv) hop

/-- One end of a range is decoded from at most one literal and at most one value of the column. -/
theorem exists_decodeBound_iff :
    (∃ bound, decodeBound params column value operator default = .ok bound) ↔
      ((params.getAll (operator.key column.name)).length ≤ 1 ∧
        ∀ text ∈ params.getAll (operator.key column.name), ∃ op : RangeOperator, op.literal = text) ∧
      (params.getAll (value.key column.name)).length ≤ 1 ∧
        ∀ raw ∈ params.getAll (value.key column.name), ∃ v, Value.read? column.type raw = some v := by
  simp only [decodeBound, Failure.bind_eq_ok_iff, Params.single_eq_ok_iff,
    decodeLiteral_eq_ok_iff RangeOperator.ofLiteral?_eq_some_iff]
  constructor
  · intro h
    obtain ⟨_, op, hop, given, hvalue, h⟩ := h
    refine ⟨exists_chooses_iff.1 ⟨op, hop⟩, Params.exists_toList_iff.1 ⟨given, hvalue, ?_⟩⟩
    intro raw hraw
    rw [Option.mem_def.1 hraw] at h
    obtain ⟨v, hv, _⟩ := Failure.bind_eq_ok_iff.1 h
    exact ⟨v, coerce_eq_ok_iff.1 hv⟩
  · intro h
    obtain ⟨hoperator, hvalues⟩ := h
    obtain ⟨op, hop⟩ := exists_chooses_iff.2 hoperator
    obtain ⟨given, hvalue, hread⟩ := Params.exists_toList_iff.2 hvalues
    cases given with
    | none => exact ⟨none, op, hop, none, hvalue, rfl⟩
    | some raw =>
      obtain ⟨v, hv⟩ := hread raw rfl
      exact ⟨some ⟨op, v⟩, op, hop, some raw, hvalue,
        Failure.bind_eq_ok_iff.2 ⟨v, coerce_eq_ok_iff.2 hv, rfl⟩⟩

end Bounds

/-- A list is decoded as the parameters say. -/
theorem reads_of_decodeList {list : Option ListFilter} (h : decodeList params column = .ok list) :
    ListFilter.Reads params column list := by
  simp only [decodeList, Failure.bind_eq_ok_iff,
    decodeLiteral_eq_ok_iff ListOperator.ofLiteral?_eq_some_iff] at h
  obtain ⟨op, hop, h⟩ := h
  split at h
  next hvalues =>
    cases h
    exact .absent hvalues
  next hvalues =>
    split at h
    next => contradiction
    next =>
      obtain ⟨values, hread, h⟩ := Failure.bind_eq_ok_iff.1 h
      cases h
      exact .given hvalues (mapM_coerce_eq_ok_iff.1 hread) hop

/-- An operator takes one value exactly when it compares for equality. -/
theorem isScalar_iff {op : ListOperator} :
    op.isScalar = true ↔ op ∈ [ListOperator.equal, .notEqual] := by
  cases op <;> simp [ListOperator.isScalar]

/-- A list is decoded from at most one literal and from values of the column, one at most if the
literal compares for equality. -/
theorem exists_decodeList_iff :
    (∃ list, decodeList params column = .ok list) ↔
      ((params.getAll (Facet.listOperator.key column.name)).length ≤ 1 ∧
        ∀ text ∈ params.getAll (Facet.listOperator.key column.name),
          ∃ op : ListOperator, op.literal = text) ∧
      (∀ raw ∈ params.getAll (Facet.list.key column.name),
        ∃ v, Value.read? column.type raw = some v) ∧
      ∀ op ∈ [ListOperator.equal, .notEqual],
        op.literal ∈ params.getAll (Facet.listOperator.key column.name) →
          (params.getAll (Facet.list.key column.name)).length ≤ 1 := by
  simp only [decodeList, Failure.bind_eq_ok_iff,
    decodeLiteral_eq_ok_iff ListOperator.ofLiteral?_eq_some_iff, ← isScalar_iff]
  constructor
  · intro h
    obtain ⟨_, op, hop, h⟩ := h
    refine ⟨exists_chooses_iff.1 ⟨op, hop⟩, ?_⟩
    split at h
    next hvalues => simp [hvalues]
    next =>
      split at h
      next => contradiction
      next hscalar =>
        obtain ⟨values, hread, _⟩ := Failure.bind_eq_ok_iff.1 h
        refine ⟨fun raw hraw => ?_, fun other hother hliteral => ?_⟩
        · exact exists_forall₂_iff.1 ⟨values, mapM_coerce_eq_ok_iff.1 hread⟩ raw hraw
        · obtain rfl := eq_of_chooses ListOperator.ofLiteral?_eq_some_iff hop hliteral
          exact Nat.le_of_not_lt fun hlt => hscalar ⟨hother, hlt⟩
  · intro h
    obtain ⟨hoperator, hread, hscalar⟩ := h
    obtain ⟨op, hop⟩ := exists_chooses_iff.2 hoperator
    cases hvalues : params.getAll (Facet.list.key column.name) with
    | nil => exact ⟨none, op, hop, rfl⟩
    | cons raw rest =>
      obtain ⟨values, hvalid⟩ := exists_forall₂_iff.2 hread
      -- The default operator takes several values, so one that does not stands under its key.
      have hfits : ¬ (op.isScalar = true ∧ 1 < (raw :: rest).length) := by
        intro h
        obtain ⟨hop', hlt⟩ := h
        rcases hop with hop | ⟨_, rfl⟩
        · have hlength := hscalar op hop' (hop ▸ List.mem_singleton_self _)
          rw [hvalues] at hlength
          exact Nat.not_le_of_lt hlt hlength
        · contradiction
      refine ⟨some ⟨op, values⟩, op, hop, ?_⟩
      simp only [if_neg hfits]
      exact Failure.bind_eq_ok_iff.2 ⟨values, mapM_coerce_eq_ok_iff.2 (hvalues ▸ hvalid), rfl⟩

/-- A pattern is decoded as the parameters say. -/
theorem reads_of_decodePattern {pattern : Option MatchFilter}
    (h : decodePattern params column = .ok pattern) : MatchFilter.Reads params column pattern := by
  simp only [decodePattern, Failure.bind_eq_ok_iff,
    decodeLiteral_eq_ok_iff MatchMode.ofLiteral?_eq_some_iff] at h
  obtain ⟨_, _, mode, hmode, h⟩ := h
  split at h
  next htexts =>
    cases h
    exact .absent htexts
  next htexts =>
    cases h
    exact .given htexts rfl hmode

/-- A pattern is decoded from at most one literal and any texts, if there may be a pattern. -/
theorem exists_decodePattern_iff :
    (∃ pattern, decodePattern params column = .ok pattern) ↔
      (column.type.supportsMatch = false →
        ∀ facet ∈ Facet.ofPattern, params.contains (facet.key column.name) = false) ∧
      (params.getAll (Facet.patternMode.key column.name)).length ≤ 1 ∧
        ∀ text ∈ params.getAll (Facet.patternMode.key column.name),
          ∃ mode : MatchMode, mode.literal = text := by
  simp only [decodePattern, Failure.bind_eq_ok_iff,
    decodeLiteral_eq_ok_iff MatchMode.ofLiteral?_eq_some_iff]
  constructor
  · intro h
    obtain ⟨_, _, hrefuse, mode, hmode, _⟩ := h
    exact ⟨refuse_eq_ok_iff.1 hrefuse, exists_chooses_iff.1 ⟨mode, hmode⟩⟩
  · intro h
    obtain ⟨hrefuse, hliteral⟩ := h
    obtain ⟨mode, hmode⟩ := exists_chooses_iff.2 hliteral
    cases htexts : params.getAll (Facet.pattern.key column.name) with
    | nil => exact ⟨none, (), refuse_eq_ok_iff.2 hrefuse, mode, hmode, rfl⟩
    | cons text rest =>
      exact ⟨some ⟨mode, text :: rest⟩, (), refuse_eq_ok_iff.2 hrefuse, mode, hmode, rfl⟩

/-- A range is decoded when both ends are, if there may be a range. -/
theorem exists_decodeRange_iff :
    (∃ range, decodeRange params column = .ok range) ↔
      (column.type.supportsRange = false →
        ∀ facet ∈ Facet.ofRange, params.contains (facet.key column.name) = false) ∧
      (∃ lower, decodeBound params column .lower .lowerOperator .greaterOrEqual = .ok lower) ∧
      ∃ upper, decodeBound params column .upper .upperOperator .lessOrEqual = .ok upper := by
  simp only [decodeRange, Failure.bind_eq_ok_iff, Except.ok.injEq]
  constructor
  · intro h
    obtain ⟨_, _, hrefuse, lower, hlower, upper, hupper, _⟩ := h
    exact ⟨refuse_eq_ok_iff.1 hrefuse, ⟨lower, hlower⟩, upper, hupper⟩
  · intro h
    obtain ⟨hrefuse, ⟨lower, hlower⟩, upper, hupper⟩ := h
    exact ⟨_, (), refuse_eq_ok_iff.2 hrefuse, lower, hlower, upper, hupper, rfl⟩

/-! ## Columns -/

/-- A column is decoded exactly when the parameters are admitted for it. -/
theorem exists_decodeColumn_iff :
    (∃ filter, decodeColumn params column = .ok filter) ↔ params.AdmitsColumn column := by
  have hparts : (∃ filter, decodeColumn params column = .ok filter) ↔
      (∃ range, decodeRange params column = .ok range) ∧
        (∃ list, decodeList params column = .ok list) ∧
          ∃ pattern, decodePattern params column = .ok pattern := by
    simp only [decodeColumn, Failure.bind_eq_ok_iff, Except.ok.injEq]
    constructor
    · intro h
      obtain ⟨_, range, hrange, list, hlist, pattern, hpattern, _⟩ := h
      exact ⟨⟨range, hrange⟩, ⟨list, hlist⟩, pattern, hpattern⟩
    · intro h
      obtain ⟨⟨range, hrange⟩, ⟨list, hlist⟩, pattern, hpattern⟩ := h
      exact ⟨_, range, hrange, list, hlist, pattern, hpattern, rfl⟩
  rw [hparts, exists_decodeRange_iff, exists_decodeList_iff, exists_decodePattern_iff,
    exists_decodeBound_iff, exists_decodeBound_iff]
  constructor
  · intro h
    obtain ⟨⟨hrange, ⟨⟨hlowerOnce, hlowerOperator⟩, hlowerValue, hlower⟩,
      ⟨hupperOnce, hupperOperator⟩, hupperValue, hupper⟩,
      ⟨⟨hlistOnce, hlistOperator⟩, hlist, hscalar⟩, hpattern, hmodeOnce, hmode⟩ := h
    exact {
      range := hrange
      pattern := hpattern
      once := fun facet hfacet => by cases facet <;> first | assumption | contradiction
      rangeOperator := by simpa using ⟨hlowerOperator, hupperOperator⟩
      listOperator := hlistOperator
      patternMode := hmode
      readable := by simpa using ⟨hlower, hupper, hlist⟩
      scalar := hscalar }
  · intro h
    have hoperator (facet : Facet) (hmem : facet ∈ [Facet.lowerOperator, .upperOperator])
        (hfacet : facet.isRepeatable = false) := And.intro (h.once facet hfacet)
      (h.rangeOperator facet hmem)
    have hvalue (facet : Facet) (hmem : facet ∈ [Facet.lower, .upper, .list])
        (hfacet : facet.isRepeatable = false) := And.intro (h.once facet hfacet)
      (h.readable facet hmem)
    exact ⟨⟨h.range, ⟨hoperator _ (by simp) rfl, hvalue _ (by simp) rfl⟩,
        hoperator _ (by simp) rfl, hvalue _ (by simp) rfl⟩,
      ⟨⟨h.once _ rfl, h.listOperator⟩, h.readable _ (by simp), h.scalar⟩,
      h.pattern, h.once _ rfl, h.patternMode⟩

/-- A range is decoded as the parameters say of its ends, and is left out when both are open. -/
theorem reads_of_decodeRange {range : Option RangeFilter} (h : decodeRange params column = .ok range) :
    RangeBound.Reads params column .lower .lowerOperator .greaterOrEqual
        (range.bind RangeFilter.lower) ∧
      RangeBound.Reads params column .upper .upperOperator .lessOrEqual
        (range.bind RangeFilter.upper) ∧
      ∀ given ∈ range, given.isOpen = false := by
  simp only [decodeRange, Failure.bind_eq_ok_iff, Except.ok.injEq] at h
  obtain ⟨_, _, lower, hlower, upper, hupper, rfl⟩ := h
  have hlower := reads_of_decodeBound hlower
  have hupper := reads_of_decodeBound hupper
  by_cases hopen : (⟨lower, upper⟩ : RangeFilter).isOpen = true
  · simp only [RangeFilter.isOpen, Bool.and_eq_true, Option.isNone_iff_eq_none] at hopen
    obtain ⟨rfl, rfl⟩ := hopen
    exact ⟨hlower, hupper, by simp [RangeFilter.isOpen]⟩
  · rw [if_neg hopen]
    exact ⟨hlower, hupper, by simpa using hopen⟩

/-- What is decoded for a column is a filter that holds what the parameters say, if it is active. -/
theorem exists_reads_of_decodeColumn {found : Option ColumnFilter}
    (h : decodeColumn params column = .ok found) :
    ∃ filter : ColumnFilter, filter.Reads params column ∧
      found = if filter.isActive then some filter else none := by
  simp only [decodeColumn, Failure.bind_eq_ok_iff, Except.ok.injEq] at h
  obtain ⟨range, hrange, list, hlist, pattern, hpattern, rfl⟩ := h
  obtain ⟨hlower, hupper, hclosed⟩ := reads_of_decodeRange hrange
  exact ⟨⟨column.name, range, list, pattern⟩, ⟨rfl, hlower, hupper, hclosed,
    reads_of_decodeList hlist, reads_of_decodePattern hpattern⟩, rfl⟩

end Request

section Active

variable {params : Params} {column : Column} {filter : ColumnFilter}

/-- An end of a range is open exactly when its key does not occur. -/
theorem RangeBound.Reads.eq_none_iff {value operator : Facet} {default : RangeOperator}
    {bound : Option RangeBound} (h : Reads params column value operator default bound) :
    bound = none ↔ params.contains (value.key column.name) = false := by
  rw [Params.contains_eq_false_iff]
  cases h with
  | absent hvalue => simp [hvalue]
  | given hvalue => simp [hvalue]

/-- There is no list exactly when its key does not occur. -/
theorem ListFilter.Reads.eq_none_iff {list : Option ListFilter} (h : Reads params column list) :
    list = none ↔ params.contains (Facet.list.key column.name) = false := by
  rw [Params.contains_eq_false_iff]
  cases h with
  | absent hvalues => simp [hvalues]
  | given hvalues => simp [hvalues]

/-- There is no pattern exactly when its key does not occur. -/
theorem MatchFilter.Reads.eq_none_iff {pattern : Option MatchFilter}
    (h : Reads params column pattern) :
    pattern = none ↔ params.contains (Facet.pattern.key column.name) = false := by
  rw [Params.contains_eq_false_iff]
  cases h with
  | absent htexts => simp [htexts]
  | given htexts => simp [htexts]

/-- A filter is active exactly when there is a value for its column. -/
theorem ColumnFilter.Reads.isActive_eq_false_iff (h : filter.Reads params column) :
    filter.isActive = false ↔
      ∀ facet ∈ Facet.ofValues, params.contains (facet.key column.name) = false := by
  have hrange : filter.range.any (!·.isOpen) = false ↔
      filter.range.bind RangeFilter.lower = none ∧ filter.range.bind RangeFilter.upper = none := by
    cases filter.range <;> simp [RangeFilter.isOpen]
  simp only [ColumnFilter.isActive, Bool.or_eq_false_iff, hrange, Option.isSome_eq_false_iff,
    Option.isNone_iff_eq_none, h.lower.eq_none_iff, h.upper.eq_none_iff, h.list.eq_none_iff,
    h.pattern.eq_none_iff, Facet.ofValues, List.forall_mem_cons, List.not_mem_nil,
    IsEmpty.forall_iff, implies_true, and_true, and_assoc]

end Active

/-! ## Windows -/

namespace Window

variable {settings : Settings}

/-- The limit of a listing that asks for none is the least one that is configured. -/
theorem fallbackLimit_eq (settings : Settings) : fallbackLimit settings =
    (settings.defaultLimit.toList ++ settings.maxLimit.toList).min? := by
  unfold fallbackLimit
  cases settings.defaultLimit <;> cases settings.maxLimit <;> rfl

/-- A limit is read as the number that it denotes, if that is not above the maximum. -/
theorem readLimit_eq_ok_iff {given : Option String} {limit : Option Nat} :
    readLimit settings given = .ok limit ↔
      (∃ raw n, given = some raw ∧ Decimal.Denotes raw n ∧
        (∀ maximum ∈ settings.maxLimit, n ≤ maximum) ∧ limit = some n) ∨
      given = none ∧ limit = (settings.defaultLimit.toList ++ settings.maxLimit.toList).min? := by
  cases given with
  | none => simp [readLimit, fallbackLimit_eq, eq_comm]
  | some raw =>
    simp only [readLimit, Failure.bind_eq_ok_iff, readNatural_eq_ok_iff, Option.some.injEq,
      reduceCtorEq, false_and, or_false, exists_and_left, exists_eq_left']
    refine exists_congr fun n => and_congr_right fun _ => ?_
    cases settings.maxLimit with
    | none => simp [eq_comm]
    | some maximum =>
      by_cases hlt : maximum < n
      · simp [hlt, Nat.not_le_of_lt hlt]
      · simp [hlt, Nat.le_of_not_lt hlt, eq_comm]

/-- An offset is read as the number that it denotes, and is 0 unless given. -/
theorem readOffset_eq_ok_iff {given : Option String} {offset : Nat} :
    readOffset given = .ok offset ↔
      (∃ raw, given = some raw ∧ Decimal.Denotes raw offset) ∨ given = none ∧ offset = 0 := by
  cases given with
  | none => simp [readOffset, eq_comm]
  | some raw => simp [readOffset, readNatural_eq_ok_iff]

/-- A limit is read from a number that is not above the maximum, or from nothing. -/
theorem exists_readLimit_iff {given : Option String} :
    (∃ limit, readLimit settings given = .ok limit) ↔
      ∀ raw ∈ given, ∃ n, Decimal.Denotes raw n ∧ ∀ maximum ∈ settings.maxLimit, n ≤ maximum := by
  simp only [readLimit_eq_ok_iff]
  cases given with
  | none => simp
  | some raw => simp

/-- An offset is read from a number, or from nothing. -/
theorem exists_readOffset_iff {given : Option String} :
    (∃ offset, readOffset given = .ok offset) ↔ ∀ raw ∈ given, ∃ n, Decimal.Denotes raw n := by
  simp only [readOffset_eq_ok_iff]
  cases given with
  | none => simp
  | some raw => simp

end Window

/-! ## Requests -/

namespace Request

variable {params : Params} {table : Table} {settings : Settings} {request : Request}

/-- A window is decoded from a limit and an offset that each occur at most once. -/
theorem decodeWindow_eq_ok_iff {window : Window} : decodeWindow params settings = .ok window ↔
    (∃ given : Option String, params.getAll limitKey = given.toList ∧
      Window.readLimit settings given = .ok window.limit) ∧
    ∃ given : Option String, params.getAll offsetKey = given.toList ∧
      Window.readOffset given = .ok window.offset := by
  simp only [decodeWindow, Window.read, Failure.bind_eq_ok_iff, Params.single_eq_ok_iff,
    Except.ok.injEq]
  constructor
  · intro h
    obtain ⟨limit, hlimit, offset, hoffset, _, hreadLimit, _, hreadOffset, rfl⟩ := h
    exact ⟨⟨limit, hlimit, hreadLimit⟩, offset, hoffset, hreadOffset⟩
  · intro h
    obtain ⟨⟨limit, hlimit, hreadLimit⟩, offset, hoffset, hreadOffset⟩ := h
    exact ⟨limit, hlimit, offset, hoffset, window.limit, hreadLimit, window.offset, hreadOffset, rfl⟩

/-- A window is decoded exactly when the limit and the offset occur at most once and denote numbers,
the limit one that is not above the maximum. -/
theorem exists_decodeWindow_iff : (∃ window, decodeWindow params settings = .ok window) ↔
    (∀ key ∈ [limitKey, offsetKey], (params.getAll key).length ≤ 1) ∧
    (∀ raw ∈ params.getAll limitKey,
      ∃ n, Decimal.Denotes raw n ∧ ∀ maximum ∈ settings.maxLimit, n ≤ maximum) ∧
    ∀ raw ∈ params.getAll offsetKey, ∃ n, Decimal.Denotes raw n := by
  simp only [decodeWindow_eq_ok_iff, List.forall_mem_cons, List.not_mem_nil, IsEmpty.forall_iff,
    implies_true, and_true]
  constructor
  · intro h
    obtain ⟨window, ⟨limit, hlimit, hreadLimit⟩, offset, hoffset, hreadOffset⟩ := h
    obtain ⟨honceLimit, hlimits⟩ :=
      Params.exists_toList_iff.1 ⟨limit, hlimit, Window.exists_readLimit_iff.1 ⟨_, hreadLimit⟩⟩
    obtain ⟨honceOffset, hoffsets⟩ :=
      Params.exists_toList_iff.1 ⟨offset, hoffset, Window.exists_readOffset_iff.1 ⟨_, hreadOffset⟩⟩
    exact ⟨⟨honceLimit, honceOffset⟩, hlimits, hoffsets⟩
  · intro h
    obtain ⟨⟨honceLimit, honceOffset⟩, hlimits, hoffsets⟩ := h
    obtain ⟨given, hlimit, hgiven⟩ := Params.exists_toList_iff.2 ⟨honceLimit, hlimits⟩
    obtain ⟨other, hoffset, hother⟩ := Params.exists_toList_iff.2 ⟨honceOffset, hoffsets⟩
    obtain ⟨limit, hreadLimit⟩ := Window.exists_readLimit_iff.2 hgiven
    obtain ⟨offset, hreadOffset⟩ := Window.exists_readOffset_iff.2 hother
    exact ⟨⟨limit, offset⟩, ⟨given, hlimit, hreadLimit⟩, other, hoffset, hreadOffset⟩

/-- Parameters are decoded exactly when they are admitted for the table. -/
theorem exists_decode_iff (hnodup : (table.columns.map Column.name).Nodup) :
    (∃ request, decode params table settings = .ok request) ↔ params.Admits table settings := by
  constructor
  · intro h
    obtain ⟨request, hdecode⟩ := h
    obtain ⟨hcolumns, _, hwindow, horder, _⟩ := (decode_eq_ok_iff hnodup).1 hdecode
    obtain ⟨honce, hlimit, hoffset⟩ := exists_decodeWindow_iff.1 ⟨_, hwindow⟩
    exact {
      columns := fun column hcolumn => exists_decodeColumn_iff.1 ⟨_, hcolumns column hcolumn⟩
      once := honce
      limit := hlimit
      offset := hoffset
      order := ⟨request.order, SortKey.readAll_eq_ok_iff.1 horder⟩ }
  · intro h
    obtain ⟨window, hwindow⟩ := exists_decodeWindow_iff.2 ⟨h.once, h.limit, h.offset⟩
    obtain ⟨order, horder⟩ := h.order
    have hcolumns : ∀ column ∈ table.columns,
        decodeColumn params column = .ok (found? params column) := by
      intro column hcolumn
      obtain ⟨decoded, hdecoded⟩ := exists_decodeColumn_iff.2 (h.columns column hcolumn)
      rwa [found?_of_decodeColumn hdecoded]
    simp only [decode, Failure.bind_eq_ok_iff]
    exact ⟨_, _, decodeColumns_eq_ok_iff.2 ⟨hcolumns, rfl⟩, window, hwindow, order,
      SortKey.readAll_eq_ok_iff.2 horder, rfl⟩

/-- A decoded request holds what the parameters say. -/
theorem reads_of_decode (hnodup : (table.columns.map Column.name).Nodup)
    (h : decode params table settings = .ok request) : request.Reads params table settings := by
  obtain ⟨hcolumns, hfilters, hwindow, horder, hrelationships⟩ := (decode_eq_ok_iff hnodup).1 h
  obtain ⟨⟨_, hlimit, hreadLimit⟩, _, hoffset, hreadOffset⟩ := decodeWindow_eq_ok_iff.1 hwindow
  have hdecoded : ∀ column ∈ table.columns, ∃ filter : ColumnFilter, filter.Reads params column ∧
      request.filter? column.name = if filter.isActive then some filter else none :=
    fun column hcolumn => exists_reads_of_decodeColumn (hcolumns column hcolumn)
  refine {
    filters := hfilters
    filter := fun column hcolumn filter hfilter => ?_
    unfiltered := fun column hcolumn => ?_
    limit := ?_
    offset := ?_
    order := (SortKey.readAll_eq_ok_iff.1 horder).1
    relationships := hrelationships }
  · obtain ⟨decoded, hreads, hfound⟩ := hdecoded column hcolumn
    rw [hfound, Option.mem_def, Option.ite_none_right_eq_some, Option.some.injEq] at hfilter
    exact hfilter.2 ▸ hreads
  · obtain ⟨decoded, hreads, hfound⟩ := hdecoded column hcolumn
    rw [hfound, ← hreads.isActive_eq_false_iff]
    simp
  · rcases Window.readLimit_eq_ok_iff.1 hreadLimit with ⟨raw, n, rfl, hn, _, h⟩ | ⟨rfl, h⟩
    · exact Or.inl ⟨raw, n, hlimit, hn, h⟩
    · exact Or.inr ⟨hlimit, h⟩
  · rcases Window.readOffset_eq_ok_iff.1 hreadOffset with ⟨raw, rfl, h⟩ | ⟨rfl, h⟩
    · exact Or.inl ⟨raw, hoffset, h⟩
    · exact Or.inr ⟨hoffset, h⟩

/-- Decoding succeeds on exactly the parameters that are admitted for the table, and the request holds
what they say. -/
theorem decode_admits_reads (params : Params) (settings : Settings)
    (hnodup : (table.columns.map Column.name).Nodup) :
    ((∃ request, decode params table settings = .ok request) ↔ params.Admits table settings) ∧
      ∀ request, decode params table settings = .ok request →
        request.Reads params table settings :=
  ⟨exists_decode_iff hnodup, fun _ => reads_of_decode hnodup⟩

/-- Authors by range and pattern; the operator of a list stands alone, and blank entries are
skipped. -/
theorem decode_authors_admits_reads :
    let params : Params := ⟨[("id____to", " 9"), ("limit", "+5"),
      ("id____to_____comparison_operator", "Less_than"), ("name____str", "a"), ("name____str", "b"),
      ("name____list_____comparison_operator", "Not_in"), ("order_by_columns", " name :DESC, ,born"),
      ("relationship", "book,book")]⟩
    let settings : Settings := { maxLimit := some 20 }
    let request : Request := {
      filters := [⟨"id", some ⟨none, some ⟨.less, .integer 9⟩⟩, none, none⟩,
        ⟨"name", none, none, some ⟨.exact, ["a", "b"]⟩⟩]
      window := ⟨some 5, 0⟩
      order := [⟨"name", .descending⟩, ⟨"born", .ascending⟩]
      relationships := ["book"] }
    params.Admits Registry.author settings ∧ request.Reads params Registry.author settings := by
  intro params settings request
  have hnodup : (Registry.author.columns.map Column.name).Nodup := by decide
  have hdecode : decode params Registry.author settings = .ok request := rfl
  obtain ⟨hadmits, hreads⟩ := decode_admits_reads params settings hnodup
  exact ⟨hadmits.1 ⟨request, hdecode⟩, hreads request hdecode⟩

end Request

end TableQuery
