import Mathlib.Data.List.Find
import Mathlib.Data.List.Infix
import TableQuery.Request.Decode

/-!
# The keys of a request

A key is the name of a column with the suffix of a facet, or one of the four keys of the whole
request. No suffix ends in another one, so that a key tells its column and its facet apart, whatever
the names of the columns are. What is decoded for a column depends on the values under its own keys
only, and without such values nothing is decoded.
-/

namespace TableQuery

/-! ## Keys tell columns and facets apart -/

namespace Facet

/-- No suffix ends in another one. -/
theorem eq_of_suffix {facet other : Facet} (h : facet.suffix.toList <:+ other.suffix.toList) :
    facet = other := by
  revert h
  cases facet <;> cases other <;> decide

/-- A key is that of one facet of one column. -/
theorem key_inj {facet other : Facet} {first second : String} :
    facet.key first = other.key second ↔ facet = other ∧ first = second := by
  refine ⟨fun h => ?_, fun h => by rw [h.1, h.2]⟩
  have hchars : first.toList ++ facet.suffix.toList = second.toList ++ other.suffix.toList := by
    simpa only [key, String.toList_append] using congrArg String.toList h
  have hleft : facet.suffix.toList <:+ second.toList ++ other.suffix.toList :=
    hchars ▸ List.suffix_append _ _
  -- Both suffixes end the same key, so that one of them ends in the other.
  have hsame : facet = other := by
    rcases List.suffix_or_suffix_of_suffix hleft (List.suffix_append _ _) with h | h
    · exact eq_of_suffix h
    · exact (eq_of_suffix h).symm
  subst hsame
  exact ⟨rfl, String.toList_injective (List.append_cancel_right hchars)⟩

end Facet

/-- The keys that belong to the whole request. -/
def Request.globalKeys : List String := [limitKey, offsetKey, orderKey, relationshipKey]

/-- The keys of the window belong to the whole request. -/
theorem Request.mem_globalKeys_of_window {key : String} (h : key ∈ [limitKey, offsetKey]) :
    key ∈ globalKeys :=
  List.mem_append_left [orderKey, relationshipKey] h

/-- The keys whose values are split into entries belong to the whole request. -/
theorem Request.mem_globalKeys_of_split {key : String} (h : key ∈ [orderKey, relationshipKey]) :
    key ∈ globalKeys :=
  List.mem_append_right [limitKey, offsetKey] h

/-- The values of no key of the window are split into entries. -/
theorem Request.ne_of_window_of_split {used key : String} (hused : used ∈ [limitKey, offsetKey])
    (hkey : key ∈ [orderKey, relationshipKey]) : used ≠ key := by
  have hapart : ∀ used ∈ [limitKey, offsetKey], used ∉ [orderKey, relationshipKey] := by decide
  exact fun heq => hapart used hused (heq ▸ hkey)

/-- No key of a column belongs to the whole request. -/
theorem Facet.key_notMem_globalKeys (facet : Facet) (column : String) :
    facet.key column ∉ Request.globalKeys := by
  have hsuffix : ∀ global ∈ Request.globalKeys, ¬ facet.suffix.toList <:+ global.toList := by
    cases facet <;> decide
  intro h
  refine hsuffix _ h ?_
  rw [Facet.key, String.toList_append]
  exact List.suffix_append _ _

/-! ## Values under a key -/

namespace Params

variable {params other : Params} {key : String}

/-- A key is used once when it has one value, and not at all when it has none. -/
theorem single_eq_ok_iff {value : Option String} :
    params.single key = .ok value ↔ params.getAll key = value.toList := by
  unfold single
  cases value <;> split <;> simp_all

/-- A key is used once at most, with a value of some kind, exactly when it has one value at most and
all its values are of this kind. -/
theorem exists_toList_iff {p : String → Prop} :
    (∃ given : Option String, params.getAll key = given.toList ∧ ∀ raw ∈ given, p raw) ↔
      (params.getAll key).length ≤ 1 ∧ ∀ raw ∈ params.getAll key, p raw := by
  constructor
  · intro h
    obtain ⟨given, hvalues, hgiven⟩ := h
    rw [hvalues]
    exact ⟨by cases given <;> simp, fun raw hraw => hgiven raw (Option.mem_toList.1 hraw)⟩
  · intro h
    obtain ⟨honce, hvalues⟩ := h
    cases hall : params.getAll key with
    | nil => exact ⟨none, rfl, nofun⟩
    | cons raw rest =>
      rw [hall, List.length_cons] at honce
      obtain rfl := List.eq_nil_of_length_eq_zero (Nat.le_zero.1 (Nat.le_of_succ_le_succ honce))
      refine ⟨some raw, rfl, fun given hgiven => hvalues given ?_⟩
      rw [hall, ← Option.mem_some.1 hgiven]
      exact List.mem_cons_self

/-- Whether a key occurs depends on its values only. -/
theorem contains_congr (h : params.getAll key = other.getAll key) :
    params.contains key = other.contains key := by
  rw [Bool.eq_iff_iff, ← Bool.not_eq_false, ← Bool.not_eq_false, contains_eq_false_iff,
    contains_eq_false_iff, h]

/-- The entries under a key depend on its values only. -/
theorem getSplit_congr (h : params.getAll key = other.getAll key) :
    params.getSplit key = other.getSplit key := by
  rw [getSplit, getSplit, h]

/-- One more pair stands somewhere among the pairs of other parameters. -/
inductive Inserts (key text : String) : Params → Params → Prop
  | among (before after : List (String × String)) :
      Inserts key text ⟨before ++ after⟩ ⟨before ++ (key, text) :: after⟩

/-- A further pair changes the values under its own key only. -/
theorem Inserts.getAll_of_ne {text used : String} (h : Inserts key text params other)
    (hused : used ≠ key) : other.getAll used = params.getAll used := by
  cases h with
  | among before after =>
    simp only [getAll, List.filter_append, List.filter_cons, decide_eq_true_eq, if_neg hused.symm]

/-- A further pair is the only one of a key that did not occur. -/
theorem Inserts.getAll_self {text : String} (h : Inserts key text params other)
    (habsent : params.getAll key = []) : other.getAll key = [text] := by
  cases h with
  | among before after =>
    simp only [getAll, List.filter_append, List.map_append, List.append_eq_nil_iff] at habsent
    simp only [getAll, List.filter_append, List.filter_cons, decide_true, if_true, List.map_append,
      List.map_cons, habsent.1, habsent.2, List.nil_append]

end Params

/-- Once its later occurrences are erased, no name occurs twice. -/
theorem nodup_eraseDups (names : List String) : names.eraseDups.Nodup := by
  match names with
  | [] => exact .nil
  | name :: rest =>
    have hrest : (rest.filter fun other => !other == name).length < rest.length + 1 :=
      Nat.lt_succ_of_le (List.length_filter_le _ rest)
    rw [List.eraseDups_cons, List.nodup_cons, List.mem_eraseDups]
    exact ⟨by simp, nodup_eraseDups _⟩
termination_by names.length

namespace Request

variable {params other : Params} {column : Column}

/-- Which facets are refused depends on the values under their keys only. -/
theorem refuse_congr {facets : List Facet} (h : ∀ facet ∈ facets,
      params.getAll (facet.key column.name) = other.getAll (facet.key column.name))
    (supported : Bool) (fault : String → DecodeFault) :
    refuse params column supported facets fault = refuse other column supported facets fault := by
  have hfind : (facets.map fun facet => facet.key column.name).find? params.contains =
      (facets.map fun facet => facet.key column.name).find? other.contains :=
    List.find?_congr (List.forall_mem_map.2 fun facet hfacet => Params.contains_congr (h facet hfacet))
  rw [refuse, refuse, hfind]

/-- What is decoded as a range depends on the values under the keys of the range only. -/
theorem decodeRange_congr (h : ∀ facet ∈ Facet.ofRange,
    params.getAll (facet.key column.name) = other.getAll (facet.key column.name)) :
    decodeRange params column = decodeRange other column := by
  simp only [decodeRange, decodeBound, decodeLiteral, Params.single, refuse_congr h,
    h .lower (by decide), h .upper (by decide), h .lowerOperator (by decide),
    h .upperOperator (by decide)]

/-- What is decoded as a pattern depends on the values under the keys of the pattern only. -/
theorem decodePattern_congr (h : ∀ facet ∈ Facet.ofPattern,
    params.getAll (facet.key column.name) = other.getAll (facet.key column.name)) :
    decodePattern params column = decodePattern other column := by
  simp only [decodePattern, decodeLiteral, Params.single, refuse_congr h, h .pattern (by decide),
    h .patternMode (by decide)]

/-- What is decoded for a column, and whether it fails, depends on the values under its keys only. -/
theorem decodeColumn_congr (h : ∀ facet : Facet, params.getAll (facet.key column.name) =
    other.getAll (facet.key column.name)) :
    decodeColumn params column = decodeColumn other column := by
  have hlist : decodeList params column = decodeList other column := by
    simp only [decodeList, decodeLiteral, Params.single, h]
  rw [decodeColumn, decodeColumn, decodeRange_congr fun facet _ => h facet, hlist,
    decodePattern_congr fun facet _ => h facet]

/-- Columns that are each decoded alike from two parameters are decoded alike in turn. -/
theorem decodeColumns_congr {columns : List Column}
    (h : ∀ column ∈ columns, decodeColumn params column = decodeColumn other column) :
    decodeColumns params columns = decodeColumns other columns := by
  induction columns with
  | nil => rfl
  | cons first rest ih =>
    rw [List.forall_mem_cons] at h
    rw [decodeColumns, decodeColumns, h.1, ih h.2]

/-- What is decoded for columns depends on the values under the keys of columns only. -/
theorem decodeColumns_congr_of_notMem
    (h : ∀ key ∉ globalKeys, params.getAll key = other.getAll key) (columns : List Column) :
    decodeColumns params columns = decodeColumns other columns :=
  decodeColumns_congr fun column _ => decodeColumn_congr fun facet =>
    h _ (Facet.key_notMem_globalKeys facet column.name)

/-- Facets of which none occurs are not refused. -/
theorem refuse_of_absent {facets : List Facet}
    (h : ∀ facet ∈ facets, params.getAll (facet.key column.name) = []) (supported : Bool)
    (fault : String → DecodeFault) : refuse params column supported facets fault = .ok () := by
  have hfind : (facets.map fun facet => facet.key column.name).find? params.contains = none :=
    List.find?_eq_none.2 (List.forall_mem_map.2 fun facet hfacet =>
      Bool.not_eq_true _ ▸ (Params.contains_eq_false_iff _ _).2 (h facet hfacet))
  rw [refuse, hfind]
  split <;> rfl

/-- Without a text and an operator, no bound is decoded. -/
theorem decodeBound_of_absent {value operator : Facet} {default : RangeOperator}
    (hvalue : params.getAll (value.key column.name) = [])
    (hoperator : params.getAll (operator.key column.name) = []) :
    decodeBound params column value operator default = .ok none := by
  simp only [decodeBound, decodeLiteral, Params.single, hvalue, hoperator]
  rfl

/-- Without its keys, no range is decoded. -/
theorem decodeRange_of_absent (h : ∀ facet ∈ Facet.ofRange, params.getAll (facet.key column.name) = []) :
    decodeRange params column = .ok none := by
  rw [decodeRange, refuse_of_absent h,
    decodeBound_of_absent (h .lower (by decide)) (h .lowerOperator (by decide)),
    decodeBound_of_absent (h .upper (by decide)) (h .upperOperator (by decide))]
  rfl

/-- Without a list and its operator, no list is decoded. -/
theorem decodeList_of_absent (hlist : params.getAll (Facet.list.key column.name) = [])
    (hoperator : params.getAll (Facet.listOperator.key column.name) = []) :
    decodeList params column = .ok none := by
  simp only [decodeList, decodeLiteral, Params.single, hlist, hoperator]
  rfl

/-- Without its keys, no pattern is decoded. -/
theorem decodePattern_of_absent
    (h : ∀ facet ∈ Facet.ofPattern, params.getAll (facet.key column.name) = []) :
    decodePattern params column = .ok none := by
  rw [decodePattern, refuse_of_absent h]
  simp only [decodeLiteral, Params.single, h .pattern (by decide), h .patternMode (by decide)]
  rfl

/-- Without values under its keys, nothing is decoded for a column. -/
theorem decodeColumn_of_absent (h : ∀ facet : Facet, params.getAll (facet.key column.name) = []) :
    decodeColumn params column = .ok none := by
  rw [decodeColumn, decodeRange_of_absent fun facet _ => h facet,
    decodeList_of_absent (h .list) (h .listOperator), decodePattern_of_absent fun facet _ => h facet]
  rfl

/-- Without values under the keys of columns, no filter is decoded. -/
theorem decodeColumns_of_absent {columns : List Column}
    (h : ∀ column ∈ columns, ∀ facet : Facet, params.getAll (facet.key column.name) = []) :
    decodeColumns params columns = .ok [] := by
  induction columns with
  | nil => rfl
  | cons first rest ih =>
    rw [List.forall_mem_cons] at h
    rw [decodeColumns, decodeColumn_of_absent h.1, ih h.2]
    rfl

/-- The window depends on the values under its two keys only. -/
theorem decodeWindow_congr (h : ∀ key ∈ [limitKey, offsetKey], params.getAll key = other.getAll key)
    (settings : Settings) : decodeWindow params settings = decodeWindow other settings := by
  simp only [decodeWindow, Params.single, h limitKey (by decide), h offsetKey (by decide)]

/-! ## Columns one by one -/

variable {filters : List ColumnFilter} {filter : ColumnFilter} {table : Table} {settings : Settings}
  {request : Request}

/-- The filter that is decoded for a column, if any. -/
def found? (params : Params) (column : Column) : Option ColumnFilter :=
  match decodeColumn params column with
  | .ok filter => filter
  | .error _ => none

/-- What is decoded for a column is found. -/
theorem found?_of_decodeColumn {decoded : Option ColumnFilter}
    (h : decodeColumn params column = .ok decoded) : found? params column = decoded := by
  rw [found?, h]

/-- The filter that is found for a column belongs to it. -/
theorem column_of_found? (h : found? params column = some filter) : filter.column = column.name := by
  unfold found? at h
  split at h
  next decoded hdecoded =>
    subst h
    simp only [decodeColumn, Failure.bind_eq_ok_iff, Except.ok.injEq, Option.ite_none_right_eq_some,
      Option.some.injEq] at hdecoded
    obtain ⟨range, _, list, _, pattern, _, _, rfl⟩ := hdecoded
    rfl
  next => contradiction

/-- Columns are decoded when each of them is, and give the filters that are found, in order. -/
theorem decodeColumns_eq_ok_iff {columns : List Column} :
    decodeColumns params columns = .ok filters ↔
      (∀ column ∈ columns, decodeColumn params column = .ok (found? params column)) ∧
        filters = columns.filterMap (found? params) := by
  induction columns generalizing filters with
  | nil => simp [decodeColumns, eq_comm]
  | cons first rest ih =>
    simp only [decodeColumns, Failure.bind_eq_ok_iff, ih, List.forall_mem_cons, Except.ok.injEq]
    have hcons (decoded : Option ColumnFilter) (hdecoded : found? params first = decoded) :
        (first :: rest).filterMap (found? params) =
          decoded.toList ++ rest.filterMap (found? params) := by
      cases decoded with
      | none => rw [List.filterMap_cons_none hdecoded]; rfl
      | some filter => rw [List.filterMap_cons_some hdecoded]; rfl
    constructor
    · intro h
      obtain ⟨decoded, hfirst, _, ⟨hrest, rfl⟩, rfl⟩ := h
      have hfound := found?_of_decodeColumn hfirst
      exact ⟨⟨hfound.symm ▸ hfirst, hrest⟩, (hcons decoded hfound).symm⟩
    · intro h
      obtain ⟨⟨hfirst, hrest⟩, rfl⟩ := h
      exact ⟨_, hfirst, _, ⟨hrest, rfl⟩, (hcons _ rfl).symm⟩

/-- Among the filters of columns with distinct names, that of a column is the one found for it. -/
theorem find?_filterMap_found? {columns : List Column} (hnodup : (columns.map Column.name).Nodup)
    (hcolumn : column ∈ columns) :
    (columns.filterMap (found? params)).find? (fun filter => filter.column = column.name) =
      found? params column := by
  have hother (rest : List Column) (hrest : column.name ∉ rest.map Column.name) :
      (rest.filterMap (found? params)).find? (fun filter => filter.column = column.name) = none := by
    rw [List.find?_eq_none]
    intro filter hfilter
    obtain ⟨other, hmem, hfound⟩ := List.mem_filterMap.1 hfilter
    rw [column_of_found? hfound, decide_eq_true_eq]
    exact fun heq => hrest (heq ▸ List.mem_map_of_mem hmem)
  induction columns with
  | nil => contradiction
  | cons first rest ih =>
    rw [List.map_cons, List.nodup_cons] at hnodup
    cases hfirst : found? params first with
    | none =>
      rw [List.filterMap_cons_none hfirst]
      rcases List.mem_cons.1 hcolumn with rfl | hcolumn
      · rw [hfirst, hother rest hnodup.1]
      · exact ih hnodup.2 hcolumn
    | some filter =>
      have hname := column_of_found? hfirst
      rw [List.filterMap_cons_some hfirst]
      rcases List.mem_cons.1 hcolumn with rfl | hcolumn
      · rw [List.find?_cons_of_pos (by simpa using hname), hfirst]
      · have hne : filter.column ≠ column.name :=
          fun heq => hnodup.1 (hname ▸ heq ▸ List.mem_map_of_mem hcolumn)
        rw [List.find?_cons_of_neg (by simpa using hne)]
        exact ih hnodup.2 hcolumn

/-- The relationships of a request are the entries under their key, each of them once. -/
theorem relationships_of_decode (h : decode params table settings = .ok request) :
    request.relationships = (params.getSplit relationshipKey).eraseDups := by
  simp only [decode, Failure.bind_eq_ok_iff, Except.ok.injEq] at h
  obtain ⟨_, _, _, _, _, _, rfl⟩ := h
  rfl

/-- No relationship is requested twice. -/
theorem nodup_relationships (h : decode params table settings = .ok request) :
    request.relationships.Nodup := by
  rw [relationships_of_decode h]
  exact nodup_eraseDups _

/-- The filters of a request are those that are decoded for the columns. -/
theorem filters_of_decode (h : decode params table settings = .ok request) :
    decodeColumns params table.columns = .ok request.filters := by
  simp only [decode, Failure.bind_eq_ok_iff, Except.ok.injEq] at h
  obtain ⟨_, hfilters, _, _, _, _, rfl⟩ := h
  exact hfilters

/-- The window of a request is the decoded one. -/
theorem window_of_decode (h : decode params table settings = .ok request) :
    decodeWindow params settings = .ok request.window := by
  simp only [decode, Failure.bind_eq_ok_iff, Except.ok.injEq] at h
  obtain ⟨_, _, _, hwindow, _, _, rfl⟩ := h
  exact hwindow

/-- The order of a request is read from the entries under its key. -/
theorem order_of_decode (h : decode params table settings = .ok request) :
    SortKey.readAll (params.getSplit orderKey) = .ok request.order := by
  simp only [decode, Failure.bind_eq_ok_iff, Except.ok.injEq] at h
  obtain ⟨_, _, _, _, _, horder, rfl⟩ := h
  exact horder

/-- A request for a table with distinct columns holds what is decoded for each column, in order, with
the window, the order and the relationships, each of these once. -/
theorem decode_eq_ok_iff (hnodup : (table.columns.map Column.name).Nodup) :
    decode params table settings = .ok request ↔
      (∀ column ∈ table.columns,
        decodeColumn params column = .ok (request.filter? column.name)) ∧
      request.filters = table.columns.filterMap (fun column => request.filter? column.name) ∧
      decodeWindow params settings = .ok request.window ∧
      SortKey.readAll (params.getSplit orderKey) = .ok request.order ∧
      request.relationships = (params.getSplit relationshipKey).eraseDups := by
  simp only [decode, Failure.bind_eq_ok_iff, decodeColumns_eq_ok_iff, Except.ok.injEq]
  constructor
  · intro h
    obtain ⟨_, ⟨hdecoded, rfl⟩, window, hwindow, order, horder, rfl⟩ := h
    have hfilter : ∀ column ∈ table.columns, filter?
        ⟨table.columns.filterMap (found? params), window, order,
          (params.getSplit relationshipKey).eraseDups⟩ column.name = found? params column :=
      fun column hcolumn => find?_filterMap_found? hnodup hcolumn
    refine ⟨fun column hcolumn => ?_, ?_, hwindow, horder, rfl⟩
    · rw [hfilter column hcolumn]
      exact hdecoded column hcolumn
    · exact (List.filterMap_congr hfilter).symm
  · intro h
    obtain ⟨hdecoded, hfilters, hwindow, horder, hrelationships⟩ := h
    have hfound : ∀ column ∈ table.columns, found? params column = request.filter? column.name :=
      fun column hcolumn => found?_of_decodeColumn (hdecoded column hcolumn)
    refine ⟨request.filters, ⟨fun column hcolumn => ?_, ?_⟩, request.window, hwindow, request.order,
      horder, ?_⟩
    · rw [hfound column hcolumn]
      exact hdecoded column hcolumn
    · rw [hfilters]
      exact (List.filterMap_congr hfound).symm
    · rw [← hrelationships]

end Request

end TableQuery
