import Mathlib.Data.List.Nodup
import TableQuery.Proofs.Request.Grammar
import TableQuery.Proofs.Request.Insertion

/-!
# Opposite operators

Every operator has an opposite one: of two values that can be compared, either it or its opposite holds.
Two requests that give a column opposite operators with the same values divide the rows that have a value
in this column, since all values of one type can be compared. A row without a value is selected by
neither: an operator is turned around in what it says of a value, and not in asking for one.
-/

namespace TableQuery

/-! ## Operators -/

namespace RangeOperator

/-- The operator that accepts what another one does not. -/
def opposite : RangeOperator → RangeOperator
  | greater => lessOrEqual
  | greaterOrEqual => less
  | less => greaterOrEqual
  | lessOrEqual => greater

/-- Opposite operators accept opposite orders. -/
theorem accepts_opposite (op : RangeOperator) (order : Ordering) :
    op.opposite.accepts order = !op.accepts order := by
  cases op <;> cases order <;> rfl

/-- Of two values that can be compared, the opposite operator holds when the operator does not. -/
theorem relates_opposite_iff {op : RangeOperator} {stored bound : Value}
    (h : (stored.compare? bound).isSome) :
    op.opposite.Relates stored bound ↔ ¬ op.Relates stored bound := by
  obtain ⟨order, horder⟩ := Option.isSome_iff_exists.1 h
  rw [← Predicate.comparesAs_iff, ← Predicate.comparesAs_iff, Predicate.comparesAs,
    Predicate.comparesAs, horder, Option.any_some, Option.any_some, accepts_opposite,
    Bool.not_eq_true', Bool.not_eq_true]

end RangeOperator

namespace ListOperator

/-- The operator that admits what another one does not. -/
def opposite : ListOperator → ListOperator
  | isIn => notIn
  | notIn => isIn
  | equal => notEqual
  | notEqual => equal

/-- Opposite operators take as many values. -/
theorem isScalar_opposite (op : ListOperator) : op.opposite.isScalar = op.isScalar := by
  cases op <;> rfl

/-- A list with the opposite operator admits the values that the list does not. -/
theorem admits_opposite_iff {op : ListOperator} {values : List Value} {v : Value} :
    (ListFilter.mk op.opposite values).Admits v ↔ ¬ (ListFilter.mk op values).Admits v := by
  cases op <;> simp [ListFilter.Admits, opposite]

end ListOperator

/-! ## Requests about one column -/

/-- A column of a table whose name is declared with its type only. -/
structure Table.DeclaresAlone (table : Table) (column : Column) : Prop where
  mem : column ∈ table.columns
  type_eq : ∀ other ∈ table.columns, other.name = column.name → other.type = column.type

/-- The columns of a sound table are declared alone. -/
theorem Registry.Sound.declaresAlone {registry : Registry} {table : Table} {column : Column}
    (h : registry.Sound table) (hmem : column ∈ table.columns) : table.DeclaresAlone column where
  mem := hmem
  type_eq _ hother hname :=
    congrArg Column.type (List.inj_on_of_nodup_map h.columns_nodup hother hmem hname)

/-- The cell of a column that is declared alone is read as a value of its type. -/
theorem Table.DeclaresAlone.cell?_eq {table : Table} {column : Column} (h : table.DeclaresAlone column)
    (row : Row) :
    table.cell? row column.name = (row.get? column.name).bind (Value.ofJson? column.type) := by
  have hfound : (table.column? column.name).isSome :=
    List.find?_isSome.2 ⟨column, h.mem, decide_eq_true rfl⟩
  obtain ⟨found, hfound⟩ := Option.isSome_iff_exists.1 hfound
  obtain ⟨hmem, hname⟩ := column?_eq_some hfound
  rw [cell?, hfound, Option.bind_some, h.type_eq found hmem hname]

namespace Params

variable {params : Params} {column : String} {facet : Facet}

/-- The parameters have neither keys of other columns nor of the whole request. -/
structure Only (params : Params) (column : String) : Prop where
  others : ∀ other, other ≠ column → ∀ facet : Facet, params.getAll (facet.key other) = []
  global : ∀ key ∈ Request.globalKeys, params.getAll key = []

/-- The parameters hold texts under one key of a column, and nothing else that is decoded but perhaps the
operator that belongs to it. -/
structure Gives (params : Params) (column : String) (value operator : Facet) (texts : List String) :
    Prop where
  only : params.Only column
  values : params.getAll (value.key column) = texts
  rest : ∀ facet, facet ≠ value → facet ≠ operator → params.getAll (facet.key column) = []

/-- The parameters bound a column from below or from above, and say nothing else. -/
inductive Bounds (params : Params) (column : String) (op : RangeOperator) (text : String) : Prop
  | lower (gives : params.Gives column .lower .lowerOperator [text])
      (chooses : params.Chooses (Facet.lowerOperator.key column) RangeOperator.literal .greaterOrEqual
        op) : Bounds params column op text
  | upper (gives : params.Gives column .upper .upperOperator [text])
      (chooses : params.Chooses (Facet.upperOperator.key column) RangeOperator.literal .lessOrEqual
        op) : Bounds params column op text

/-- A bound is only about its column. -/
theorem Bounds.only {op : RangeOperator} {text : String} (h : params.Bounds column op text) :
    params.Only column := by
  cases h with
  | lower gives => exact gives.only
  | upper gives => exact gives.only

/-- A bound stands under the keys of the range. -/
theorem Bounds.getAll_eq_nil {op : RangeOperator} {text : String} (h : params.Bounds column op text)
    (hfacet : facet ∉ Facet.ofRange) : params.getAll (facet.key column) = [] := by
  simp only [Facet.ofRange, List.mem_cons, List.not_mem_nil, or_false, not_or] at hfacet
  obtain ⟨hlower, hupper, hlowerOperator, hupperOperator⟩ := hfacet
  cases h with
  | lower gives => exact gives.rest facet hlower hlowerOperator
  | upper gives => exact gives.rest facet hupper hupperOperator

/-- The parameters list values of a column, and say nothing else. -/
structure Lists (params : Params) (column : String) (op : ListOperator) (texts : List String) :
    Prop where
  gives : params.Gives column .list .listOperator texts
  chooses : params.Chooses (Facet.listOperator.key column) ListOperator.literal .isIn op

/-- Two parameters give a column opposite operators with the same values: a bound of a type that has
ranges, or a list that is not empty and of one value where the operators take one. -/
inductive Oppose (column : Column) (first second : Params) : Prop
  | bounds {op : RangeOperator} {text : String} {v : Value}
      (supported : column.type.supportsRange = true)
      (reads : Value.read? column.type text = some v) (left : first.Bounds column.name op text)
      (right : second.Bounds column.name op.opposite text) : Oppose column first second
  | lists {op : ListOperator} {texts : List String} (ne_nil : texts ≠ [])
      (single : op.isScalar = true → texts.length = 1)
      (reads : ∀ text ∈ texts, ∃ v, Value.read? column.type text = some v)
      (left : first.Lists column.name op texts) (right : second.Lists column.name op.opposite texts) :
      Oppose column first second

end Params

/-! ## What is decoded -/

namespace Request

variable {params first second : Params} {column other : Column} {table : Table} {settings : Settings}
  {value operator : Facet} {default op : RangeOperator} {raw text : String} {v : Value} {row : Row}

/-- A bound is decoded from a text and an operator. -/
theorem decodeBound_of_given (hvalue : params.getAll (value.key column.name) = [raw])
    (hchooses : params.Chooses (operator.key column.name) RangeOperator.literal default op)
    (hread : Value.read? column.type raw = some v) :
    decodeBound params column value operator default = .ok (some ⟨op, v⟩) := by
  simp only [decodeBound, Failure.bind_eq_ok_iff, Params.single_eq_ok_iff,
    decodeLiteral_eq_ok_iff RangeOperator.ofLiteral?_eq_some_iff]
  exact ⟨op, hchooses, some raw, hvalue,
    Failure.bind_eq_ok_iff.2 ⟨v, coerce_eq_ok_iff.2 hread, rfl⟩⟩

/-- A list is decoded from texts and an operator. -/
theorem decodeList_of_given {op : ListOperator} {texts : List String} {values : List Value}
    (htexts : params.getAll (Facet.list.key column.name) = texts) (hne : texts ≠ [])
    (hsingle : op.isScalar = true → texts.length = 1)
    (hchooses : params.Chooses (Facet.listOperator.key column.name) ListOperator.literal .isIn op)
    (hread : List.Forall₂ (fun raw v => Value.read? column.type raw = some v) texts values) :
    decodeList params column = .ok (some ⟨op, values⟩) := by
  have hcount : ¬ (op.isScalar = true ∧ 1 < texts.length) := fun h => (hsingle h.1 ▸ h.2).false
  simp only [decodeList, Failure.bind_eq_ok_iff,
    decodeLiteral_eq_ok_iff ListOperator.ofLiteral?_eq_some_iff]
  refine ⟨op, hchooses, ?_⟩
  split
  next hnil => exact absurd (htexts.symm.trans hnil) hne
  next =>
    rw [htexts, if_neg hcount]
    exact Failure.bind_eq_ok_iff.2 ⟨values, mapM_coerce_eq_ok_iff.2 hread, rfl⟩

/-- A column is decoded by its name and its type. -/
theorem decodeColumn_eq_of_type (hname : other.name = column.name) (htype : other.type = column.type) :
    decodeColumn params other = decodeColumn params column := by
  obtain ⟨name, type, nullable⟩ := other
  obtain rfl : name = column.name := hname
  obtain rfl : type = column.type := htype
  rfl

/-- The parameters are decoded for a column as a condition on its values. -/
def Constrains (params : Params) (column : Column) (admitted : Value → Prop) : Prop :=
  ∃ filter, decodeColumn params column = .ok (some filter) ∧
    ∀ stored, filter.Admits stored ↔ admitted stored

/-- A bound is decoded as the range that it opens or closes. -/
theorem exists_decodeRange_of_bounds (hsupported : column.type.supportsRange = true)
    (hread : Value.read? column.type text = some v) (h : params.Bounds column.name op text) :
    ∃ range : RangeFilter, decodeRange params column = .ok (some range) ∧ range.bounds = [⟨op, v⟩] := by
  have hrefuse : refuse params column column.type.supportsRange Facet.ofRange .rangeUnsupported =
      .ok () := by
    rw [hsupported]
    rfl
  cases h with
  | lower gives chooses =>
    refine ⟨⟨some ⟨op, v⟩, none⟩, ?_, rfl⟩
    rw [decodeRange, hrefuse, decodeBound_of_given gives.values chooses hread, decodeBound_of_absent
      (gives.rest _ (by decide) (by decide)) (gives.rest _ (by decide) (by decide))]
    rfl
  | upper gives chooses =>
    refine ⟨⟨none, some ⟨op, v⟩⟩, ?_, rfl⟩
    rw [decodeRange, hrefuse, decodeBound_of_given gives.values chooses hread, decodeBound_of_absent
      (gives.rest _ (by decide) (by decide)) (gives.rest _ (by decide) (by decide))]
    rfl

/-- A bound constrains its column to the values that stand to it as the operator says. -/
theorem constrains_of_bounds (hsupported : column.type.supportsRange = true)
    (hread : Value.read? column.type text = some v) (h : params.Bounds column.name op text) :
    Constrains params column fun stored => op.Relates stored v := by
  obtain ⟨range, hrange, hbounds⟩ := exists_decodeRange_of_bounds hsupported hread h
  have hlist := decodeList_of_absent (h.getAll_eq_nil (by decide)) (h.getAll_eq_nil (by decide))
  have hapart : ∀ facet ∈ Facet.ofPattern, facet ∉ Facet.ofRange := by decide
  have hpattern := decodePattern_of_absent fun facet hfacet => h.getAll_eq_nil (hapart facet hfacet)
  let filter : ColumnFilter := ⟨column.name, some range, none, none⟩
  have hactive : filter.isActive = true :=
    ColumnFilter.isActive_iff.2 (Or.inl ⟨range, rfl, ⟨op, v⟩, hbounds ▸ List.mem_singleton_self _⟩)
  refine ⟨filter, ?_, fun stored => ?_⟩
  · simp only [decodeColumn, Failure.bind_eq_ok_iff]
    exact ⟨some range, hrange, none, hlist, none, hpattern, congrArg Except.ok (if_pos hactive)⟩
  · simp [filter, ColumnFilter.Admits, RangeFilter.Admits, hbounds]

/-- A list constrains its column to the values that it admits. -/
theorem constrains_of_lists {op : ListOperator} {texts : List String} {values : List Value}
    (hne : texts ≠ []) (hsingle : op.isScalar = true → texts.length = 1)
    (hread : List.Forall₂ (fun raw v => Value.read? column.type raw = some v) texts values)
    (h : params.Lists column.name op texts) :
    Constrains params column (ListFilter.mk op values).Admits := by
  have habsent (facets : List Facet)
      (hfacets : ∀ facet ∈ facets, facet ≠ .list ∧ facet ≠ .listOperator) :
      ∀ facet ∈ facets, params.getAll (facet.key column.name) = [] := fun facet hfacet =>
    h.gives.rest facet (hfacets facet hfacet).1 (hfacets facet hfacet).2
  have hrange := decodeRange_of_absent (habsent Facet.ofRange (by decide))
  have hlist := decodeList_of_given h.gives.values hne hsingle h.chooses hread
  have hpattern := decodePattern_of_absent (habsent Facet.ofPattern (by decide))
  let filter : ColumnFilter := ⟨column.name, none, some ⟨op, values⟩, none⟩
  refine ⟨filter, ?_, fun stored => ?_⟩
  · simp only [decodeColumn, Failure.bind_eq_ok_iff]
    exact ⟨none, hrange, some ⟨op, values⟩, hlist, none, hpattern, rfl⟩
  · simp [filter, ColumnFilter.Admits]

/-! ## The request -/

/-- A request that orders and expands nothing and selects the rows whose value in one column is
admitted. -/
structure SelectsBy (table : Table) (column : String) (admitted : Value → Prop) (request : Request) :
    Prop where
  order : request.order = []
  relationships : request.relationships = []
  holds : ∀ row, request.predicate.holds table row = true ↔
    ∃ stored, table.cell? row column = some stored ∧ admitted stored

/-- Parameters about one column are decoded alike for all columns of its name, and as nothing for all
others. -/
theorem decodeColumn_of_only {filter : ColumnFilter} (halone : table.DeclaresAlone column)
    (honly : params.Only column.name) (hfilter : decodeColumn params column = .ok (some filter))
    (hother : other ∈ table.columns) :
    decodeColumn params other = .ok (if other.name = column.name then some filter else none) := by
  split
  next heq => rw [decodeColumn_eq_of_type heq (halone.type_eq other hother heq), hfilter]
  next hne => exact decodeColumn_of_absent (honly.others other.name hne)

/-- The filters that are found for parameters about one column are that of the column. -/
theorem mem_filterMap_found?_iff {filter found : ColumnFilter} (halone : table.DeclaresAlone column)
    (honly : params.Only column.name) (hfilter : decodeColumn params column = .ok (some filter)) :
    found ∈ table.columns.filterMap (found? params) ↔ found = filter := by
  rw [List.mem_filterMap]
  constructor
  · rintro ⟨other, hother, hfound⟩
    rw [found?_of_decodeColumn (decodeColumn_of_only halone honly hfilter hother),
      Option.ite_none_right_eq_some] at hfound
    exact (Option.some.inj hfound.2).symm
  · rintro rfl
    exact ⟨column, halone.mem, found?_of_decodeColumn hfilter⟩

/-- Parameters about one column that are decoded for the columns are decoded as a request without an order
and relationships. -/
theorem exists_decode_of_only (settings : Settings) (honly : params.Only column.name)
    (h : ∀ other ∈ table.columns, decodeColumn params other = .ok (found? params other)) :
    ∃ window, decode params table settings =
      .ok ⟨table.columns.filterMap (found? params), window, [], []⟩ := by
  have hwindow : ∃ window, decodeWindow params settings = .ok window := by
    refine exists_decodeWindow_iff.2 ?_
    simp [honly.global limitKey (by decide), honly.global offsetKey (by decide)]
  have hsplit {key : String} (hkey : key ∈ globalKeys) : params.getSplit key = [] := by
    rw [Params.getSplit, honly.global key hkey, List.flatMap_nil]
  obtain ⟨window, hwindow⟩ := hwindow
  refine ⟨window, ?_⟩
  rw [decode, decodeColumns_eq_ok_iff.2 ⟨h, rfl⟩, hwindow, hsplit (by decide), hsplit (by decide)]
  rfl

/-- Parameters about one column that constrain it are decoded as a request that selects by it. -/
theorem exists_decode_of_constrains {admitted : Value → Prop} (settings : Settings)
    (halone : table.DeclaresAlone column) (honly : params.Only column.name)
    (h : Constrains params column admitted) :
    ∃ request, decode params table settings = .ok request ∧
      SelectsBy table column.name admitted request := by
  obtain ⟨filter, hfilter, hadmits⟩ := h
  have hname := column_of_found? (found?_of_decodeColumn hfilter)
  have hcolumns : ∀ other ∈ table.columns,
      decodeColumn params other = .ok (found? params other) := fun other hother => by
    have hdecoded := decodeColumn_of_only halone honly hfilter hother
    rw [hdecoded, found?_of_decodeColumn hdecoded]
  obtain ⟨window, hdecode⟩ := exists_decode_of_only settings honly hcolumns
  refine ⟨_, hdecode, rfl, rfl, fun row => ?_⟩
  simp only [holds_predicate hdecode, Selects, mem_filterMap_found?_iff halone honly hfilter, forall_eq,
    hname, hadmits, Option.mem_def]

end Request

/-- Two conditions divide the rows with a value in a column: exactly one of them holds of a row that has
one, and neither of a row whose cell is missing, null or of another form. -/
structure Predicate.Divides (table : Table) (column : String) (first second : Predicate) : Prop where
  typed : ∀ row v, table.cell? row column = some v → first.holds table row = !second.holds table row
  untyped : ∀ row, table.cell? row column = none →
    first.holds table row = false ∧ second.holds table row = false

namespace Request

variable {first second : Params} {column : Column} {table : Table} {request opposed : Request}

/-- Requests that select by one column, one what the other does not, divide the rows with a value in
it. -/
theorem SelectsBy.divides {admitted excluded : Value → Prop} (halone : table.DeclaresAlone column)
    (hfirst : SelectsBy table column.name admitted request)
    (hsecond : SelectsBy table column.name excluded opposed)
    (hopposite : ∀ stored : Value, stored.Fits column.type → (excluded stored ↔ ¬ admitted stored)) :
    Predicate.Divides table column.name request.predicate opposed.predicate where
  typed row v hcell := by
    have hread := hcell
    rw [halone.cell?_eq, Option.bind_eq_some_iff] at hread
    obtain ⟨cell, _, hread⟩ := hread
    have hfits := Value.fits_of_ofJson? hread
    rw [Bool.eq_iff_iff, Bool.not_eq_true', ← Bool.not_eq_true, hfirst.holds, hsecond.holds, hcell]
    simp only [Option.some.injEq, exists_eq_left', hopposite v hfits, not_not]
  untyped row hcell := by
    rw [← Bool.not_eq_true, ← Bool.not_eq_true, hfirst.holds, hsecond.holds, hcell]
    simp

/-- Parameters that give a column opposite operators are decoded, and the requests divide the rows that
have a value in it. -/
theorem exists_divides_of_oppose (settings : Settings) (halone : table.DeclaresAlone column)
    (h : Params.Oppose column first second) :
    ∃ request opposed admitted excluded,
      decode first table settings = .ok request ∧ decode second table settings = .ok opposed ∧
      SelectsBy table column.name admitted request ∧ SelectsBy table column.name excluded opposed ∧
      Predicate.Divides table column.name request.predicate opposed.predicate := by
  cases h with
  | @bounds op text v supported reads left right =>
    obtain ⟨request, hrequest, hselects⟩ := exists_decode_of_constrains settings halone left.only
      (constrains_of_bounds supported reads left)
    obtain ⟨opposed, hopposed, hexcludes⟩ := exists_decode_of_constrains settings halone
      right.only (constrains_of_bounds supported reads right)
    have hv := Value.fits_of_read? reads
    exact ⟨request, opposed, _, _, hrequest, hopposed, hselects, hexcludes,
      hselects.divides halone hexcludes fun _ hstored =>
        RangeOperator.relates_opposite_iff (hstored.compare?_isSome hv)⟩
  | @lists op texts ne_nil single reads left right =>
    obtain ⟨values, hvalues⟩ := exists_forall₂_iff.2 reads
    have hsingle := op.isScalar_opposite ▸ single
    obtain ⟨request, hrequest, hselects⟩ := exists_decode_of_constrains settings halone
      left.gives.only (constrains_of_lists ne_nil single hvalues left)
    obtain ⟨opposed, hopposed, hexcludes⟩ := exists_decode_of_constrains settings halone
      right.gives.only (constrains_of_lists ne_nil hsingle hvalues right)
    exact ⟨request, opposed, _, _, hrequest, hopposed, hselects, hexcludes,
      hselects.divides halone hexcludes fun _ _ => ListOperator.admits_opposite_iff⟩

end Request

end TableQuery
