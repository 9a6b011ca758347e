import TableQuery.Plan
import TableQuery.Proofs.Value.Comparison
import TableQuery.Request.Decode

/-!
# Which rows a request selects

What the constraints of a request say of a typed value, without conditions: a bound relates it to a
value, a list holds it or does not, one of the texts of a pattern matches it. A row is selected when
each constrained column has a value and the constraints admit it. The condition that a decoded
request becomes holds of exactly these rows.
-/

namespace TableQuery

/-- A text occurs in another exactly when it is one of its contiguous parts. -/
theorem Text.occursIn_iff {needle s : List Char} : Text.occursIn needle s = true ↔ needle <:+: s := by
  induction s with
  | nil => simp [Text.occursIn]
  | cons c rest ih =>
    rw [Text.occursIn, Bool.or_eq_true, ih, List.isPrefixOf_iff_prefix, List.infix_cons_iff]

/-- How a stored value stands to the bound of an operator. -/
def RangeOperator.Relates (operator : RangeOperator) (stored bound : Value) : Prop :=
  match operator with
  | greater => stored.compare? bound = some .gt
  | greaterOrEqual => stored.compare? bound = some .gt ∨ stored.compare? bound = some .eq
  | less => stored.compare? bound = some .lt
  | lessOrEqual => stored.compare? bound = some .lt ∨ stored.compare? bound = some .eq

instance (operator : RangeOperator) (stored bound : Value) :
    Decidable (operator.Relates stored bound) :=
  match operator with
  | .greater => inferInstanceAs (Decidable (_ = _))
  | .greaterOrEqual => inferInstanceAs (Decidable (_ ∨ _))
  | .less => inferInstanceAs (Decidable (_ = _))
  | .lessOrEqual => inferInstanceAs (Decidable (_ ∨ _))

/-- A comparison holds exactly when the stored value stands to the bound as its operator says. -/
theorem Predicate.comparesAs_iff {operator : RangeOperator} {stored bound : Value} :
    comparesAs operator stored bound = true ↔ operator.Relates stored bound := by
  unfold comparesAs RangeOperator.Relates
  cases stored.compare? bound with
  | none => cases operator <;> simp
  | some order => cases operator <;> cases order <;> simp [RangeOperator.accepts]

/-- How a stored text matches a wanted one. -/
def MatchMode.Matches (mode : MatchMode) (stored wanted : String) : Prop :=
  match mode with
  | exact => stored = wanted
  | folded => Text.foldCase stored = Text.foldCase wanted
  | contains => wanted.toList <:+: stored.toList

/-- A mode accepts exactly the texts that match. -/
theorem MatchMode.accepts_iff {mode : MatchMode} {stored wanted : String} :
    mode.accepts stored wanted = true ↔ mode.Matches stored wanted := by
  cases mode with
  | exact => exact decide_eq_true_iff
  | folded => exact decide_eq_true_iff
  | contains => exact Text.occursIn_iff

instance (mode : MatchMode) (stored wanted : String) : Decidable (mode.Matches stored wanted) :=
  decidable_of_iff _ MatchMode.accepts_iff

/-- A range admits the values that stand to each of its bounds as the operator of the bound says. -/
def RangeFilter.Admits (range : RangeFilter) (v : Value) : Prop :=
  ∀ bound ∈ range.bounds, bound.operator.Relates v bound.value

instance (range : RangeFilter) (v : Value) : Decidable (range.Admits v) :=
  inferInstanceAs (Decidable (∀ bound ∈ range.bounds, bound.operator.Relates v bound.value))

/-- A list admits the values that equal one of its values, or those that equal none of them. -/
def ListFilter.Admits (list : ListFilter) (v : Value) : Prop :=
  match list.operator with
  | .isIn | .equal => ∃ listed ∈ list.values, v.compare? listed = some .eq
  | .notIn | .notEqual => ∀ listed ∈ list.values, v.compare? listed ≠ some .eq

instance (list : ListFilter) (v : Value) : Decidable (list.Admits v) := by
  unfold ListFilter.Admits
  cases list.operator <;> infer_instance

/-- A pattern admits the texts that one of its texts matches. -/
def MatchFilter.Admits (pattern : MatchFilter) (v : Value) : Prop :=
  ∃ stored ∈ v.asText?, ∃ wanted ∈ pattern.texts, pattern.mode.Matches stored wanted

instance (pattern : MatchFilter) (v : Value) : Decidable (pattern.Admits v) :=
  inferInstanceAs (Decidable
    (∃ stored ∈ v.asText?, ∃ wanted ∈ pattern.texts, pattern.mode.Matches stored wanted))

/-- The constraints on a column admit what its range, its list and its pattern admit. -/
def ColumnFilter.Admits (filter : ColumnFilter) (v : Value) : Prop :=
  (∀ range ∈ filter.range, range.Admits v) ∧ (∀ list ∈ filter.list, list.Admits v) ∧
    ∀ pattern ∈ filter.pattern, pattern.Admits v

instance (filter : ColumnFilter) (v : Value) : Decidable (filter.Admits v) :=
  inferInstanceAs (Decidable ((∀ range ∈ filter.range, range.Admits v) ∧
    (∀ list ∈ filter.list, list.Admits v) ∧ ∀ pattern ∈ filter.pattern, pattern.Admits v))

/-- A request selects the rows whose cells have values that its constraints admit. -/
def Request.Selects (request : Request) (table : Table) (row : Row) : Prop :=
  ∀ filter ∈ request.filters, ∃ v ∈ table.cell? row filter.column, filter.Admits v

instance (request : Request) (table : Table) (row : Row) : Decidable (request.Selects table row) :=
  inferInstanceAs (Decidable
    (∀ filter ∈ request.filters, ∃ v ∈ table.cell? row filter.column, filter.Admits v))

/-! ## Conditions -/

variable {table : Table} {row : Row}

namespace Predicate

/-- A flat conjunction holds exactly when all its parts do. -/
theorem holds_all (parts : List Predicate) :
    holds table row (all parts) = true ↔ ∀ part ∈ parts, holds table row part = true := by
  rw [all, holds_ofConjuncts, List.all_flatMap, List.all_eq_true]
  simp only [all_conjuncts]

/-- A disjunction holds exactly when one of its alternatives does. -/
theorem holds_any (parts : List Predicate) :
    holds table row (any parts) = true ↔ ∃ part ∈ parts, holds table row part = true := by
  match parts with
  | [] => simp [any, holds, holdsAny]
  | [only] => simp [any]
  | first :: second :: rest =>
    change holdsAny table row (first :: second :: rest) = true ↔ _
    rw [holdsAny_eq_any, List.any_eq_true]

end Predicate

namespace ColumnFilter

variable {filter : ColumnFilter} {column : String}

/-- The conditions of a range hold exactly when the cell stands to every bound as it should. -/
theorem holds_rangeParts (range : RangeFilter) :
    (∀ part ∈ rangeParts column range, part.holds table row = true) ↔
      ∀ bound ∈ range.bounds, ∃ v ∈ table.cell? row column, bound.operator.Relates v bound.value := by
  simp only [rangeParts, List.forall_mem_map, Predicate.holds, Option.any_eq_true,
    Predicate.comparesAs_iff, Option.mem_def]

/-- The condition of a list holds exactly when the cell has a value that the list admits. -/
theorem holds_listPart (list : ListFilter) :
    (listPart column list).holds table row = true ↔ ∃ v ∈ table.cell? row column, list.Admits v := by
  simp only [listPart, Predicate.holds, Option.any_eq_true, Option.mem_def]
  refine exists_congr fun v => and_congr_right fun _ => ?_
  have hany : (list.values.any fun listed => listed.equals v) = true ↔
      ∃ listed ∈ list.values, v.compare? listed = some .eq := by
    simp only [List.any_eq_true, Value.equals, decide_eq_true_eq]
    exact exists_congr fun listed => and_congr_right fun _ => Value.compare?_eq_eq_comm
  unfold ListFilter.Admits
  cases list.operator with
  | isIn | equal => rw [ListOperator.isNegated, Bool.bne_false, hany]
  | notIn | notEqual =>
    rw [ListOperator.isNegated, Bool.bne_true, Bool.not_eq_true', ← Bool.not_eq_true, hany]
    simp only [not_exists, not_and]

/-- The condition of a pattern holds exactly when the cell has a value that the pattern admits. -/
theorem holds_patternPart (pattern : MatchFilter) :
    (patternPart column pattern).holds table row = true ↔
      ∃ v ∈ table.cell? row column, pattern.Admits v := by
  have htext (wanted : String) : (Predicate.text column pattern.mode wanted).holds table row = true ↔
      ∃ v ∈ table.cell? row column, ∃ stored ∈ v.asText?, pattern.mode.Matches stored wanted := by
    simp only [Predicate.holds, Option.any_eq_true, Option.bind_eq_some_iff, MatchMode.accepts_iff,
      Option.mem_def]
    constructor
    · intro h
      obtain ⟨stored, ⟨v, hv, hstored⟩, hmatches⟩ := h
      exact ⟨v, hv, stored, hstored, hmatches⟩
    · intro h
      obtain ⟨v, hv, stored, hstored, hmatches⟩ := h
      exact ⟨stored, ⟨v, hv, hstored⟩, hmatches⟩
  rw [patternPart, Predicate.holds_any]
  constructor
  · intro h
    obtain ⟨part, hpart, hholds⟩ := h
    obtain ⟨wanted, hwanted, rfl⟩ := List.mem_map.1 hpart
    obtain ⟨v, hv, stored, hstored, hmatches⟩ := (htext wanted).1 hholds
    exact ⟨v, hv, stored, hstored, wanted, hwanted, hmatches⟩
  · intro h
    obtain ⟨v, hv, stored, hstored, wanted, hwanted, hmatches⟩ := h
    exact ⟨_, List.mem_map_of_mem hwanted, (htext wanted).2 ⟨v, hv, stored, hstored, hmatches⟩⟩

/-- The conditions of a filter are those of its range, of its list and of its pattern. -/
theorem mem_parts {part : Predicate} : part ∈ filter.parts ↔
    (∃ range ∈ filter.range, part ∈ rangeParts filter.column range) ∨
      (∃ list ∈ filter.list, listPart filter.column list = part) ∨
      ∃ pattern ∈ filter.pattern, patternPart filter.column pattern = part := by
  simp only [parts, List.mem_append, List.mem_flatMap, Option.mem_toList, Option.map_eq_some_iff,
    Option.mem_def, or_assoc]

/-- The condition of a filter holds exactly when each of its constraints does. -/
theorem holds_predicate_iff_parts :
    filter.predicate.holds table row = true ↔
      (∀ range ∈ filter.range, ∀ bound ∈ range.bounds,
        ∃ v ∈ table.cell? row filter.column, bound.operator.Relates v bound.value) ∧
      (∀ list ∈ filter.list, ∃ v ∈ table.cell? row filter.column, list.Admits v) ∧
      ∀ pattern ∈ filter.pattern, ∃ v ∈ table.cell? row filter.column, pattern.Admits v := by
  rw [predicate, Predicate.holds_all]
  constructor
  · intro h
    refine ⟨fun range hrange => (holds_rangeParts range).1 fun part hpart => ?_,
      fun list hlist => (holds_listPart list).1 ?_,
      fun pattern hpattern => (holds_patternPart pattern).1 ?_⟩
    · exact h part (mem_parts.2 (Or.inl ⟨range, hrange, hpart⟩))
    · exact h _ (mem_parts.2 (Or.inr (Or.inl ⟨list, hlist, rfl⟩)))
    · exact h _ (mem_parts.2 (Or.inr (Or.inr ⟨pattern, hpattern, rfl⟩)))
  · intro h part hpart
    obtain ⟨hranges, hlists, hpatterns⟩ := h
    rcases mem_parts.1 hpart with ⟨range, hrange, hmem⟩ | ⟨list, hlist, rfl⟩ | ⟨pattern, hpattern, rfl⟩
    · exact (holds_rangeParts range).2 (hranges range hrange) part hmem
    · exact (holds_listPart list).2 (hlists list hlist)
    · exact (holds_patternPart pattern).2 (hpatterns pattern hpattern)

/-- An active filter has a bound, a list or a pattern. -/
theorem isActive_iff : filter.isActive = true ↔
    (∃ range ∈ filter.range, ∃ bound, bound ∈ range.bounds) ∨ (∃ list, list ∈ filter.list) ∨
      ∃ pattern, pattern ∈ filter.pattern := by
  have hbounds (range : RangeFilter) :
      (!range.isOpen) = true ↔ ∃ bound, bound ∈ range.bounds := by
    obtain ⟨_ | lower, _ | upper⟩ := range <;> simp [RangeFilter.isOpen, RangeFilter.bounds]
  simp only [isActive, Bool.or_eq_true, Option.any_eq_true, hbounds, Option.isSome_iff_exists,
    Option.mem_def, or_assoc]

/-- The condition of an active filter holds exactly when the cell has a value that is admitted. -/
theorem holds_predicate (hactive : filter.isActive = true) :
    filter.predicate.holds table row = true ↔
      ∃ v ∈ table.cell? row filter.column, filter.Admits v := by
  rw [holds_predicate_iff_parts]
  constructor
  · intro h
    obtain ⟨hrange, hlist, hpattern⟩ := h
    have hvalue : ∃ v, v ∈ table.cell? row filter.column := by
      rcases isActive_iff.1 hactive with ⟨range, hmem, bound, hbound⟩ | ⟨list, hmem⟩ | ⟨pattern, hmem⟩
      · exact (hrange range hmem bound hbound).imp fun _ h => h.1
      · exact (hlist list hmem).imp fun _ h => h.1
      · exact (hpattern pattern hmem).imp fun _ h => h.1
    obtain ⟨v, hv⟩ := hvalue
    have hsame {p : Value → Prop} (h : ∃ w ∈ table.cell? row filter.column, p w) : p v := by
      obtain ⟨w, hw, hp⟩ := h
      exact Option.mem_unique hw hv ▸ hp
    exact ⟨v, hv, fun range hmem bound hbound => hsame (hrange range hmem bound hbound),
      fun list hmem => hsame (hlist list hmem), fun pattern hmem => hsame (hpattern pattern hmem)⟩
  · intro h
    obtain ⟨v, hv, hrange, hlist, hpattern⟩ := h
    exact ⟨fun range hmem bound hbound => ⟨v, hv, hrange range hmem bound hbound⟩,
      fun list hmem => ⟨v, hv, hlist list hmem⟩, fun pattern hmem => ⟨v, hv, hpattern pattern hmem⟩⟩

end ColumnFilter

/-- A cell has a value when it holds one that is equal. -/
theorem Predicate.holds_eq_iff {name : String} {v : Value} :
    (Predicate.eq name v).holds table row = true ↔
      ∃ stored ∈ table.cell? row name, stored.compare? v = some .eq := by
  change (ColumnFilter.listPart name ⟨.isIn, [v]⟩).holds table row = true ↔ _
  simp only [ColumnFilter.holds_listPart, ListFilter.Admits, List.mem_singleton, exists_eq_left]

namespace Request

variable {request : Request}

/-- The constraints of a column are only kept when they are active. -/
theorem isActive_of_decodeColumn {params : Params} {column : Column} {filter : ColumnFilter}
    (h : decodeColumn params column = .ok (some filter)) : filter.isActive = true := by
  simp only [decodeColumn, Failure.bind_eq_ok_iff, Except.ok.injEq, Option.ite_none_right_eq_some,
    Option.some.injEq] at h
  obtain ⟨range, _, list, _, pattern, _, hactive, rfl⟩ := h
  exact hactive

/-- The filters of decoded columns are those that the columns have one by one. -/
theorem mem_of_decodeColumns {params : Params} {columns : List Column} {filters : List ColumnFilter}
    (h : decodeColumns params columns = .ok filters) {filter : ColumnFilter} (hmem : filter ∈ filters) :
    ∃ column ∈ columns, decodeColumn params column = .ok (some filter) := by
  induction columns generalizing filters with
  | nil =>
    rw [decodeColumns, Except.ok.injEq] at h
    simp [← h] at hmem
  | cons column rest ih =>
    simp only [decodeColumns, Failure.bind_eq_ok_iff, Except.ok.injEq] at h
    obtain ⟨first, hfirst, more, hmore, rfl⟩ := h
    rcases List.mem_append.1 hmem with hmem | hmem
    · exact ⟨column, List.mem_cons_self, Option.mem_toList.1 hmem ▸ hfirst⟩
    · obtain ⟨other, hother, hdecoded⟩ := ih hmore hmem
      exact ⟨other, List.mem_cons_of_mem _ hother, hdecoded⟩

/-- Every filter of a decoded request belongs to a declared column. -/
theorem mem_of_decode {params : Params} {settings : Settings}
    (h : decode params table settings = .ok request) {filter : ColumnFilter}
    (hmem : filter ∈ request.filters) :
    ∃ column ∈ table.columns, decodeColumn params column = .ok (some filter) := by
  simp only [decode, Failure.bind_eq_ok_iff, Except.ok.injEq] at h
  obtain ⟨filters, hfilters, window, _, order, _, rfl⟩ := h
  exact mem_of_decodeColumns hfilters hmem

/-- The condition of a decoded request holds of exactly the rows that the request selects. -/
theorem holds_predicate {params : Params} {settings : Settings}
    (h : decode params table settings = .ok request) :
    request.predicate.holds table row = true ↔ request.Selects table row := by
  rw [predicate, Predicate.holds_all, List.forall_mem_map]
  refine forall_congr' fun filter => forall_congr' fun hmem => ?_
  obtain ⟨column, _, hdecoded⟩ := mem_of_decode h hmem
  exact ColumnFilter.holds_predicate (isActive_of_decodeColumn hdecoded)

end Request

end TableQuery
