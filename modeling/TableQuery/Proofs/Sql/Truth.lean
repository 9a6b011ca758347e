import TableQuery.Proofs.Sql.Junctions
import TableQuery.Proofs.Sql.Storage

/-!
# The truth of conditions

A well-typed condition, written as an SQL expression, is true of a stored row exactly when it holds
of the row. Where a cell has no value the expression is unknown and the condition does not hold;
neither is negated above a leaf, so that truth alone is preserved by every junction.
-/

namespace TableQuery.Sql

variable {table : Table} {row : Row} {stored : StoredRow} {p : Predicate} {v w : Value}
  {type : ColumnType} {name : String}

/-! ## Leaves -/

/-- A column of a stored row evaluates to the stored form of the typed cell. -/
theorem eval_column (table : Table) (row : Row) (name : String) :
    (Term.column name).eval (storeRow table row) =
      ((table.cell? row name).map storeValue).getD .null :=
  lookup_storeRow table row name

/-- A stored value is compared with another one that is not null, whatever their order. -/
theorem compare?_storeValue (hv : v.Fits type) (hw : w.Fits type) :
    (storeValue v).compare? (storeValue w) = some ((storeValue v).order (storeValue w)) := by
  have hleft := storeValue_ne_null hv
  have hright := storeValue_ne_null hw
  unfold Stored.compare?
  split
  next heq => exact absurd heq hleft
  next heq _ => exact absurd heq hright
  next => rfl

/-- The comparison of a range operator accepts what the operator does. -/
theorem accepts_ofRange (operator : RangeOperator) (order : Ordering) :
    (Comparison.ofRange operator).accepts order = operator.accepts order := by
  cases operator <;> rfl

/-- A comparison is true of a stored row exactly when it holds of the row, if the dates that it
compares have years of four digits. -/
theorem eval_ofCompare {column : Column} (hcolumn : table.column? name = some column)
    (hfits : v.Fits column.type)
    (hyears : ∀ cell ∈ table.cell? row name, cell.HasFourDigitYear ∧ v.HasFourDigitYear)
    (operator : RangeOperator) :
    (Condition.ofCompare name operator v).eval (storeRow table row) = some true ↔
      (Predicate.compare name operator v).holds table row = true := by
  rw [Condition.ofCompare, Expression.eval, eval_column, Predicate.holds]
  cases hcell : table.cell? row name with
  | none => simp [Stored.compare?]
  | some cell =>
    have hcellfits := Table.fits_of_cell? hcolumn hcell
    obtain ⟨hcellyear, hyear⟩ := hyears cell hcell
    have horder := order_storeValue hcellfits hfits hcellyear hyear
    change ((storeValue cell).compare? (storeValue v)).map _ = some true ↔
      Predicate.comparesAs operator cell v = true
    rw [compare?_storeValue hcellfits hfits, Option.map_some, accepts_ofRange,
      Predicate.comparesAs, horder, Option.any_some, Option.some.injEq]

/-- Whether null is one of some cells is unknown. -/
theorem isIn?_null {cells : List Stored} (h : cells ≠ []) : isIn? .null cells = none := by
  induction cells with
  | nil => contradiction
  | cons cell rest ih =>
    change or? none (isIn? .null rest) = none
    cases rest with
    | nil => rfl
    | cons next rest =>
      rw [ih (List.cons_ne_nil _ _)]
      rfl

/-- A stored value is one of several when one of the values equals it. -/
theorem isIn?_storeValue {values : List Value} (hv : v.Fits type)
    (hvalues : ∀ w ∈ values, w.Fits type) :
    isIn? (storeValue v) (values.map storeValue) = some (values.any (·.equals v)) := by
  induction values with
  | nil => rfl
  | cons w rest ih =>
    have hw := hvalues w List.mem_cons_self
    have hrest := ih fun other hother => hvalues other (List.mem_cons_of_mem w hother)
    have hequal : decide ((storeValue v).order (storeValue w) = .eq) = w.equals v := by
      rw [Value.equals, decide_eq_decide, order_storeValue_eq_eq_iff hv hw]
      exact Value.compare?_eq_eq_comm
    change or? (((storeValue v).compare? (storeValue w)).map _) (isIn? (storeValue v) _) = _
    rw [hrest, compare?_storeValue hv hw, Option.map_some, hequal, List.any_cons]
    cases w.equals v <;> cases rest.any (·.equals v) <;> rfl

/-- The condition of a membership asks whether the cell is one of the values, also of a single
one. -/
theorem eval_ofMembership {values : List Value} (hvalues : values ≠ []) (negated : Bool) :
    (Condition.ofMembership name values negated).eval stored =
      (isIn? ((Term.column name).eval stored) (values.map storeValue)).map (· != negated) := by
  match values with
  | [v] =>
    have halone (truth : Option Bool) : or? truth (some false) = truth := by
      rcases truth with _ | _ | _ <;> rfl
    change _ = (or? _ (some false)).map (· != negated)
    rw [halone, Option.map_map]
    refine congrArg (Option.map · (((Term.column name).eval stored).compare? (storeValue v))) ?_
    funext order
    cases negated <;> cases order <;> rfl
  | v :: w :: rest =>
    change ((isIn? _ (((v :: w :: rest).map Bound.value).map Bound.stored)).map _) = _
    rw [List.map_map]
    rfl

/-- A membership is true of a stored row exactly when it holds of the row, if a cell from which
nothing is excluded has a value. -/
theorem eval_ofMembership_iff {column : Column} (hcolumn : table.column? name = some column)
    {values : List Value} (hfits : ∀ v ∈ values, v.Fits column.type) {negated : Bool}
    (hvalue : negated = true → values = [] → (table.cell? row name).isSome = true) :
    (Condition.ofMembership name values negated).eval (storeRow table row) = some true ↔
      (Predicate.membership name values negated).holds table row = true := by
  by_cases hvalues : values = []
  · subst hvalues
    rw [Predicate.holds]
    cases negated with
    | true =>
      obtain ⟨cell, hcell⟩ := Option.isSome_iff_exists.1 (hvalue rfl rfl)
      rw [hcell]
      exact iff_of_true rfl rfl
    | false =>
      have hfalse : (Condition.ofMembership name [] false).eval (storeRow table row) = some false :=
        rfl
      rw [hfalse]
      simp
  · rw [eval_ofMembership hvalues, eval_column, Predicate.holds]
    cases hcell : table.cell? row name with
    | none =>
      have hunknown := isIn?_null (mt List.map_eq_nil_iff.1 hvalues : values.map storeValue ≠ [])
      rw [Option.map_none, Option.getD_none, hunknown]
      simp
    | some cell =>
      have hcellfits := Table.fits_of_cell? hcolumn hcell
      rw [Option.map_some, Option.getD_some, isIn?_storeValue hcellfits hfits]
      simp

/-- A text is found at some place exactly when it occurs. -/
theorem positionOf_pos_iff (wanted within : List Char) :
    0 < positionOf wanted within ↔ Text.occursIn wanted within = true := by
  induction within with
  | nil => cases wanted <;> simp [positionOf, Text.occursIn]
  | cons c rest ih =>
    rw [positionOf, Text.occursIn, Bool.or_eq_true, ← ih]
    split
    next hstarts => simp [hstarts]
    next hstarts =>
      split
      next hzero => simp [hstarts, hzero]
      next n hplace => simp [hplace]

/-- Whether null matches a text is unknown. -/
theorem eval_ofText_null (h : (stored.lookup name).getD .null = .null) (mode : MatchMode)
    (wanted : String) : (Condition.ofText name mode wanted).eval stored = none := by
  cases mode with
  | exact =>
    simp only [Condition.ofText, Expression.eval, Term.eval, h]
    rfl
  | folded =>
    simp only [Condition.ofText, Expression.eval, Term.eval, h]
    rfl
  | contains =>
    simp only [Condition.ofText, Expression.eval, Term.eval, h]
    rfl

/-- A stored text matches as the mode says. -/
theorem eval_ofText_text {s : String} (h : (stored.lookup name).getD .null = .text s)
    (mode : MatchMode) (wanted : String) :
    (Condition.ofText name mode wanted).eval stored = some (mode.accepts s wanted) := by
  have hequal (a b : String) : decide (compare a b = .eq) = decide (a = b) :=
    decide_eq_decide.2 Std.LawfulEqCmp.compare_eq_iff_eq
  cases mode with
  | exact =>
    simp only [Condition.ofText, Expression.eval, Term.eval, h]
    exact congrArg some (hequal s wanted)
  | folded =>
    simp only [Condition.ofText, Expression.eval, Term.eval, h]
    exact congrArg some (hequal (Text.foldCase s) (Text.foldCase wanted))
  | contains =>
    simp only [Condition.ofText, Expression.eval, Term.eval, h]
    refine congrArg some ?_
    rw [MatchMode.accepts, Bool.eq_iff_iff, ← positionOf_pos_iff]
    change decide (compare (positionOf wanted.toList s.toList : Int) 0 = .gt) = true ↔ _
    rw [decide_eq_true_iff, Int.compare_eq_gt]
    omega

/-- A text match is true of a stored row exactly when it holds of the row. -/
theorem eval_ofText {column : Column} (hcolumn : table.column? name = some column)
    (htext : column.type = .text) (mode : MatchMode) (wanted : String) :
    (Condition.ofText name mode wanted).eval (storeRow table row) = some true ↔
      (Predicate.text name mode wanted).holds table row = true := by
  have hstored := lookup_storeRow table row name
  rw [Predicate.holds]
  cases hcell : table.cell? row name with
  | none =>
    rw [hcell, Option.map_none, Option.getD_none] at hstored
    rw [eval_ofText_null hstored]
    simp
  | some cell =>
    have hfits := Table.fits_of_cell? hcolumn hcell
    rw [htext] at hfits
    cases hfits with
    | text s =>
      rw [hcell, Option.map_some, Option.getD_some, storeValue] at hstored
      rw [eval_ofText_text hstored, Option.some.injEq]
      rfl

/-! ## Conditions -/

/-- The values of a leaf fit the type of its column, and only texts are matched. -/
def LeafFits (type : ColumnType) : Predicate → Prop
  | .compare _ _ v => v.Fits type
  | .membership _ values _ => ∀ v ∈ values, v.Fits type
  | .text _ _ _ => type = .text
  | _ => True

/-- What a leaf asks of a cell is the same in a database: dates that are compared have years of four
digits, and nothing at all is only excluded from a cell with a value. -/
def LeafAgrees (cell : Option Value) : Predicate → Prop
  | .compare _ _ v => ∀ stored ∈ cell, stored.HasFourDigitYear ∧ v.HasFourDigitYear
  | .membership _ values negated => negated = true → values = [] → cell.isSome = true
  | _ => True

/-- Every leaf of a condition names a declared column that its values fit. -/
def Typed (table : Table) (p : Predicate) : Prop :=
  ∀ name leaf, p.Leaf name leaf →
    ∃ column, table.column? name = some column ∧ LeafFits column.type leaf

/-- A leaf is true of a stored row exactly when it holds of the row. -/
theorem eval_leaf {leaf : Predicate} {column : Column} (habout : leaf.About name)
    (hcolumn : table.column? name = some column) (hfits : LeafFits column.type leaf)
    (hagrees : LeafAgrees (table.cell? row name) leaf) :
    (Expression.ofPredicate leaf).eval (storeRow table row) = some true ↔
      leaf.holds table row = true := by
  cases habout with
  | compare operator v => exact eval_ofCompare hcolumn hfits hagrees _
  | membership values negated => exact eval_ofMembership_iff hcolumn hfits hagrees
  | text mode wanted => exact eval_ofText hcolumn hfits _ _

/-- A condition with typed leaves is true of a stored row exactly when it holds of the row. -/
theorem eval_of_typed (h : Typed table p)
    (hagrees : ∀ name leaf, p.Leaf name leaf → LeafAgrees (table.cell? row name) leaf) :
    (Expression.ofPredicate p).eval (storeRow table row) = some true ↔
      p.holds table row = true := by
  refine eval_of_leaves p fun name leaf hleaf => ?_
  obtain ⟨column, hcolumn, hfits⟩ := h name leaf hleaf
  exact eval_leaf hleaf.about hcolumn hfits (hagrees name leaf hleaf)

/-- The leaves of a well-typed condition are typed. -/
theorem typed_of_wellTyped (h : p.WellTyped table) : Typed table p := by
  intro name leaf hleaf
  have htyped := h.of_leaf hleaf
  cases hleaf.about with
  | compare =>
    cases htyped with
    | compare declared fits range => exact ⟨_, declared, fits⟩
  | membership =>
    cases htyped with
    | membership declared fits nonempty => exact ⟨_, declared, fits⟩
  | text =>
    cases htyped with
    | text declared text => exact ⟨_, declared, text⟩

/-- A well-typed condition is true of a stored row exactly when it holds of the row. -/
theorem eval_ofPredicate (h : p.WellTyped table) (hrow : Storable table row)
    (hbounds : ∀ v, p.Bounds v → v.HasFourDigitYear) :
    (Expression.ofPredicate p).eval (storeRow table row) = some true ↔
      p.holds table row = true := by
  refine eval_of_typed (typed_of_wellTyped h) fun name leaf hleaf => ?_
  have htyped := h.of_leaf hleaf
  cases hleaf.about with
  | compare =>
    cases htyped with
    | compare declared fits range =>
      exact fun cell hcell =>
        ⟨(hrow.cell? declared cell hcell).year, hbounds _ (.of_leaf hleaf (.compare _ _ _))⟩
  | membership =>
    cases htyped with
    | membership declared fits nonempty =>
      exact fun hnegated hnil => absurd hnil (nonempty hnegated)
  | text => trivial

/-- A statement selects the stored rows whose rows satisfy the condition. -/
theorem satisfies_condition? (h : p.WellTyped table) (hrow : Storable table row)
    (hbounds : ∀ v, p.Bounds v → v.HasFourDigitYear) :
    satisfies (Statement.condition? p) (storeRow table row) = p.holds table row := by
  rw [Statement.condition?]
  split
  next halways =>
    cases p with
    | always => rfl
    | _ => contradiction
  next =>
    rw [Bool.eq_iff_iff, ← eval_ofPredicate h hrow hbounds]
    exact decide_eq_true_iff

end TableQuery.Sql
