import TableQuery.Cell
import TableQuery.Source.Ordering
import TableQuery.Value.Text

/-!
# Comparing values of one type

Every value that is read from a cell or from a request fits the type it is read as: it is of that
type, and it is no NaN and no infinity. Fitting values of one type are always comparable, and their
order is transitive; cells of one column are therefore totally preordered, missing values first.
Equal values are the same value, except for the two floating-point zeros.
-/

namespace TableQuery

open Std

instance : TransCmp Date.compare := inferInstanceAs (TransCmp (compareLex _ (compareLex _ _)))

instance : TransCmp TimeOfDay.compare :=
  inferInstanceAs (TransCmp (compareLex _ (compareLex _ (compareLex _ _))))

instance : LawfulEqCmp Date.compare where
  eq_of_compare {a b} h := by
    simp only [Date.compare, compareLex_eq_eq, compareOn, LawfulEqOrd.compare_eq_iff_eq] at h
    obtain ⟨hyear, hmonth, hday⟩ := h
    cases a
    cases b
    simp_all

instance : LawfulEqCmp TimeOfDay.compare where
  eq_of_compare {a b} h := by
    simp only [TimeOfDay.compare, compareLex_eq_eq, compareOn, LawfulEqOrd.compare_eq_iff_eq] at h
    obtain ⟨hhour, hminute, hsecond, hnanosecond⟩ := h
    cases a
    cases b
    simp_all

/-- Comparing parts of two things is transitive when the comparison of the parts is. -/
theorem transCmp_on {α β : Type} (cmp : β → β → Ordering) [TransCmp cmp] (part : α → β) :
    TransCmp fun a b => cmp (part a) (part b) where
  eq_swap := OrientedCmp.eq_swap
  isLE_trans := TransCmp.isLE_trans

/-- Letting everything tie is transitive. -/
theorem transCmp_tie (α : Type) : TransCmp fun _ _ : α => Ordering.eq :=
  have : OrientedCmp fun _ _ : α => Ordering.eq := ⟨rfl⟩
  ⟨fun _ _ => rfl⟩

/-- Not coming after is transitive. -/
theorem ne_gt_trans {α : Type} (cmp : α → α → Ordering) [TransCmp cmp] (a b c : α)
    (hab : decide (cmp a b ≠ .gt) = true) (hbc : decide (cmp b c ≠ .gt) = true) :
    decide (cmp a c ≠ .gt) = true := by
  simp only [decide_eq_true_eq, ← Ordering.isLE_iff_ne_gt] at hab hbc ⊢
  exact TransCmp.isLE_trans hab hbc

/-- Of two things one does not come after the other. -/
theorem ne_gt_total {α : Type} (cmp : α → α → Ordering) [OrientedCmp cmp] (a b : α) :
    (decide (cmp a b ≠ .gt) || decide (cmp b a ≠ .gt)) = true := by
  have hswap : cmp b a = (cmp a b).swap := OrientedCmp.eq_swap
  rw [hswap]
  cases cmp a b <;> rfl

/-- Merge sort by a transitive comparison puts nothing before what it comes after. -/
theorem pairwise_mergeSort_ne_gt {α : Type} (cmp : α → α → Ordering) [TransCmp cmp]
    (items : List α) :
    (items.mergeSort fun a b => cmp a b ≠ .gt).Pairwise fun a b => cmp a b ≠ .gt := by
  have hsorted := List.pairwise_mergeSort (ne_gt_trans cmp) (ne_gt_total cmp) items
  exact hsorted.imp of_decide_eq_true

instance : TransCmp DateTime.compare :=
  have := transCmp_on Date.compare DateTime.date
  have := transCmp_on TimeOfDay.compare DateTime.time
  inferInstanceAs (TransCmp (compareLex (fun a b : DateTime => a.date.compare b.date)
    fun a b => a.time.compare b.time))

instance : LawfulEqCmp DateTime.compare where
  eq_of_compare {a b} h := by
    simp only [DateTime.compare, Ordering.then_eq_eq, LawfulEqCmp.compare_eq_iff_eq] at h
    cases a
    cases b
    simp_all

instance : TransCmp Uuid.compare :=
  transCmp_on (fun a b : List (Fin 16) => compare a b) Uuid.digits

instance : LawfulEqCmp Uuid.compare where
  eq_of_compare {a b} h := by
    have hdigits : a.digits = b.digits := LawfulEqOrd.eq_of_compare h
    cases a
    cases b
    simp_all

namespace Binary64

/-- A finite datum is comparable with every finite datum, by their signed magnitudes. -/
theorem compare?_of_isFinite {x y : Binary64} (hx : x.isFinite = true) (hy : y.isFinite = true) :
    x.compare? y = some (compare x.key y.key) := by
  simp only [isFinite, decide_eq_true_eq] at hx hy
  have hnan : (x.isNan || y.isNan) = false := by
    simp only [isNan, Bool.or_eq_false_iff, decide_eq_false_iff_not]
    omega
  simp [compare?, hnan]

/-- Swapping two data swaps their order. -/
theorem compare?_swap (x y : Binary64) : y.compare? x = (x.compare? y).map Ordering.swap := by
  unfold compare?
  rw [Bool.or_comm y.isNan]
  split
  · rfl
  · exact congrArg some OrientedCmp.eq_swap

end Binary64

namespace Value

/-- A value that a column of a type can hold: of that type, and a real number if it is a number. -/
inductive Fits : Value → ColumnType → Prop
  | integer (n : Int64) : Fits (.integer n) .integer
  | float (x : Binary64) (finite : x.isFinite = true) : Fits (.float x) .float
  | text (s : String) : Fits (.text s) .text
  | boolean (b : Bool) : Fits (.boolean b) .boolean
  | date (d : Date) : Fits (.date d) .date
  | dateTime (t : DateTime) : Fits (.dateTime t) .dateTime
  | uuid (u : Uuid) : Fits (.uuid u) .uuid

variable {a b c v : Value} {type : ColumnType}

/-- A fitting value is of the type. -/
theorem Fits.type_eq (h : v.Fits type) : v.type = type := by
  cases h <;> rfl

/-- The datum that a number denotes in a cell is finite. -/
theorem isFinite_of_toBinary64? {cell : Json} {x : Binary64}
    (h : Json.toBinary64? cell = some x) : x.isFinite = true := by
  unfold Json.toBinary64? at h
  split at h
  · exact (Option.filter_eq_some_iff.1 h).2
  · exact (Option.filter_eq_some_iff.1 h).2
  · contradiction

/-- A value that is read from a cell fits the type it is read as. -/
theorem fits_of_ofJson? {cell : Json} (h : ofJson? type cell = some v) : v.Fits type := by
  have htype := type_of_ofJson? h
  subst htype
  cases v with
  | float x =>
    simp only [type, ofJson?, Option.map_eq_some_iff, float.injEq] at h
    obtain ⟨y, hy, rfl⟩ := h
    exact .float y (isFinite_of_toBinary64? hy)
  | _ => constructor

/-- A value that is read from a request fits the type it is read as. -/
theorem fits_of_read? {raw : String} (h : read? type raw = some v) : v.Fits type := by
  have htype := type_of_read? h
  subst htype
  cases v with
  | float x =>
    simp only [type, read?, Option.map_eq_some_iff, float.injEq] at h
    obtain ⟨y, hy, rfl⟩ := h
    exact .float y (Option.filter_eq_some_iff.1 hy).2
  | _ => constructor

/-- Swapping two values swaps their order; they stay incomparable if they are. -/
theorem compare?_swap (a b : Value) : b.compare? a = (a.compare? b).map Ordering.swap := by
  cases a <;> cases b <;> simp only [compare?, Option.map_none, Option.map_some, Option.some.injEq]
  all_goals first | exact OrientedCmp.eq_swap | exact Binary64.compare?_swap _ _

/-- Equality of values is symmetric. -/
theorem compare?_eq_eq_comm : a.compare? b = some .eq ↔ b.compare? a = some .eq := by
  rw [compare?_swap a b]
  rcases a.compare? b with _ | _ | _ | _ <;> decide

/-- Fitting values of one type are comparable. -/
theorem Fits.compare?_isSome (ha : a.Fits type) (hb : b.Fits type) : (a.compare? b).isSome := by
  cases ha with
  | float x hx =>
    cases hb with
    | float y hy => simp [compare?, Binary64.compare?_of_isFinite hx hy]
  | _ => cases hb; rfl

/-- The order of fitting values of one type is transitive. -/
theorem Fits.isLE_trans (ha : a.Fits type) (hb : b.Fits type) (hc : c.Fits type)
    (hab : ((a.compare? b).getD .eq).isLE) (hbc : ((b.compare? c).getD .eq).isLE) :
    ((a.compare? c).getD .eq).isLE := by
  cases ha with
  | float x hx =>
    cases hb with
    | float y hy =>
      cases hc with
      | float z hz =>
        simp only [compare?, Binary64.compare?_of_isFinite, hx, hy, hz, Option.getD_some]
          at hab hbc ⊢
        exact TransCmp.isLE_trans hab hbc
  | _ =>
    cases hb
    cases hc
    simp only [compare?, Option.getD_some] at hab hbc ⊢
    exact TransCmp.isLE_trans hab hbc

/-- Equality of fitting values of one type is transitive. -/
theorem Fits.compare?_eq_trans (ha : a.Fits type) (hb : b.Fits type) (hc : c.Fits type)
    (hab : a.compare? b = some .eq) (hbc : b.compare? c = some .eq) : a.compare? c = some .eq := by
  obtain ⟨order, horder⟩ := Option.isSome_iff_exists.1 (ha.compare?_isSome hc)
  have hle := ha.isLE_trans hb hc (by rw [hab]; rfl) (by rw [hbc]; rfl)
  have hge := hc.isLE_trans hb ha (by rw [compare?_eq_eq_comm.1 hbc]; rfl)
    (by rw [compare?_eq_eq_comm.1 hab]; rfl)
  rw [compare?_swap a c] at hge
  rw [horder] at hle hge ⊢
  cases order with
  | eq => rfl
  | lt => contradiction
  | gt => contradiction

/-- A fitting value equals itself. -/
theorem Fits.compare?_self (h : v.Fits type) : v.compare? v = some .eq := by
  cases h with
  | float x hx => exact Binary64.compare?_self hx
  | _ => exact congrArg some ReflCmp.compare_self

/-- Equal values of one type are the same value, unless they are floating-point zeros. -/
theorem eq_of_compare?_eq (htype : a.type = b.type) (hfloat : a.type ≠ .float)
    (h : a.compare? b = some .eq) : a = b := by
  cases a <;> cases b <;> first | contradiction | skip
  all_goals
    simp only [compare?, Option.some.injEq, LawfulEqCmp.compare_eq_iff_eq] at h
    first | exact congrArg _ h | exact congrArg _ (Int64.toInt_inj.1 h)

/-- The order of cells swaps with the cells. -/
theorem compareCells_swap (a b : Option Value) : compareCells a b = (compareCells b a).swap := by
  cases a with
  | none => cases b <;> rfl
  | some a =>
    cases b with
    | none => rfl
    | some b =>
      simp only [compareCells, compare?_swap b a]
      cases b.compare? a <;> rfl

/-- The order of cells of one type is transitive. -/
theorem compareCells_isLE_trans {a b c : Option Value} (ha : ∀ v ∈ a, v.Fits type)
    (hb : ∀ v ∈ b, v.Fits type) (hc : ∀ v ∈ c, v.Fits type)
    (hab : (compareCells a b).isLE) (hbc : (compareCells b c).isLE) : (compareCells a c).isLE := by
  cases a with
  | none => cases c <;> rfl
  | some a =>
    cases b with
    | none => contradiction
    | some b =>
      cases c with
      | none => contradiction
      | some c => exact (ha a rfl).isLE_trans (hb b rfl) (hc c rfl) hab hbc

end Value

namespace Table

variable {table : Table} {row : Row} {name : String} {v : Value}

/-- The typed value of a cell is read as the type of a declared column. -/
theorem cell?_eq_some_iff : table.cell? row name = some v ↔
    ∃ column, table.column? name = some column ∧
      ∃ cell, row.get? name = some cell ∧ Value.ofJson? column.type cell = some v := by
  simp only [cell?, Option.bind_eq_some_iff]

/-- The typed value of a cell fits the type of its column. -/
theorem fits_of_cell? {column : Column} (hcolumn : table.column? name = some column)
    (h : table.cell? row name = some v) : v.Fits column.type := by
  obtain ⟨found, hfound, _, _, hread⟩ := cell?_eq_some_iff.1 h
  rw [hcolumn, Option.some.injEq] at hfound
  exact hfound ▸ Value.fits_of_ofJson? hread

end Table

end TableQuery
