import TableQuery.Proofs.Calendar.TextOrder
import TableQuery.Proofs.Rows.Arrangement
import TableQuery.Proofs.Rows.Projection
import TableQuery.Proofs.Value.RoundTrip
import TableQuery.Sql.Database

/-!
# Stored rows

What a database holds of rows in memory. Stored cells are equal exactly when the typed cells are, and
stand in the same order if the years of dates have four digits. A stored row is read back as the row
that its table shows.
-/

namespace TableQuery

/-- Data of one signed magnitude are the same, unless one is the negative zero. -/
theorem Binary64.eq_of_key_eq {x y : Binary64} (hx : x ≠ zero true) (hy : y ≠ zero true)
    (h : x.key = y.key) : x = y := by
  rcases key_eq_iff.1 h with rfl | ⟨_ | _, rfl, rfl⟩
  · rfl
  · exact absurd rfl hy
  · exact absurd rfl hx

namespace Value

/-- A date or a date-time of a value has a year of four digits. -/
def HasFourDigitYear : Value → Prop
  | date d => Calendar.HasFourDigits d.year
  | dateTime t => Calendar.HasFourDigits t.date.year
  | _ => True

/-- A value that a database keeps in a column of a type. The year of a date has four digits, and no
number is the negative zero, which databases do not tell from the other one. -/
structure Storable (v : Value) (type : ColumnType) : Prop where
  fits : v.Fits type
  year : v.HasFourDigitYear
  not_negative_zero : v ≠ .float (.zero true)

/-- Storable values of one type that are equal are the same. -/
theorem Storable.eq_of_compare?_eq {v w : Value} {type : ColumnType} (hv : v.Storable type)
    (hw : w.Storable type) (h : v.compare? w = some .eq) : v = w := by
  by_cases hfloat : v.type = .float
  · have hsame := hw.fits.type_eq.trans (hv.fits.type_eq.symm.trans hfloat)
    cases v with
    | float x =>
      cases w with
      | float y =>
        cases hv.fits with
        | float _ hx =>
          cases hw.fits with
          | float _ hy =>
            rw [Value.compare?, Binary64.compare?_of_isFinite hx hy, Option.some.injEq,
              Std.LawfulEqCmp.compare_eq_iff_eq] at h
            have hxzero : x ≠ .zero true := fun heq => hv.not_negative_zero (congrArg _ heq)
            have hyzero : y ≠ .zero true := fun heq => hw.not_negative_zero (congrArg _ heq)
            rw [Binary64.eq_of_key_eq hxzero hyzero h]
      | _ => contradiction
    | _ => contradiction
  · exact Value.eq_of_compare?_eq (hv.fits.type_eq.trans hw.fits.type_eq.symm) hfloat h

end Value

namespace Sql

open Std

variable {v w : Value} {type : ColumnType} {table : Table} {row : Row} {name : String}

/-! ## Cells -/

/-- A finite number is stored as it is. -/
theorem storeValue_float {x : Binary64} (h : x.isFinite = true) :
    storeValue (.float x) = .real x := by
  have hnan : x.isNan = false := by
    simp only [Binary64.isFinite, Binary64.isNan, decide_eq_true_eq, decide_eq_false_iff_not] at *
    omega
  rw [storeValue, hnan]
  rfl

/-- A fitting value is not stored as null. -/
theorem storeValue_ne_null (h : v.Fits type) : storeValue v ≠ .null := by
  cases h with
  | float x hx => rw [storeValue_float hx]; simp
  | _ => simp [storeValue]

/-- Stored values of one type are ordered as the values, if their years have four digits. -/
theorem order_storeValue (hv : v.Fits type) (hw : w.Fits type) (hvyear : v.HasFourDigitYear)
    (hwyear : w.HasFourDigitYear) : v.compare? w = some ((storeValue v).order (storeValue w)) := by
  cases hv with
  | float x hx =>
    cases hw with
    | float y hy =>
      rw [storeValue_float hx, storeValue_float hy]
      exact Binary64.compare?_of_isFinite hx hy
  | boolean p =>
    cases hw with
    | boolean q => cases p <;> cases q <;> rfl
  | date d =>
    cases hw with
    | date e =>
      have horder := Calendar.compare_writeDate hvyear hwyear
      simp only [Value.compare?, storeValue, Stored.order, compare_string, String.toList_ofList,
        horder]
  | dateTime t =>
    cases hw with
    | dateTime u =>
      have horder := Calendar.compare_writeDateTime ' ' hvyear hwyear
      simp only [Value.compare?, storeValue, Stored.order, compare_string, String.toList_ofList,
        horder]
  | _ =>
    cases hw
    rfl

/-- Stored values of one type are equal exactly when the values are. -/
theorem order_storeValue_eq_eq_iff (hv : v.Fits type) (hw : w.Fits type) :
    (storeValue v).order (storeValue w) = .eq ↔ v.compare? w = some .eq := by
  have hvalue := hv
  have hother := hw
  cases hvalue with
  | date d =>
    cases hother with
    | date e =>
      simp only [Value.compare?, storeValue, Stored.order, Option.some.injEq,
        LawfulEqCmp.compare_eq_iff_eq]
      refine ⟨fun h => ?_, fun h => h ▸ rfl⟩
      have hread := congrArg Calendar.readDate? (String.ofList_injective h)
      rwa [Calendar.readDate?_writeDate, Calendar.readDate?_writeDate, Option.some.injEq] at hread
  | dateTime t =>
    cases hother with
    | dateTime u =>
      simp only [Value.compare?, storeValue, Stored.order, Option.some.injEq,
        LawfulEqCmp.compare_eq_iff_eq]
      refine ⟨fun h => ?_, fun h => h ▸ rfl⟩
      have hread := congrArg Calendar.readBlanked? (String.ofList_injective h)
      rwa [Calendar.readBlanked?_writeDateTime, Calendar.readBlanked?_writeDateTime,
        Option.some.injEq] at hread
  | _ =>
    cases hother
    rw [order_storeValue hv hw trivial trivial, Option.some.injEq]

/-- A stored value is read back. -/
theorem readStored_storeValue (h : v.Fits type) : readStored type (storeValue v) = .ok (some v) := by
  cases h with
  | float x hx => rw [storeValue_float hx]; rfl
  | integer n =>
    simp only [readStored, storeValue, Json.toInt64?, Decimal.toInt64?_toInt, Option.map_some]
  | boolean b => cases b <;> rfl
  | date d =>
    simp only [readStored, storeValue, String.toList_ofList, Calendar.readDate?_writeDate,
      Option.map_some]
  | dateTime t =>
    simp only [readStored, storeValue, String.toList_ofList, Calendar.readBlanked?_writeDateTime,
      Option.map_some]
  | text s => rfl
  | uuid u => rfl

/-- The order of cells is that of their stored forms, in which a missing value is null. -/
theorem order_storedCells {a b : Option Value} (ha : ∀ v ∈ a, v.Storable type)
    (hb : ∀ v ∈ b, v.Storable type) :
    ((a.map storeValue).getD .null).order ((b.map storeValue).getD .null) =
      Value.compareCells a b := by
  have hrank {v : Value} (h : v.Fits type) : 0 < (storeValue v).rank := by
    have hne := storeValue_ne_null h
    cases hstored : storeValue v with
    | null => contradiction
    | _ => exact Nat.zero_lt_succ _
  cases a with
  | none =>
    cases b with
    | none => rfl
    | some w =>
      have hpos := hrank (hb w rfl).fits
      change Stored.order .null (storeValue w) = .lt
      cases hstored : storeValue w with
      | null => rw [hstored] at hpos; contradiction
      | _ => rfl
  | some v =>
    cases b with
    | none =>
      have hpos := hrank (ha v rfl).fits
      change Stored.order (storeValue v) .null = .gt
      cases hstored : storeValue v with
      | null => rw [hstored] at hpos; contradiction
      | _ => rfl
    | some w =>
      change _ = (v.compare? w).getD .eq
      rw [order_storeValue (ha v rfl).fits (hb w rfl).fits (ha v rfl).year (hb w rfl).year]
      rfl

/-! ## Rows -/

/-- A stored row holds in a column what the typed cell is stored as, or null. -/
theorem lookup_storeRow (table : Table) (row : Row) (name : String) :
    ((storeRow table row).lookup name).getD .null =
      ((table.cell? row name).map storeValue).getD .null := by
  rw [storeRow, Table.lookup_columns]
  cases hcolumn : table.column? name with
  | none => rw [Table.cell?, hcolumn]; rfl
  | some column => rw [Option.map_some, (Table.column?_eq_some hcolumn).2, Option.getD_some]

/-- A row that can be stored: each cell of its table is missing, null, or the JSON form of a
storable value. -/
def Storable (table : Table) (row : Row) : Prop :=
  ∀ column ∈ table.columns, ∀ cell ∈ row.get? column.name,
    cell = .null ∨ ∃ v : Value, v.Storable column.type ∧ cell = v.toJson

/-- The typed cells of a row that can be stored are storable. -/
theorem Storable.cell? (h : Storable table row) {column : Column}
    (hcolumn : table.column? name = some column) :
    ∀ v ∈ table.cell? row name, v.Storable column.type := by
  intro v hv
  obtain ⟨hdeclared, rfl⟩ := Table.column?_eq_some hcolumn
  obtain ⟨found, hfound, cell, hcell, hread⟩ := Table.cell?_eq_some_iff.1 hv
  rw [hcolumn, Option.some.injEq] at hfound
  subst hfound
  rcases h column hdeclared cell hcell with rfl | ⟨w, hw, rfl⟩
  · rw [Value.ofJson?_null] at hread
    contradiction
  · rw [hw.fits.ofJson?_toJson, Option.some.injEq] at hread
    exact hread ▸ hw

/-- A cell of a row that can be stored is the JSON form of its typed value, and null without one. -/
theorem Storable.toJson_cell? (h : Storable table row) {column : Column}
    (hcolumn : table.column? column.name = some column) :
    ((table.cell? row column.name).map Value.toJson).getD .null =
      (row.get? column.name).getD .null := by
  rw [Table.cell?, hcolumn, Option.bind_some]
  cases hcell : row.get? column.name with
  | none => rfl
  | some cell =>
    rw [Option.bind_some]
    rcases h column (Table.column?_eq_some hcolumn).1 cell hcell with rfl | ⟨v, hv, rfl⟩
    · rw [Value.ofJson?_null]
      rfl
    · rw [hv.fits.ofJson?_toJson]
      rfl

/-- Stored rows are ordered as the rows. -/
theorem compareStored_storeRow {keys : List SortKey} {a b : Row} (ha : Storable table a)
    (hb : Storable table b)
    (hdeclared : ∀ key ∈ keys, ∃ column, table.column? key.column = some column) :
    compareStored keys (storeRow table a) (storeRow table b) = SortKey.compareAll table keys a b := by
  induction keys with
  | nil => rfl
  | cons key keys ih =>
    obtain ⟨column, hcolumn⟩ := hdeclared key List.mem_cons_self
    have hcells := order_storedCells (ha.cell? hcolumn) (hb.cell? hcolumn)
    have hrest := ih fun other hother => hdeclared other (List.mem_cons_of_mem key hother)
    change (key.direction.apply ((((storeRow table a).lookup key.column).getD .null).order
      (((storeRow table b).lookup key.column).getD .null))).then
        (compareStored keys (storeRow table a) (storeRow table b)) = _
    rw [hrest, lookup_storeRow, lookup_storeRow, hcells]
    rfl

/-- A stored row is read back as what its table shows of the row. -/
theorem readRow_storeRow (hnodup : (table.columns.map Column.name).Nodup) (h : Storable table row) :
    readRow table (storeRow table row) = .ok (table.project row) := by
  have hfields : (table.columns.mapM fun column => do
      let value ← readStored column.type (((storeRow table row).lookup column.name).getD .null)
      .ok (column.name, (value.map Value.toJson).getD .null)) =
        .ok (table.columns.map fun column =>
          (column.name, (row.get? column.name).getD .null)) := by
    refine Failure.mapM_eq_ok _ fun column hmem => ?_
    have hcolumn := Table.column?_of_mem hnodup hmem
    have hread : readStored column.type (((storeRow table row).lookup column.name).getD .null) =
        .ok (table.cell? row column.name) := by
      rw [lookup_storeRow]
      cases hcell : table.cell? row column.name with
      | none => cases column.type <;> rfl
      | some v => exact readStored_storeValue (Table.fits_of_cell? hcolumn hcell)
    rw [hread, ← h.toJson_cell? hcolumn]
    rfl
  exact Failure.bind_eq_ok_iff.2 ⟨_, hfields, rfl⟩

end Sql

end TableQuery
