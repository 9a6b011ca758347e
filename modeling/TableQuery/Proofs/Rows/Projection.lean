import TableQuery.Cell
import TableQuery.Proofs.Schema.Soundness

/-!
# Projected rows

A table with distinct columns shows of a stored row exactly its columns, in order, with null in place
of a missing cell. What a projected row holds in a column is read as the same typed value as before.
-/

namespace TableQuery

/-- Setting a member of a new name puts it at the end. -/
theorem Json.setMember_of_notMem {name : String} {value : Json} {members : List (String × Json)}
    (h : name ∉ members.map Prod.fst) : setMember name value members = members ++ [(name, value)] := by
  induction members with
  | nil => rfl
  | cons first rest ih =>
    simp only [List.map_cons, List.mem_cons, not_or] at h
    simp only [setMember, Ne.symm h.1, if_false, ih h.2, List.cons_append]

/-- Fields of distinct names that are set one after another stand in that order. -/
theorem Row.fields_ofList {fields : List (String × Json)} (h : (fields.map Prod.fst).Nodup) :
    (Row.ofList fields).fields = fields := by
  have hset (row : Row) (hfresh : (row.fields ++ fields).map Prod.fst |>.Nodup) :
      (fields.foldl (fun row field => row.set field.1 field.2) row).fields = row.fields ++ fields := by
    clear h
    induction fields generalizing row with
    | nil => simp
    | cons first rest ih =>
      have hnew : first.1 ∉ row.fields.map Prod.fst := by
        simp only [List.map_append, List.nodup_append, List.map_cons, List.mem_cons] at hfresh
        exact fun hmem => hfresh.2.2 _ hmem _ (Or.inl rfl) rfl
      have hfields : (row.set first.1 first.2).fields = row.fields ++ [first] :=
        Json.setMember_of_notMem hnew
      rw [List.foldl_cons, ih _ (by simpa [hfields] using hfresh), hfields, List.append_assoc,
        List.singleton_append]
  simpa [Row.ofList, Row.empty] using hset Row.empty (by simpa [Row.empty] using h)

namespace Table

variable {table : Table}

/-- What a table shows of a row: its columns in order, a missing cell as null. -/
def shown (table : Table) (row : Row) : List (String × Json) :=
  table.columns.map fun column => (column.name, (row.get? column.name).getD .null)

/-- A projected row has exactly the columns of its table. -/
theorem fields_project (hnodup : (table.columns.map Column.name).Nodup) (row : Row) :
    (table.project row).fields = table.shown row := by
  refine Row.fields_ofList ?_
  simpa only [List.map_map, Function.comp_def] using hnodup

/-- Looking up a name in what is said of each column finds what is said of the column of that name. -/
theorem lookup_columns {α : Type} (table : Table) (say : Column → α) (name : String) :
    (table.columns.map fun column => (column.name, say column)).lookup name =
      (table.column? name).map say := by
  unfold column?
  generalize table.columns = columns
  induction columns with
  | nil => rfl
  | cons first rest ih =>
    by_cases h : first.name = name
    · simp [h]
    · simpa [h, List.lookup_cons, beq_false_of_ne (Ne.symm h)] using ih

/-- A declared column is shown with the cell of its name. -/
theorem lookup_shown {name : String} {column : Column} (h : table.column? name = some column)
    (row : Row) : (table.shown row).lookup name = some ((row.get? name).getD .null) := by
  rw [shown, lookup_columns, h, Option.map_some, (column?_eq_some h).2]

/-- Projecting a row changes none of its typed cells. -/
theorem cell?_project (hnodup : (table.columns.map Column.name).Nodup) (row : Row) (name : String) :
    table.cell? (table.project row) name = table.cell? row name := by
  unfold cell?
  cases hcolumn : table.column? name with
  | none => rfl
  | some column =>
    simp only [Option.bind_some, Row.get?, fields_project hnodup, lookup_shown hcolumn]
    cases row.fields.lookup name with
    | none => cases column.type <;> rfl
    | some cell => rfl

end Table

end TableQuery
