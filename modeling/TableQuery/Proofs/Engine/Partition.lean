import TableQuery.Proofs.Engine.Totals
import TableQuery.Proofs.Request.Opposites

/-!
# Opposite listings

Two listings that give a column opposite operators with the same values count every stored row with a
value in this column once, between them, and no other row. This needs a column whose name is declared
with one type, as in every table of a valid registry: a name that is declared twice is constrained twice,
and a value of one type cannot be compared with a bound that is read as another.
-/

namespace TableQuery

variable {table : Table} {column : Column} {name : String} {first second : Predicate}

/-- Conditions that divide the rows with a value in a column count each of these rows once. -/
theorem Predicate.Divides.countP_add (h : Predicate.Divides table name first second) (rows : List Row) :
    rows.countP (first.holds table) + rows.countP (second.holds table) =
      rows.countP fun row => (table.cell? row name).isSome := by
  let typed (row : Row) : Bool := (table.cell? row name).isSome
  have hfirst (row : Row) : first.holds table row = (first.holds table row && typed row) := by
    cases hcell : table.cell? row name with
    | none => simp [(h.untyped row hcell).1]
    | some v => simp [typed, hcell]
  have hsecond (row : Row) : second.holds table row = (!first.holds table row && typed row) := by
    cases hcell : table.cell? row name with
    | none => simp [(h.untyped row hcell).2, typed, hcell]
    | some v => simp [h.typed row v hcell, typed, hcell]
  -- Neither condition counts a row without a value, so these rows are left out first.
  calc rows.countP (first.holds table) + rows.countP (second.holds table)
    _ = (rows.filter typed).countP (first.holds table) +
          (rows.filter typed).countP (fun row => !first.holds table row) := by
        rw [List.countP_filter, List.countP_filter]
        congr 1
        · exact List.countP_congr fun row _ => by rw [← hfirst]
        · exact List.countP_congr fun row _ => by rw [← hsecond]
    _ = (rows.filter typed).length := by
        simp [List.length_eq_countP_add_countP (first.holds table)]
    _ = rows.countP typed := List.countP_eq_length_filter.symm

namespace Engine

variable {engine : Engine} {params first second : Params} {request : Request}

/-- A listing by one column succeeds, and counts the rows of its condition. -/
theorem exists_outcome_list_of_selectsBy {admitted : Value → Prop} (memory : Memory)
    (htable : engine.registry.table? name = some table)
    (hdecode : Request.decode params table engine.settings = .ok request)
    (h : Request.SelectsBy table column.name admitted request) :
    ∃ listing, (engine.list name params).outcome memory.source = .ok listing ∧
      listing.total = (memory.rows table.name).countP (request.predicate.holds table) := by
  have hkeys : SortKey.resolve table request.order = .ok [] := by
    rw [h.order]
    rfl
  have hrelationships : engine.registry.resolveRelationships table request.relationships = .ok [] := by
    rw [h.relationships]
    rfl
  have hplan := Registry.plan_eq_ok hkeys hrelationships .always
  obtain ⟨listing, hlisting⟩ := exists_outcome_list params memory htable
    (prepare_eq_ok_iff.2 ⟨request, hdecode, hplan⟩)
  refine ⟨listing, hlisting, ?_⟩
  rw [list_eq htable] at hlisting
  obtain ⟨decoded, hdecoded, htotal, _⟩ := of_outcome_listScoped htable hlisting
  obtain rfl : request = decoded := Except.ok.inj (hdecode.symm.trans hdecoded)
  rw [htotal, Memory.matching, ← List.countP_eq_length_filter]
  refine List.countP_congr fun row _ => ?_
  simp [Predicate.holds_all, Predicate.holds]

/-- Two requests that give a column opposite operators with the same values are both decoded. A row whose
cell is read as a value of the column satisfies exactly one of them, and a row whose cell is missing, null
or of another form neither. So the totals of the two listings add up to the number of stored rows with a
value. -/
theorem opposite_listings_partition (halone : table.DeclaresAlone column)
    (h : Params.Oppose column first second) :
    (∀ row, table.cell? row column.name = (row.get? column.name).bind (Value.ofJson? column.type)) ∧
    Value.ofJson? column.type .null = none ∧
    (∀ settings, ∃ request opposed,
      Request.decode first table settings = .ok request ∧
        Request.decode second table settings = .ok opposed ∧
        Predicate.Divides table column.name request.predicate opposed.predicate ∧
        ∀ rows : List Row, rows.countP (request.predicate.holds table) +
          rows.countP (opposed.predicate.holds table) =
            rows.countP fun row => (table.cell? row column.name).isSome) ∧
    ∀ (engine : Engine) (name : String) (memory : Memory),
      engine.registry.table? name = some table →
      ∃ listing opposed, (engine.list name first).outcome memory.source = .ok listing ∧
        (engine.list name second).outcome memory.source = .ok opposed ∧
        listing.total + opposed.total =
          (memory.rows table.name).countP fun row => (table.cell? row column.name).isSome := by
  have hnull : Value.ofJson? column.type .null = none := by
    cases column.type <;> rfl
  refine ⟨halone.cell?_eq, hnull, fun settings => ?_, fun engine name memory htable => ?_⟩
  · obtain ⟨request, opposed, _, _, hrequest, hopposed, _, _, hdivides⟩ :=
      Request.exists_divides_of_oppose settings halone h
    exact ⟨request, opposed, hrequest, hopposed, hdivides, hdivides.countP_add⟩
  · obtain ⟨request, opposed, _, _, hrequest, hopposed, hselects, hexcludes, hdivides⟩ :=
      Request.exists_divides_of_oppose engine.settings halone h
    obtain ⟨listing, hlisting, htotal⟩ :=
      exists_outcome_list_of_selectsBy memory htable hrequest hselects
    obtain ⟨other, hother, hrest⟩ :=
      exists_outcome_list_of_selectsBy memory htable hopposed hexcludes
    exact ⟨listing, other, hlisting, hother, by rw [htotal, hrest, hdivides.countP_add]⟩

/-- Authors born after a day, and authors born up to it, which is what an upper bound says unless it
names an operator. -/
theorem opposite_listings_partition_born :
    let later := Params.ofQuery
      "born____from=1815-12-10&born____from_____comparison_operator=Greater_than"
    let earlier := Params.ofQuery "born____to=1815-12-10"
    ∀ memory : Memory, ∃ listing opposed,
      (library.list "author" later).outcome memory.source = .ok listing ∧
        (library.list "author" earlier).outcome memory.source = .ok opposed ∧
        listing.total + opposed.total =
          (memory.rows "author").countP fun row => (Registry.author.cell? row "born").isSome := by
  intro later earlier memory
  let born : Column := ⟨"born", .date, true⟩
  have hlater : later = ⟨[(Facet.lower.key "born", "1815-12-10"),
      (Facet.lowerOperator.key "born", RangeOperator.greater.literal)]⟩ := by decide +kernel
  have hearlier : earlier = ⟨[(Facet.upper.key "born", "1815-12-10")]⟩ := by decide +kernel
  have hread : Value.read? born.type "1815-12-10" = some (.date ⟨1815, 12, 10, by decide⟩) := by
    decide +kernel
  have hbelow : later.Bounds born.name .greater "1815-12-10" := by
    rw [hlater]
    refine .lower ⟨⟨fun other hother facet => ?_, by decide⟩, rfl, fun facet hvalue hoperator => ?_⟩
      (Or.inl rfl)
    · simp [Params.getAll, Facet.key_inj, hother.symm, born]
    · simp [Params.getAll, Facet.key_inj, hvalue.symm, hoperator.symm, born]
  have habove : earlier.Bounds born.name RangeOperator.greater.opposite "1815-12-10" := by
    rw [hearlier]
    refine .upper ⟨⟨fun other hother facet => ?_, by decide⟩, rfl, fun facet hvalue _ => ?_⟩
      (Or.inr ⟨rfl, rfl⟩)
    · simp [Params.getAll, Facet.key_inj, hother.symm, born]
    · simp [Params.getAll, Facet.key_inj, hvalue.symm, born]
  have hauthor : library.registry.table? "author" = some Registry.author := rfl
  have halone : Registry.author.DeclaresAlone born :=
    (Registry.sound_of_validate library.valid hauthor).declaresAlone (by decide)
  obtain ⟨_, _, _, htotals⟩ :=
    opposite_listings_partition halone (.bounds rfl hread hbelow habove)
  exact htotals library "author" memory hauthor

/-- Visits whose day is declared twice, as a date and as a date-time: a text is read as a bound of both
types, and a day satisfies neither of two opposite bounds, since it cannot be compared with the second
one. -/
theorem neither_of_visit :
    let visit : Table := {
      name := "visit"
      columns := [⟨"day", .date, false⟩, ⟨"day", .dateTime, false⟩]
      primaryKey := ["day"] }
    let row := Row.ofList [("day", .str "2024-05-01")]
    let later : Params := ⟨[("day____from", "2024-01-01"),
      ("day____from_____comparison_operator", "Greater_than")]⟩
    let earlier : Params := ⟨[("day____from", "2024-01-01"),
      ("day____from_____comparison_operator", "Less_than_or_equal_to")]⟩
    (Value.read? .date "2024-01-01").isSome ∧ (visit.cell? row "day").isSome ∧
      (Request.decode later visit {}).map (fun request => request.predicate.holds visit row) =
        .ok false ∧
      (Request.decode earlier visit {}).map (fun request => request.predicate.holds visit row) =
        .ok false := by
  decide +kernel

end Engine

end TableQuery
