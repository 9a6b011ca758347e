import TableQuery.Proofs.Schema.Soundness
import TableQuery.Proofs.Sql.Truth

/-!
# What is rendered and what is meant

A condition of any shape, with any lists, is true of a stored row exactly when it holds of the row,
and no leaf is true where the cell has no value. Two things are excepted. The layout of dates puts
years outside 0 to 9999 elsewhere than the calendar, so that comparing their texts is not comparing
dates. And the comparison of numbers that stands for the exclusion of nothing is true also where the
cell has no value.
-/

namespace TableQuery.Sql

variable {table : Table} {row : Row} {name : String}

/-- No leaf holds of a row without a value in its column. -/
theorem holds_of_cell?_eq_none {leaf : Predicate} (habout : leaf.About name)
    (hcell : table.cell? row name = none) : leaf.holds table row = false := by
  cases habout with
  | compare | membership | text =>
    rw [Predicate.holds, hcell]
    rfl

/-- A condition whose leaves are typed is true of a stored row exactly when it holds of the row, if
the dates that it compares there have years of four digits and nothing at all is excluded only from
cells with values. Where a cell has no value, no leaf holds, and none is true but such an exclusion. -/
theorem eval_iff_holds {p : Predicate} (h : Typed table p) (row : Row) :
    ((∀ name leaf, p.Leaf name leaf → LeafAgrees (table.cell? row name) leaf) →
      ((Expression.ofPredicate p).eval (storeRow table row) = some true ↔
        p.holds table row = true)) ∧
    ∀ name leaf, p.Leaf name leaf → table.cell? row name = none →
      leaf.holds table row = false ∧
      (LeafAgrees none leaf →
        (Expression.ofPredicate leaf).eval (storeRow table row) ≠ some true) := by
  refine ⟨eval_of_typed h, fun name leaf hleaf hcell => ?_⟩
  have hholds := holds_of_cell?_eq_none hleaf.about hcell
  refine ⟨hholds, fun hagrees htrue => ?_⟩
  obtain ⟨column, hcolumn, hfits⟩ := h name leaf hleaf
  rw [eval_leaf hleaf.about hcolumn hfits (hcell ▸ hagrees), hholds] at htrue
  contradiction

/-- An author without a name, born in 1815, asked for with a disjunction inside a conjunction: the
comparison of dates holds, the match of the name does not, and nothing is excluded from the key. -/
theorem eval_iff_holds_author :
    let ada : Row := ⟨[("id", .int 1), ("name", .null), ("born", .str "1815-12-10")], by decide⟩
    let early : Predicate := .and [.or [.text "name" .contains "da",
      .compare "born" .less (.date ⟨1900, 1, 1, by decide⟩)], .membership "id" [] true]
    Typed Registry.author early ∧
    (Expression.ofPredicate early).eval (storeRow Registry.author ada) = some true := by
  intro ada early
  have htyped : Typed Registry.author early := by
    simp only [Typed, early, Predicate.forall_leaf_and, Predicate.forall_leaf_or, List.forall_mem_cons,
      (Predicate.About.text ..).forall_leaf, (Predicate.About.compare ..).forall_leaf,
      (Predicate.About.membership ..).forall_leaf, List.not_mem_nil, false_imp_iff, implies_true,
      and_true]
    exact ⟨⟨⟨_, rfl, rfl⟩, _, rfl, .date _⟩, _, rfl, fun _ hv => absurd hv List.not_mem_nil⟩
  have hagrees : ∀ name leaf, early.Leaf name leaf →
      LeafAgrees (Registry.author.cell? ada name) leaf := by
    simp only [early, Predicate.forall_leaf_and, Predicate.forall_leaf_or, List.forall_mem_cons,
      (Predicate.About.text ..).forall_leaf, (Predicate.About.compare ..).forall_leaf,
      (Predicate.About.membership ..).forall_leaf, List.not_mem_nil, false_imp_iff, implies_true,
      and_true]
    refine ⟨⟨trivial, fun stored hstored => ?_⟩, fun _ _ => rfl⟩
    obtain rfl : stored = .date ⟨1815, 12, 10, by decide⟩ := (Option.some.inj hstored).symm
    exact ⟨⟨by decide, by decide⟩, by decide, by decide⟩
  exact ⟨htyped, ((eval_iff_holds htyped ada).1 hagrees).2 (by decide)⟩

/-- A row whose cells are null or the JSON forms of values that their columns can hold. -/
def Canonical (table : Table) (row : Row) : Prop :=
  ∀ column ∈ table.columns, ∀ cell ∈ row.get? column.name,
    cell = .null ∨ ∃ v : Value, v.Fits column.type ∧ cell = v.toJson

/-- An author without a name, born on a date or at an unknown one. -/
def nameless (born : Option Date) : Row :=
  .ofList [("id", (Value.integer 1).toJson), ("name", .null),
    ("born", (born.map fun d => (Value.date d).toJson).getD .null)]

/-- Such an author is stored canonically. -/
theorem canonical_nameless (born : Option Date) : Canonical Registry.author (nameless born) := by
  intro column hcolumn cell hcell
  have hcolumns : column ∈ [(⟨"id", .integer, false⟩ : Column), ⟨"name", .text, true⟩,
      ⟨"born", .date, true⟩] := hcolumn
  simp only [List.mem_cons, List.not_mem_nil, or_false] at hcolumns
  rcases hcolumns with rfl | rfl | rfl
  · obtain rfl : (Value.integer 1).toJson = cell := Option.some.inj hcell
    exact Or.inr ⟨_, .integer 1, rfl⟩
  · obtain rfl : Json.null = cell := Option.some.inj hcell
    exact Or.inl rfl
  · obtain rfl : (born.map fun d => (Value.date d).toJson).getD .null = cell := Option.some.inj hcell
    cases born with
    | none => exact Or.inl rfl
    | some d => exact Or.inr ⟨_, .date d, rfl⟩

/-- Both exceptions are needed. The exclusion of nothing is true of an author without a name, of whom
it does not hold; and dates whose years are not all within 0 to 9999 are compared as texts, on either
side of these years. -/
theorem eval_ne_holds_nameless :
    let excluded : Predicate := .membership "name" [] true
    let after : Predicate := .compare "born" .greaterOrEqual (.date ⟨9999, 12, 31, by decide⟩)
    let before : Predicate := .compare "born" .lessOrEqual (.date ⟨-1, 12, 31, by decide⟩)
    let unborn : Row := nameless none
    let late : Row := nameless (some ⟨10000, 1, 1, by decide⟩)
    let ancient : Row := nameless (some ⟨-2, 1, 1, by decide⟩)
    (Typed Registry.author excluded ∧ Canonical Registry.author unborn ∧
      (Expression.ofPredicate excluded).eval (storeRow Registry.author unborn) = some true ∧
      excluded.holds Registry.author unborn = false) ∧
    (Typed Registry.author after ∧ Canonical Registry.author late ∧
      (Expression.ofPredicate after).eval (storeRow Registry.author late) = some false ∧
      after.holds Registry.author late = true) ∧
    (Typed Registry.author before ∧ Canonical Registry.author ancient ∧
      (Expression.ofPredicate before).eval (storeRow Registry.author ancient) = some false ∧
      before.holds Registry.author ancient = true) := by
  intro excluded after before unborn late ancient
  have hexcluded : Typed Registry.author excluded :=
    (Predicate.About.membership ..).forall_leaf.2 ⟨_, rfl, fun _ hv => absurd hv List.not_mem_nil⟩
  have hafter : Typed Registry.author after :=
    (Predicate.About.compare ..).forall_leaf.2 ⟨_, rfl, .date _⟩
  have hbefore : Typed Registry.author before :=
    (Predicate.About.compare ..).forall_leaf.2 ⟨_, rfl, .date _⟩
  exact ⟨⟨hexcluded, canonical_nameless none, by decide, by decide⟩,
    ⟨hafter, canonical_nameless _, by decide, by decide⟩,
    hbefore, canonical_nameless _, by decide, by decide⟩

end TableQuery.Sql
