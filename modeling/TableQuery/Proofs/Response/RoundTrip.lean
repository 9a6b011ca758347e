import TableQuery.Proofs.Engine.Totals
import TableQuery.Response

/-!
# Listings read back

In the JSON form of a result row its related rows stand beside its columns, as one more member. A listing
is read back as it was exactly when no row has a column of this member's name, and the total fits a word.
The columns keep their order then, and a relationship that leads to no rows is still told from one that
was not asked for. Schemas reserve the name, so that every listing over rows in memory is read back.
-/

namespace TableQuery

namespace Json

variable {α : Type} {read : Json → Option α} {write : α → Json}

/-- Items that are read back one by one are read back as a list. -/
theorem toList?_map {items : List α} (h : ∀ a ∈ items, read (write a) = some a) :
    toList? read (.arr (items.map write)) = some items := by
  rw [toList?]
  induction items with
  | nil => rfl
  | cons a rest ih =>
    rw [List.map_cons, List.mapM_cons, h a List.mem_cons_self,
      ih fun b hb => h b (List.mem_cons_of_mem a hb)]
    rfl

/-- Every item of a list that is read is read from some value. -/
theorem exists_of_mem_toList? {value : Json} {items : List α} (h : toList? read value = some items)
    {a : α} (ha : a ∈ items) : ∃ item, read item = some a := by
  cases value with
  | arr values =>
    rw [toList?] at h
    induction values generalizing items with
    | nil =>
      cases h
      contradiction
    | cons value rest ih =>
      simp only [List.mapM_cons, Option.bind_eq_bind, Option.bind_eq_some_iff] at h
      obtain ⟨first, hfirst, more, hmore, h⟩ := h
      cases h
      rcases List.mem_cons.1 ha with rfl | ha
      · exact ⟨value, hfirst⟩
      · exact ih ha hmore
  | _ => contradiction

/-- Values that are read back one by one are read back as a map, under their names. -/
theorem toNameMap?_map {m : NameMap α} (h : ∀ a, read (write a) = some a) :
    toNameMap? read (.obj (m.entries.map fun entry => (entry.1, write entry.2))) = some m := by
  have hmembers (entries : List (String × α)) :
      (entries.map fun entry => (entry.1, write entry.2)).mapM
        (fun member => (read member.2).map fun value => (member.1, value)) = some entries := by
    induction entries with
    | nil => rfl
    | cons entry rest ih =>
      rw [List.map_cons, List.mapM_cons, ih, h]
      rfl
  rw [toNameMap?, hmembers, Option.map_some, NameMap.ofList_entries]

/-- A number is read back as a word exactly when it is below the greatest one. -/
theorem toWord?_int_iff {n : Nat} : toWord? (.int n) = some n ↔ n < Decimal.wordBound := by
  rw [toWord?]
  split <;> simp <;> omega

end Json

namespace Row

/-- A row is made of its fields. -/
theorem ofList_fields (row : Row) : ofList row.fields = row := by
  have hfields := fields_ofList row.nodup
  generalize ofList row.fields = made at hfields
  cases made
  cases row
  cases hfields
  rfl

/-- A row is read back from its JSON form. -/
theorem ofJson?_toJson (row : Row) : ofJson? row.toJson = some row := by
  rw [toJson, ofJson?, ofList_fields]

/-- A row has no fields but those that are set. -/
theorem mem_of_mem_ofList {fields : List (String × Json)} {name : String}
    (h : name ∈ (ofList fields).fields.map Prod.fst) : name ∈ fields.map Prod.fst := by
  have hset (row : Row) (h : name ∈ (fields.foldl (fun row field => row.set field.1 field.2)
      row).fields.map Prod.fst) : name ∈ row.fields.map Prod.fst ∨ name ∈ fields.map Prod.fst := by
    clear * - h
    induction fields generalizing row with
    | nil => exact Or.inl h
    | cons first rest ih =>
      rcases ih _ h with h | h
      · change name ∈ (Json.setMember first.1 first.2 row.fields).map Prod.fst at h
        rw [Json.map_fst_setMember] at h
        split at h
        · exact Or.inl h
        · rcases List.mem_append.1 h with h | h
          · exact Or.inl h
          · exact Or.inr (List.mem_singleton.1 h ▸ List.mem_cons_self)
      · exact Or.inr (List.mem_cons_of_mem _ h)
  rcases hset empty h with h | h
  · contradiction
  · exact h

end Row

namespace ResultRow

/-- No column of a row has the name of the member for its related rows. -/
def Separable (row : ResultRow) : Prop := relatedMember ∉ row.columns.fields.map Prod.fst

variable {row : ResultRow}

/-- Related rows are read back. -/
theorem toNameMap?_relatedJson (related : NameMap (List Row)) :
    Json.toNameMap? (Json.toList? Row.ofJson?) (relatedJson related) = some related :=
  Json.toNameMap?_map fun _ => Json.toList?_map fun row _ => row.ofJson?_toJson

/-- A row is read back if its columns can be told from its related rows. -/
theorem ofJson?_toJson (h : row.Separable) : ofJson? row.toJson = some row := by
  have hother : ∀ field ∈ row.columns.fields, field.1 ≠ relatedMember := fun field hfield heq =>
    h (heq ▸ List.mem_map_of_mem hfield)
  have hlookup : (row.columns.fields ++ [(relatedMember, relatedJson row.related)]).lookup
      relatedMember = some (relatedJson row.related) := by
    rw [List.lookup_append, List.lookup_eq_none_iff.2 fun field hfield =>
      bne_iff_ne.2 (hother field hfield).symm]
    simp
  have hcolumns : (row.columns.fields ++ [(relatedMember, relatedJson row.related)]).filter
      (fun member => member.1 ≠ relatedMember) = row.columns.fields := by
    rw [List.filter_append, List.filter_eq_self.2 fun field hfield => by simpa using hother field hfield]
    simp
  rw [toJson, ofJson?, hlookup, Json.defaulted, toNameMap?_relatedJson, hcolumns, Row.ofList_fields]
  rfl

/-- A row that is read has separable columns. -/
theorem separable_of_ofJson? {value : Json} (h : ofJson? value = some row) : row.Separable := by
  cases value with
  | obj members =>
    simp only [ofJson?, Option.bind_eq_bind, Option.bind_eq_some_iff, Option.pure_def,
      Option.some.injEq] at h
    obtain ⟨related, _, rfl⟩ := h
    intro hmem
    obtain ⟨member, hmember, hname⟩ := List.mem_map.1 (Row.mem_of_mem_ofList hmem)
    have hkept := (List.mem_filter.1 hmember).2
    simp [hname] at hkept
  | _ => contradiction

end ResultRow

namespace Listing

/-- No row of a listing has a column of the name of the member for related rows. -/
def Separable (listing : Listing) : Prop := ∀ row ∈ listing.result, row.Separable

variable {listing : Listing}

/-- A listing is read from its two fields. -/
theorem ofJson?_of_record? {value total result : Json}
    (h : value.record? ["total", "result"] = some [some total, some result]) :
    ofJson? value = (Json.toWord? total).bind fun total =>
      (Json.toList? ResultRow.ofJson? result).bind fun result => some ⟨total, result⟩ := by
  rw [ofJson?, h]
  rfl

/-- A listing is read back exactly when its total fits a word and its rows are separable. -/
theorem ofJson?_toJson_iff :
    ofJson? listing.toJson = some listing ↔
      listing.total < Decimal.wordBound ∧ listing.Separable := by
  have hrecord : listing.toJson.record? ["total", "result"] =
      some [some (.int listing.total), some (.arr (listing.result.map ResultRow.toJson))] := by
    simp [toJson, Json.record?, List.lookup_cons]
  rw [ofJson?_of_record? hrecord]
  constructor
  · intro h
    simp only [Option.bind_eq_some_iff, Option.some.injEq] at h
    obtain ⟨total, htotal, result, hresult, rfl⟩ := h
    refine ⟨Json.toWord?_int_iff.1 htotal, fun row hrow => ?_⟩
    obtain ⟨value, hvalue⟩ := Json.exists_of_mem_toList? hresult hrow
    exact ResultRow.separable_of_ofJson? hvalue
  · intro h
    obtain ⟨htotal, hrows⟩ := h
    rw [Json.toWord?_int_iff.2 htotal, Json.toList?_map fun row hrow =>
      ResultRow.ofJson?_toJson (hrows row hrow), Option.bind_some, Option.bind_some]

end Listing

namespace Engine

variable {engine : Engine} {table : Table} {name : String} {params : Params} {scope : Predicate}
  {memory : Memory} {listing : Listing}

/-- The columns of a listing are those of its table, none of which has the reserved name. -/
theorem separable_of_listScoped (htable : engine.registry.table? name = some table)
    (h : (engine.listScoped table params scope).outcome memory.source = .ok listing) :
    listing.Separable := by
  obtain ⟨plan, hprepare, hexecute⟩ := outcome_listScoped_eq_ok_iff.1 h
  obtain ⟨request, _, hplan⟩ := prepare_eq_ok_iff.1 hprepare
  obtain ⟨found, hfound, _, hresult⟩ :=
    outcome_execute memory htable (Registry.planned_of_plan hplan)
  obtain rfl : found = listing := Except.ok.inj (hfound.symm.trans hexecute)
  have hsound := Registry.sound_of_validate engine.valid htable
  intro row hrow hmem
  have hselected : row.columns ∈ memory.select table plan.page :=
    hresult ▸ List.mem_map_of_mem hrow
  obtain ⟨stored, _, hproject⟩ := List.mem_map.1 hselected
  rw [← hproject, Table.fields_project hsound.columns_nodup, Table.shown, List.map_map] at hmem
  obtain ⟨column, hcolumn, hname⟩ := List.mem_map.1 hmem
  exact hsound.columns_not_reserved column hcolumn hname

/-- A listing is read back from its JSON form exactly when its total fits a word and no row has a column
of the name that is reserved for related rows. No listing over rows in memory, nested or not, has such a
row. -/
theorem listings_read_back :
    (∀ listing : Listing, Listing.ofJson? listing.toJson = some listing ↔
      listing.total < Decimal.wordBound ∧
        ∀ row ∈ listing.result, relatedMember ∉ row.columns.fields.map Prod.fst) ∧
    ∀ (engine : Engine) (memory : Memory) (listing : Listing),
      ((∃ name params, (engine.list name params).outcome memory.source = .ok listing) ∨
        ∃ parent id child params,
          (engine.listNested parent id child params).outcome memory.source = .ok listing) →
      ∀ row ∈ listing.result, relatedMember ∉ row.columns.fields.map Prod.fst := by
  refine ⟨fun listing => Listing.ofJson?_toJson_iff, ?_⟩
  intro engine memory listing h
  rcases h with ⟨name, params, hlist⟩ | ⟨parent, id, child, params, hnested⟩
  · obtain ⟨table, htable, hscoped⟩ := outcome_list_eq_ok_iff.1 hlist
    exact separable_of_listScoped htable hscoped
  · obtain ⟨_, table, _, _, _, _, _, htable, _, _, _, hscoped⟩ := outcome_listNested_eq_ok_iff.1 hnested
    exact separable_of_listScoped htable hscoped

/-- Two rows of the greatest total: the first was asked for its author, who is missing, and holds the
reserved name inside a cell; the second was not asked. A stored field of the reserved name is not shown. -/
theorem listings_read_back_books :
    let asked : ResultRow := ⟨.ofList [("id", .int 7),
      ("title", .obj [("relationship", .arr [.null, .str "x"])])], NameMap.empty.insert "author" []⟩
    let unasked : ResultRow := ⟨.ofList [("title", .str ""), ("id", .int 8)], .empty⟩
    let listing : Listing := ⟨0xFFFFFFFFFFFFFFFF, [asked, unasked]⟩
    let memory := Memory.empty.append "book" [.ofList [("id", .int 7), ("relationship", .int 1)]]
    Listing.ofJson? listing.toJson = some listing ∧
    ∃ shown, (library.list "book" ⟨[("relationship", "author")]⟩).outcome memory.source = .ok shown ∧
      ∀ row ∈ shown.result, relatedMember ∉ row.columns.fields.map Prod.fst := by
  intro asked unasked listing memory
  have htable : library.registry.table? "book" = some Registry.book := rfl
  obtain ⟨shown, hshown⟩ := exists_outcome_list ⟨[("relationship", "author")]⟩ memory htable rfl
  obtain ⟨hread, hproduced⟩ := listings_read_back
  exact ⟨(hread listing).2 (by decide), shown, hshown,
    hproduced library memory shown (Or.inl ⟨_, _, hshown⟩)⟩

end Engine

end TableQuery
