import TableQuery.Proofs.Engine.Separation
import TableQuery.Proofs.Engine.Steps
import TableQuery.Proofs.Request.Insertion

/-!
# Expansions do not interfere

Every row that an operation shows comes from some page, with the lists of the requested relationships
attached. Which relationships are requested has no part in the rows of a listing and in its total. What
stands in one list is a function of the stored rows and of what the row holds in the local column, so
that two requests of any kind show the same list wherever the two rows hold the same.
-/

namespace TableQuery

/-- Cells with the same JSON form hold the same value, or none. -/
theorem Table.cell?_eq_of_toJson {table : Table} {row other : Row} {name : String}
    (h : (table.cell? row name).map Value.toJson = (table.cell? other name).map Value.toJson) :
    table.cell? row name = table.cell? other name := by
  obtain ⟨type, hfits⟩ := SortKey.exists_fits table name
  have hread (row : Row) :
      ((table.cell? row name).map Value.toJson).bind (Value.ofJson? type) = table.cell? row name := by
    cases hcell : table.cell? row name with
    | none => rfl
    | some v => exact (hfits row v hcell).ofJson?_toJson
  rw [← hread row, h, hread other]

variable {engine : Engine} {registry : Registry} {memory : Memory} {table : Table} {r : Relationship}
  {relationships : List Relationship} {name : String} {params other : Params} {scope : Predicate}
  {request : Request} {plan : Plan} {listing otherListing : Listing} {row shown : ResultRow}

/-- A result row comes from a page, with the rows that declared relationships of distinct names lead
to. -/
inductive Registry.Attached (registry : Registry) (memory : Memory) (table : Table)
    (relationships : List Relationship) : ResultRow → Prop
  | page {links : List Link} {parents : List Row} {parent : Row}
      (links_eq : registry.links table relationships = .ok links)
      (declared : ∀ r ∈ relationships, r ∈ table.relationships)
      (nodup : (relationships.map Relationship.name).Nodup) (mem : parent ∈ parents) :
      Attached registry memory table relationships (Link.attach table
        (links.map fun link => (link, link.fetched memory table parents)) parent)

namespace Registry.Attached

/-- The names on a row are those of the relationships. -/
theorem mem_names (h : registry.Attached memory table relationships row) {found : String} :
    found ∈ row.related.names ↔ found ∈ relationships.map Relationship.name := by
  cases h with
  | page links_eq _ nodup _ => exact Link.mem_names_attach links_eq nodup

/-- A list on a row that stands under the name of a declared relationship holds the rows that are
joined to the row. -/
theorem related?_eq_joined (hvalid : registry.validate = .ok ())
    (htable : registry.table? name = some table)
    (h : registry.Attached memory table relationships row) (hr : r ∈ table.relationships)
    (hexact : r.IsExact table) {children : List Row} (hchildren : row.related? r.name = some children) :
    ∃ target, registry.table? r.target = some target ∧
      children = memory.joined r table target row.columns := by
  have hname : r.name ∈ row.related.names := by
    rw [NameMap.mem_names_iff]
    exact Option.isSome_of_eq_some hchildren
  rw [h.mem_names] at hname
  cases h with
  | page links_eq declared nodup mem =>
    obtain ⟨s, hs, hsame⟩ := List.mem_map.1 hname
    have hnodup := (sound_of_validate hvalid htable).relationships_nodup
    obtain rfl : s = r := List.inj_on_of_nodup_map hnodup (declared s hs) hr hsame
    obtain ⟨target, htarget, hrelated⟩ :=
      Link.related?_attach_fetched memory hvalid htable links_eq declared nodup hs hexact mem
    exact ⟨target, htarget, Option.some.inj (hchildren.symm.trans hrelated)⟩

end Registry.Attached

namespace Request

/-- Parameters with other relationships are decoded to the same request with other relationships. -/
theorem decode_of_others (hothers : ∀ key, key ≠ relationshipKey → other.getAll key = params.getAll key)
    (table : Table) (settings : Settings) :
    decode other table settings = (decode params table settings).map fun request =>
      { request with relationships := (other.getSplit relationshipKey).eraseDups } := by
  have hcolumns : decodeColumns other table.columns = decodeColumns params table.columns :=
    decodeColumns_congr_of_notMem (fun key hkey => hothers key fun heq =>
      hkey (heq ▸ by decide)) table.columns
  have hwindow : decodeWindow other settings = decodeWindow params settings := by
    refine decodeWindow_congr (fun key hkey => hothers key fun heq => ?_) settings
    exact absurd (heq ▸ hkey) (by decide)
  have horder : other.getSplit orderKey = params.getSplit orderKey :=
    Params.getSplit_congr (hothers _ (by decide))
  rw [decode, decode, hcolumns, hwindow, horder]
  cases decodeColumns params table.columns with
  | error failure => rfl
  | ok filters =>
    cases decodeWindow params settings with
    | error failure => rfl
    | ok window => cases SortKey.readAll (params.getSplit orderKey) <;> rfl

end Request

namespace Engine

open Request (relationshipKey)

/-! ## Where rows come from -/

/-- The rows that a plan shows have its relationships attached. -/
theorem attached_of_expand {rows : List Row} {results : List ResultRow}
    (htable : engine.registry.table? name = some table)
    (hplanned : engine.registry.Planned table request scope plan)
    (hnodup : request.relationships.Nodup)
    (hexpand : (engine.registry.expand table rows plan.relationships).outcome memory.source =
      .ok results) :
    ∀ row ∈ results, engine.registry.Attached memory table plan.relationships row := by
  obtain ⟨links, hlinks⟩ := exists_links_of_planned htable hplanned
  rw [Registry.outcome_expand_of_links hlinks, Except.ok.injEq] at hexpand
  rw [← hexpand, List.forall_mem_map]
  exact fun parent hparent =>
    .page hlinks hplanned.declared (hplanned.names_eq.symm ▸ hnodup) hparent

/-- The rows of a listing have the requested relationships attached. -/
theorem attached_of_listScoped (htable : engine.registry.table? name = some table)
    (hlist : (engine.listScoped table params scope).outcome memory.source = .ok listing) :
    ∃ relationships, relationships.map Relationship.name =
        (params.getSplit relationshipKey).eraseDups ∧
      ∀ row ∈ listing.result, engine.registry.Attached memory table relationships row := by
  obtain ⟨plan, hprepare, hexecute⟩ := outcome_listScoped_eq_ok_iff.1 hlist
  obtain ⟨request, hrequest, hplan⟩ := prepare_eq_ok_iff.1 hprepare
  have hplanned := Registry.planned_of_plan hplan
  rw [outcome_execute_eq, Failure.bind_eq_ok_iff] at hexecute
  obtain ⟨results, hexpand, hlisting⟩ := hexecute
  have hresult : listing.result = results := (congrArg Listing.result (Except.ok.inj hlisting)).symm
  refine ⟨plan.relationships, ?_, ?_⟩
  · rw [hplanned.names_eq, Request.relationships_of_decode hrequest]
  · rw [hresult]
    exact attached_of_expand htable hplanned (Request.nodup_relationships hrequest) hexpand

/-- A row that is looked up has the requested relationships attached. -/
theorem attached_of_getOne {id : String} (htable : engine.registry.table? name = some table)
    (hone : (engine.getOne name id params).outcome memory.source = .ok row) :
    ∃ relationships, engine.registry.Attached memory table relationships row := by
  obtain ⟨found, _, _, plan, _, _, hfound, _, hprepare, _, hexpand⟩ := outcome_getOne_eq_ok_iff.1 hone
  obtain rfl : found = table := Option.some.inj (hfound.symm.trans htable)
  obtain ⟨request, hrequest, hplan⟩ := Failure.bind_eq_ok_iff.1 hprepare
  have hnodup : request.relationships.Nodup := Request.nodup_relationships hrequest
  have hattached := attached_of_expand htable (Registry.planned_of_plan hplan) hnodup hexpand
  exact ⟨plan.relationships, hattached row List.mem_cons_self⟩

/-- A row of a table that some request shows. -/
inductive Shows (engine : Engine) (memory : Memory) (table : Table) : ResultRow → Prop
  | list {name : String} {params : Params} {listing : Listing} {row : ResultRow}
      (table_eq : engine.registry.table? name = some table)
      (outcome_eq : (engine.list name params).outcome memory.source = .ok listing)
      (mem : row ∈ listing.result) : Shows engine memory table row
  | one {name id : String} {params : Params} {row : ResultRow}
      (table_eq : engine.registry.table? name = some table)
      (outcome_eq : (engine.getOne name id params).outcome memory.source = .ok row) :
      Shows engine memory table row
  | nested {parentName id name : String} {params : Params} {listing : Listing} {row : ResultRow}
      (table_eq : engine.registry.table? name = some table)
      (outcome_eq : (engine.listNested parentName id name params).outcome memory.source = .ok listing)
      (mem : row ∈ listing.result) : Shows engine memory table row

/-- Every row that is shown has relationships of its table attached. -/
theorem Shows.attached (h : engine.Shows memory table row) :
    ∃ name relationships, engine.registry.table? name = some table ∧
      engine.registry.Attached memory table relationships row := by
  cases h with
  | list table_eq outcome_eq mem =>
    obtain ⟨found, hfound, hlist⟩ := outcome_list_eq_ok_iff.1 outcome_eq
    obtain rfl : found = table := Option.some.inj (hfound.symm.trans table_eq)
    obtain ⟨relationships, _, hattached⟩ := attached_of_listScoped table_eq hlist
    exact ⟨_, relationships, table_eq, hattached row mem⟩
  | one table_eq outcome_eq =>
    obtain ⟨relationships, hattached⟩ := attached_of_getOne table_eq outcome_eq
    exact ⟨_, relationships, table_eq, hattached⟩
  | nested table_eq outcome_eq mem =>
    obtain ⟨_, found, _, _, _, _, _, hfound, _, _, _, hlist⟩ :=
      outcome_listNested_eq_ok_iff.1 outcome_eq
    obtain rfl : found = table := Option.some.inj (hfound.symm.trans table_eq)
    obtain ⟨relationships, _, hattached⟩ := attached_of_listScoped table_eq hlist
    exact ⟨_, relationships, table_eq, hattached row mem⟩

/-! ## Other relationships -/

/-- A listing has lists under the requested names, and under no other name. -/
theorem mem_names_of_list (hlist : (engine.list name params).outcome memory.source = .ok listing)
    (hrow : row ∈ listing.result) {found : String} :
    found ∈ row.related.names ↔ found ∈ params.getSplit relationshipKey := by
  obtain ⟨table, htable, hscoped⟩ := outcome_list_eq_ok_iff.1 hlist
  obtain ⟨relationships, hnames, hattached⟩ := attached_of_listScoped htable hscoped
  rw [(hattached row hrow).mem_names, hnames, List.mem_eraseDups]

/-- Other relationships change neither the total of a listing nor its rows. -/
theorem columns_eq_of_others
    (hothers : ∀ key, key ≠ relationshipKey → other.getAll key = params.getAll key)
    (hlist : (engine.list name params).outcome memory.source = .ok listing)
    (hother : (engine.list name other).outcome memory.source = .ok otherListing) :
    otherListing.total = listing.total ∧
      otherListing.result.map ResultRow.columns = listing.result.map ResultRow.columns := by
  obtain ⟨table, htable, hscoped⟩ := outcome_list_eq_ok_iff.1 hlist
  obtain ⟨found, hfound, hscopedOther⟩ := outcome_list_eq_ok_iff.1 hother
  obtain rfl : table = found := Option.some.inj (htable.symm.trans hfound)
  obtain ⟨plan, hprepare, hexecute⟩ := outcome_listScoped_eq_ok_iff.1 hscoped
  obtain ⟨otherPlan, hprepareOther, hexecuteOther⟩ := outcome_listScoped_eq_ok_iff.1 hscopedOther
  obtain ⟨request, hrequest, hplan⟩ := prepare_eq_ok_iff.1 hprepare
  obtain ⟨otherRequest, hrequestOther, hplanOther⟩ := prepare_eq_ok_iff.1 hprepareOther
  rw [Request.decode_of_others hothers, hrequest, Except.map, Except.ok.injEq] at hrequestOther
  have hplanned := Registry.planned_of_plan hplan
  have hplannedOther := Registry.planned_of_plan hplanOther
  have hpage : otherPlan.page = plan.page := by
    rw [hplannedOther.page_eq, hplanned.page_eq, ← hrequestOther]
    rfl
  obtain ⟨first, hfirst, htotal, hcolumns⟩ := outcome_execute memory htable hplanned
  obtain ⟨second, hsecond, htotalOther, hcolumnsOther⟩ :=
    outcome_execute memory htable hplannedOther
  obtain rfl : first = listing := Except.ok.inj (hfirst.symm.trans hexecute)
  obtain rfl : second = otherListing := Except.ok.inj (hsecond.symm.trans hexecuteOther)
  rw [htotal, htotalOther, hcolumns, hcolumnsOther, ← hplanned.page_predicate,
    ← hplannedOther.page_predicate, hpage]
  exact ⟨rfl, rfl⟩

/-- Two rows that hold the same in the local column of a relationship have the same list under its
name, whichever requests show them. -/
theorem Shows.related_eq (hrow : engine.Shows memory table row) (hshown : engine.Shows memory table shown)
    (hr : r ∈ table.relationships) (hexact : r.IsExact table)
    (hcells : (table.cell? row.columns r.localColumn).map Value.toJson =
      (table.cell? shown.columns r.localColumn).map Value.toJson) {children others : List Row}
    (hchildren : row.related? r.name = some children)
    (hothers : shown.related? r.name = some others) : children = others := by
  obtain ⟨_, _, htable, hattached⟩ := hrow.attached
  obtain ⟨_, _, htableShown, hattachedShown⟩ := hshown.attached
  obtain ⟨target, htarget, hjoined⟩ :=
    hattached.related?_eq_joined engine.valid htable hr hexact hchildren
  obtain ⟨found, hfound, hjoinedShown⟩ :=
    hattachedShown.related?_eq_joined engine.valid htableShown hr hexact hothers
  obtain rfl : target = found := Option.some.inj (htarget.symm.trans hfound)
  rw [hjoined, hjoinedShown]
  exact memory.joined_congr target (Table.cell?_eq_of_toJson hcells)

/-- Which relationships a listing asks for decides the names of its lists and nothing else; and what
stands under a name is the same on all rows of a table that hold the same value, or none, in the local
column, whatever the requests that show them ask for besides. -/
theorem expansions_apart (engine : Engine) (memory : Memory) :
    (∀ name params other listing otherListing,
      (∀ key, key ≠ relationshipKey → other.getAll key = params.getAll key) →
      (engine.list name params).outcome memory.source = .ok listing →
      (engine.list name other).outcome memory.source = .ok otherListing →
      otherListing.total = listing.total ∧
      otherListing.result.map ResultRow.columns = listing.result.map ResultRow.columns ∧
      (∀ row ∈ listing.result, ∀ found,
        found ∈ row.related.names ↔ found ∈ params.getSplit relationshipKey) ∧
      ∀ row ∈ otherListing.result, ∀ found,
        found ∈ row.related.names ↔ found ∈ other.getSplit relationshipKey) ∧
    ∀ table row shown, engine.Shows memory table row → engine.Shows memory table shown →
      ∀ r ∈ table.relationships, r.IsExact table →
      (table.cell? row.columns r.localColumn).map Value.toJson =
        (table.cell? shown.columns r.localColumn).map Value.toJson →
      ∀ children others, row.related? r.name = some children →
        shown.related? r.name = some others → children = others := by
  constructor
  · intro name params other listing otherListing hothers hlist hother
    obtain ⟨htotal, hcolumns⟩ := columns_eq_of_others hothers hlist hother
    exact ⟨htotal, hcolumns, fun _ hrow _ => mem_names_of_list hlist hrow,
      fun _ hrow _ => mem_names_of_list hother hrow⟩
  · intro table row shown hrow hshown r hr hexact hcells children others hchildren hothers
    exact hrow.related_eq hshown hr hexact hcells hchildren hothers

/-- One book is listed, with its author and without; another one of the author is looked up. -/
theorem expansions_apart_books :
    let memory := (Memory.empty.append "author" [
        .ofList [("id", .int 1), ("name", .str "ada")], .ofList [("id", .int 2), ("name", .str "alan")]]
      ).append "book" [
        .ofList [("id", .int 7), ("author_id", .int 1), ("title", .str "notes")],
        .ofList [("id", .int 8), ("author_id", .int 2), ("title", .str "on numbers")],
        .ofList [("id", .int 9), ("author_id", .int 1), ("title", .str "letters")]]
    let plain : Params := ⟨[("id____list", "7")]⟩
    let asking : Params := ⟨[("relationship", "author"), ("id____list", "7")]⟩
    ∃ listing plainListing notes letters authors,
      (library.list "book" asking).outcome memory.source = .ok listing ∧
      (library.list "book" plain).outcome memory.source = .ok plainListing ∧
      listing.result.map ResultRow.columns = plainListing.result.map ResultRow.columns ∧
      (library.getOne "book" "9" ⟨[("relationship", "author")]⟩).outcome memory.source = .ok letters ∧
      notes ∈ listing.result ∧ authors ≠ [] ∧ notes.related? "author" = some authors ∧
      letters.related? "author" = some authors := by
  intro memory plain asking
  let authors : List Row := [.ofList [("id", .int 1), ("name", .str "ada"), ("born", .null)]]
  let notes : ResultRow := ⟨.ofList [("id", .int 7), ("author_id", .int 1), ("title", .str "notes")],
    .ofList [("author", authors)]⟩
  let letters : ResultRow := ⟨.ofList [("id", .int 9), ("author_id", .int 1), ("title", .str "letters")],
    .ofList [("author", authors)]⟩
  have htable : library.registry.table? "book" = some Registry.book := rfl
  let r : Relationship := ⟨"author", "author", "author_id", "id"⟩
  let plan (id : Int64) : Plan :=
    ⟨"book", ⟨.isIn "id" [.integer id]⟩, ⟨.isIn "id" [.integer id], [], .unbounded⟩, [r]⟩
  have hprepare : library.prepare Registry.book asking .always = .ok (plan 7) := rfl
  have hprepareOne : library.prepareOne Registry.book ⟨[("relationship", "author")]⟩
      (.eq "id" (.integer 9)) = .ok (plan 9) := rfl
  -- Every question finds a single row, so nothing has to be sorted.
  have hmatching : memory.matching Registry.book (plan 7).page.predicate = [notes.columns] := rfl
  have hmatchingOne : memory.matching Registry.book (plan 9).page.predicate = [letters.columns] := rfl
  have hmatchingAuthor : memory.matching Registry.author (.isIn "id" [.integer 1]) =
      [.ofList [("id", .int 1), ("name", .str "ada")]] := rfl
  have hnotes : memory.select Registry.book (plan 7).page = [notes.columns] :=
    (Memory.select_of_matching_singleton hmatching).trans rfl
  have hauthors : memory.select Registry.author (.related Registry.author r [.integer 1]) = authors :=
    (Memory.select_of_matching_singleton hmatchingAuthor).trans rfl
  have hlinks : library.registry.links Registry.book [r] = .ok [⟨r, Registry.author⟩] := rfl
  have hexpand (book : Row) (hkeys : Registry.book.distinctKeys "author_id" [book] = [.integer 1]) :
      (library.registry.expand Registry.book [book] [r]).outcome memory.source =
        .ok [Link.attach Registry.book [(⟨r, Registry.author⟩, authors)] book] := by
    rw [Registry.outcome_expand_of_links hlinks, List.map_singleton, List.map_singleton, Link.fetched,
      hkeys, hauthors]
  have hlist : (library.list "book" asking).outcome memory.source = .ok ⟨1, [notes]⟩ := by
    refine outcome_list_eq_ok_iff.2 ⟨_, htable, outcome_listScoped_eq_ok_iff.2 ⟨_, hprepare, ?_⟩⟩
    rw [outcome_execute_eq, hnotes, hexpand notes.columns rfl]
    rfl
  have hplain : (library.list "book" plain).outcome memory.source =
      .ok ⟨1, [⟨notes.columns, .empty⟩]⟩ := by
    refine outcome_list_eq_ok_iff.2 ⟨_, htable, outcome_listScoped_eq_ok_iff.2
      ⟨{ plan 7 with relationships := [] }, rfl, ?_⟩⟩
    rw [outcome_execute_eq, hnotes]
    rfl
  have hone : (library.getOne "book" "9" ⟨[("relationship", "author")]⟩).outcome memory.source =
      .ok letters :=
    outcome_getOne_eq_ok_iff.2 ⟨_, _, _, _, _, [], htable, rfl, hprepareOne,
      congrArg Except.ok (Memory.select_of_matching_singleton hmatchingOne), hexpand letters.columns rfl⟩
  have hkeys : ∀ key, key ≠ relationshipKey → asking.getAll key = plain.getAll key := by
    intro key hkey
    simp [Params.getAll, asking, plain, show "relationship" ≠ key from hkey.symm]
  obtain ⟨hlistings, hrows⟩ := expansions_apart library memory
  obtain ⟨_, hcolumns, _⟩ := hlistings "book" plain asking _ _ hkeys hplain hlist
  obtain ⟨others, hothers⟩ : ∃ others, letters.related? "author" = some others := ⟨_, rfl⟩
  have hsame : authors = others :=
    hrows Registry.book notes letters (.list htable hlist List.mem_cons_self) (.one htable hone) r
      (by decide) (by decide) rfl authors others rfl hothers
  exact ⟨_, _, notes, letters, authors, hlist, hplain, hcolumns, hone, List.mem_cons_self, by decide,
    rfl, hsame ▸ hothers⟩

end Engine

end TableQuery
