import TableQuery.Proofs.Engine.Listing

/-!
# Rows are expanded one by one

A page asks once for the values of all its rows. What is then attached to a row depends on what this
row holds in the local column, and on the stored rows of the target: the other rows of the page and
the other relationships have no part in it. Floating-point columns are left out, as zero and negative
zero are equal and have different texts, so that a row may find what another one asked for.
-/

namespace TableQuery

variable {engine : Engine} {registry : Registry} {memory : Memory} {table target : Table}
  {r : Relationship} {relationships : List Relationship} {link : Link} {links : List Link}
  {name : String} {parents : List Row} {parent other : Row}

/-- A relationship joins its table by a column that holds no floating-point numbers. -/
def Relationship.IsExact (r : Relationship) (table : Table) : Prop :=
  ∀ column, table.column? r.localColumn = some column → column.type ≠ .float

instance (r : Relationship) (table : Table) : Decidable (r.IsExact table) :=
  decidable_of_iff (∀ column ∈ table.column? r.localColumn, column.type ≠ .float) Iff.rfl

/-- The rows that are joined to a row depend on what it holds in the local column. -/
theorem Memory.joined_congr (memory : Memory) (target : Table)
    (h : table.cell? parent r.localColumn = table.cell? other r.localColumn) :
    memory.joined r table target parent = memory.joined r table target other := by
  have hjoins : r.joins table target parent = r.joins table target other := by
    funext child
    rw [Relationship.joins, Relationship.joins, h]
  rw [joined, joined, hjoins]

/-- A row with the rows that links join to it. -/
def Memory.expanded (memory : Memory) (table : Table) (links : List Link) (row : Row) :
    ResultRow where
  columns := row
  related := .ofList (links.map fun link =>
    (link.relationship.name, memory.joined link.relationship table link.target row))

namespace Link

/-- From every page a link leads a row to the rows that are joined to it. -/
theorem children_fetched (hvalid : registry.validate = .ok ())
    (htable : registry.table? name = some table) (hdeclared : link.relationship ∈ table.relationships)
    (htarget : registry.table? link.relationship.target = some link.target)
    (hexact : link.relationship.IsExact table) (hparent : parent ∈ parents) :
    link.children table (link.fetched memory table parents) parent =
      memory.joined link.relationship table link.target parent := by
  obtain ⟨found, near, remote, hjoins⟩ :=
    (Registry.sound_of_validate hvalid htable).joins _ hdeclared
  have hfound : found = link.target := Option.some.inj (hjoins.target_eq.symm.trans htarget)
  subst hfound
  have hnodup := (Registry.sound_of_validate hvalid htarget).columns_nodup
  exact children_eq_joined memory hjoins hnodup (hexact near hjoins.near_eq) hparent

/-- A row of a page gets what it gets by itself. -/
theorem attach_fetched (hvalid : registry.validate = .ok ())
    (htable : registry.table? name = some table)
    (hlinks : registry.links table relationships = .ok links)
    (hdeclared : ∀ r ∈ relationships, r ∈ table.relationships)
    (hexact : ∀ r ∈ relationships, r.IsExact table) (hparent : parent ∈ parents) :
    attach table (links.map fun link => (link, link.fetched memory table parents)) parent =
      memory.expanded table links parent := by
  obtain ⟨hrelationships, htargets⟩ := Registry.of_links hlinks
  rw [attach, Memory.expanded, List.map_map]
  congr 2
  apply List.map_congr_left
  intro link hlink
  have hmem : link.relationship ∈ relationships := hrelationships ▸ List.mem_map_of_mem hlink
  rw [Function.comp_apply, children_fetched hvalid htable (hdeclared _ hmem) (htargets link hlink)
    (hexact _ hmem) hparent]

/-- Under the name of a relationship stand the rows that it joins to the row, whatever stands under
the other names. -/
theorem related?_attach_fetched (memory : Memory) (hvalid : registry.validate = .ok ())
    (htable : registry.table? name = some table)
    (hlinks : registry.links table relationships = .ok links)
    (hdeclared : ∀ r ∈ relationships, r ∈ table.relationships)
    (hnodup : (relationships.map Relationship.name).Nodup) (hr : r ∈ relationships)
    (hexact : r.IsExact table) (hparent : parent ∈ parents) :
    ∃ target, registry.table? r.target = some target ∧
      (attach table (links.map fun link => (link, link.fetched memory table parents)) parent).related?
        r.name = some (memory.joined r table target parent) := by
  obtain ⟨hrelationships, htargets⟩ := Registry.of_links hlinks
  rw [← hrelationships] at hr
  obtain ⟨link, hlink, rfl⟩ := List.mem_map.1 hr
  have hnames : ((links.map fun link => (link, link.fetched memory table parents)).map
      fun group => group.1.relationship.name).Nodup := by
    rw [← hrelationships, List.map_map] at hnodup
    rwa [List.map_map]
  have hmem : link.relationship ∈ table.relationships :=
    hdeclared _ (hrelationships ▸ List.mem_map_of_mem hlink)
  refine ⟨link.target, htargets link hlink, ?_⟩
  rw [← children_fetched hvalid htable hmem (htargets link hlink) hexact hparent]
  exact related?_attach hnames (List.mem_map_of_mem hlink) parent

/-- A row has lists under the names of the relationships, and under no other name. -/
theorem mem_names_attach (hlinks : registry.links table relationships = .ok links)
    (hnodup : (relationships.map Relationship.name).Nodup) {found : String} :
    found ∈ (attach table (links.map fun link =>
        (link, link.fetched memory table parents)) parent).related.names ↔
      found ∈ relationships.map Relationship.name := by
  have hnames : (links.map fun link => link.relationship.name) =
      relationships.map Relationship.name := by
    rw [← (Registry.of_links hlinks).1, List.map_map]
    rfl
  have hentries : ((links.map fun link => (link, link.fetched memory table parents)).map
      fun group => (group.1.relationship.name, group.1.children table group.2 parent)).map Prod.fst =
        relationships.map Relationship.name := by
    rw [List.map_map, List.map_map, ← hnames]
    rfl
  rw [attach, NameMap.mem_names_ofList (hentries ▸ hnodup), hentries]

end Link

namespace Engine

/-- Carrying out a plan over rows in memory expands each row of the page by itself. -/
theorem outcome_execute_eq_expanded {request : Request} {scope : Predicate} {plan : Plan}
    (htable : engine.registry.table? name = some table)
    (hplanned : engine.registry.Planned table request scope plan)
    (hlinks : engine.registry.links table plan.relationships = .ok links)
    (hexact : ∀ r ∈ plan.relationships, r.IsExact table) (memory : Memory) :
    (engine.execute table plan).outcome memory.source =
      .ok ⟨(memory.matching table plan.predicate).length,
        (memory.select table plan.page).map (memory.expanded table links)⟩ := by
  have hrows : (memory.select table plan.page).map (Link.attach table (links.map fun link =>
      (link, link.fetched memory table (memory.select table plan.page)))) =
        (memory.select table plan.page).map (memory.expanded table links) :=
    List.map_congr_left fun _ hparent =>
      Link.attach_fetched engine.valid htable hlinks hplanned.declared hexact hparent
  rw [outcome_execute_of_links memory hlinks, hrows]

end Engine

end TableQuery
