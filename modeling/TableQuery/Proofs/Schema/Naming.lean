import TableQuery.Proofs.Engine.Questions
import TableQuery.Schema.Form

/-!
# The names that tables are kept under

Registering keeps a table under its own name and linking renames nothing, so that every registry which
grows from the empty one is keyed by the names of its tables, and a source is asked for tables by the
names that requests and relationships use. A registry that is read from text is keyed by the names that
the text lists its tables with. These are free, and validation does not look at them: until a table is
registered under such a name, requests reach a table of another name by it.
-/

namespace TableQuery

/-! ## Maps that are read -/

/-- Items that are read one after another are read in reverse just the same. -/
theorem mapM_reverse {α β : Type} {read : α → Option β} {items : List α} {found : List β}
    (h : items.mapM read = some found) : items.reverse.mapM read = some found.reverse := by
  induction items generalizing found with
  | nil =>
    cases h
    rfl
  | cons first rest ih =>
    simp only [List.mapM_cons, Option.bind_eq_bind, Option.bind_eq_some_iff] at h
    obtain ⟨value, hvalue, later, hlater, hfound⟩ := h
    cases hfound
    simp [List.mapM_append, ih hlater, hvalue]

/-- Looking up among members that are all read is reading what is looked up. -/
theorem Json.lookup_of_mapM {α : Type} {read : Json → Option α} {members : List (String × Json)}
    {entries : List (String × α)}
    (h : (members.mapM fun member => (read member.2).map fun value => (member.1, value)) =
      some entries) (name : String) : entries.lookup name = (members.lookup name).bind read := by
  induction members generalizing entries with
  | nil =>
    cases h
    rfl
  | cons first rest ih =>
    obtain ⟨key, json⟩ := first
    simp only [List.mapM_cons, Option.bind_eq_bind, Option.bind_eq_some_iff,
      Option.map_eq_some_iff] at h
    obtain ⟨_, ⟨value, hvalue, rfl⟩, later, hlater, hentries⟩ := h
    cases hentries
    by_cases hname : name = key
    · simp [hname, hvalue]
    · simpa [List.lookup_cons, beq_false_of_ne hname] using ih hlater

/-- A map that is read from an object holds under each name what its last member of that name is read
as. -/
theorem Json.get?_of_toNameMap? {α : Type} {read : Json → Option α} {value : Json} {m : NameMap α}
    (h : toNameMap? read value = some m) :
    ∃ members, value = .obj members ∧
      ∀ name, m.get? name = (members.reverse.lookup name).bind read := by
  cases value with
  | obj members =>
    rw [toNameMap?, Option.map_eq_some_iff] at h
    obtain ⟨entries, hentries, rfl⟩ := h
    refine ⟨members, rfl, fun name => ?_⟩
    rw [NameMap.get?_ofList, lookup_of_mapM (mapM_reverse hentries)]
  | _ => contradiction

namespace Registry

variable {registry start : Registry} {names : List String} {name : String}

/-! ## Registering, linking and reading -/

/-- The name of the table that is kept under a name. -/
def nameUnder? (registry : Registry) (name : String) : Option String :=
  (registry.table? name).map Table.name

/-- Every table is kept under its own name. -/
def Keyed (registry : Registry) : Prop :=
  ∀ name table, registry.table? name = some table → table.name = name

/-- A registry is keyed by the names of its tables when none stands under another name. -/
theorem keyed_iff :
    registry.Keyed ↔ ∀ name found, registry.nameUnder? name = some found → found = name := by
  simp only [Keyed, nameUnder?, Option.map_eq_some_iff, forall_exists_index, and_imp]
  constructor
  · rintro h name _ table htable rfl
    exact h name table htable
  · intro h name table htable
    exact h name table.name table htable rfl

/-- The registries that come from a given one by registering and linking, with the names of the tables
that were registered, the last one first. -/
inductive Grown (start : Registry) : List String → Registry → Prop
  | start : Grown start [] start
  | register {names : List String} {registry : Registry} (table : Table)
      (grown : Grown start names registry) :
      Grown start (table.name :: names) (registry.register table)
  | link {names : List String} {registry : Registry} (left leftColumn right rightColumn : String)
      (grown : Grown start names registry) :
      Grown start names (registry.link left leftColumn right rightColumn)

/-- Registering a table puts its name under its name, and leaves every other name alone. -/
theorem nameUnder?_register (table : Table) :
    (registry.register table).nameUnder? name =
      if name = table.name then some name else registry.nameUnder? name := by
  rw [nameUnder?, table?, register, NameMap.get?_insert]
  split
  next heq => rw [heq, Option.map_some]
  next => rfl

/-- A declared relationship leaves every name alone. -/
theorem nameUnder?_declare (declared : String) (r : Relationship) :
    (registry.declare declared r).nameUnder? name = registry.nameUnder? name := by
  rw [nameUnder?, table?, declare, NameMap.get?_modify]
  split
  next => rw [Option.map_map]; rfl
  next => rfl

/-- In a grown registry every name of a registered table stands under itself, and every other name as
before. -/
theorem Grown.nameUnder?_eq (grown : Grown start names registry) :
    registry.nameUnder? name = if name ∈ names then some name else start.nameUnder? name := by
  induction grown with
  | start => simp
  | register table _ ih =>
    rw [nameUnder?_register, ih]
    simp only [List.mem_cons]
    grind
  | link left leftColumn right rightColumn _ ih =>
    rw [Registry.link, nameUnder?_declare, nameUnder?_declare, ih]

/-- A grown registry is keyed by the names of its tables when those that it came with and that were not
registered again are kept under their own names. -/
theorem Grown.keyed_iff (grown : Grown start names registry) :
    registry.Keyed ↔
      ∀ name, name ∉ names → ∀ found, start.nameUnder? name = some found → found = name := by
  simp only [Registry.keyed_iff, grown.nameUnder?_eq]
  constructor
  · intro h name hname found hfound
    exact h name found ((if_neg hname).trans hfound)
  · intro h name found hfound
    split at hfound
    next => exact (Option.some.inj hfound).symm
    next hname => exact h name hname found hfound

/-- What grows from the registry without tables is built. -/
theorem Grown.built (grown : Grown .empty names registry) : registry.Built := by
  induction grown with
  | start => exact .empty
  | register table _ ih => exact .register table ih
  | link left leftColumn right rightColumn _ ih => exact .link left leftColumn right rightColumn ih

/-- A registry that is read from an object keeps each table under the name that the object lists it
with. -/
theorem nameUnder?_of_ofJson? {value : Json} (h : ofJson? value = some registry) :
    ∃ members, value.record? ["tables"] = some [some (.obj members)] ∧
      ∀ name, registry.nameUnder? name =
        ((members.reverse.lookup name).bind Table.ofJson?).map Table.name := by
  obtain ⟨fields, hfields, h⟩ := Option.bind_eq_some_iff.1 h
  split at h
  next field =>
    obtain ⟨tables, htables, hregistry⟩ := Option.bind_eq_some_iff.1 h
    cases hregistry
    obtain ⟨listed, rfl, hlisted⟩ := Option.bind_eq_some_iff.1 htables
    obtain ⟨members, rfl, hget⟩ := Json.get?_of_toNameMap? hlisted
    exact ⟨members, hfields, fun name => congrArg (Option.map Table.name) (hget name)⟩
  next => contradiction

end Registry

/-! ## Asking by name -/

namespace Engine

variable {engine : Engine} {source : RowSource} {params : Params} {call : Call} {table : Table}
  {name id parentName childName : String} {scope : Predicate}

/-- The names by which a request for a table looks tables up: its own, and the targets of the
relationships that are declared on the table found there. -/
inductive Uses (engine : Engine) (name : String) : String → Prop
  | requested : Uses engine name name
  | target {table : Table} {r : Relationship} (found : engine.registry.table? name = some table)
      (declared : r ∈ table.relationships) : Uses engine name r.target

/-- A question is about the table under a name that a request for a table uses. -/
def Finds (engine : Engine) (name : String) (call : Call) : Prop :=
  ∃ used, engine.Uses name used ∧ engine.registry.table? used = some call.table

/-- Expanding declared relationships asks for their targets. -/
theorem finds_of_reaches_expand (htable : engine.registry.table? name = some table) {rows : List Row}
    {relationships : List Relationship} (hdeclared : ∀ r ∈ relationships, r ∈ table.relationships)
    (h : (engine.registry.expand table rows relationships).Reaches call) : engine.Finds name call := by
  obtain ⟨r, hr, target, htarget, rfl⟩ := of_reaches_expand h
  exact ⟨r.target, .target htable (hdeclared r hr), htarget⟩

/-- A listing inside a scope asks for its table, then for the targets of relationships. -/
theorem finds_of_reaches_listScoped (htable : engine.registry.table? name = some table)
    (h : (engine.listScoped table params scope).Reaches call) : engine.Finds name call := by
  obtain ⟨plan, hprepare, h⟩ := Fetch.reaches_ofExcept_bind h
  obtain ⟨request, _, hplan⟩ := Failure.bind_eq_ok_iff.1 hprepare
  rcases of_reaches_execute h with rfl | rfl | ⟨rows, h⟩
  · exact ⟨name, .requested, htable⟩
  · exact ⟨name, .requested, htable⟩
  · exact finds_of_reaches_expand htable (Registry.planned_of_plan hplan).declared h

/-- A listing of a table asks for it, then for the targets of relationships. -/
theorem finds_of_reaches_list (h : (engine.list name params).Reaches call) :
    engine.Finds name call := by
  obtain ⟨table, htable, h⟩ := Fetch.reaches_ofExcept_bind h
  exact finds_of_reaches_listScoped (Registry.require_eq_ok_iff.1 htable) h

/-- The lookup of a row asks for its table, then for the targets of relationships. -/
theorem finds_of_reaches_getOne (h : (engine.getOne name id params).Reaches call) :
    engine.Finds name call := by
  obtain ⟨table, key, value, plan, htable, _, hprepare, h⟩ := of_reaches_getOne h
  obtain ⟨request, _, hplan⟩ := Failure.bind_eq_ok_iff.1 hprepare
  rcases h with rfl | ⟨rows, h⟩
  · exact ⟨name, .requested, htable⟩
  · exact finds_of_reaches_expand htable (Registry.planned_of_plan hplan).declared h

/-- A nested listing asks for the parent, or what a listing of the child asks for. -/
theorem finds_of_reaches_listNested
    (h : (engine.listNested parentName id childName params).Reaches call) :
    engine.Finds parentName call ∨ engine.Finds childName call := by
  obtain ⟨parent, child, r, key, value, hparent, hchild, _, _, h⟩ := of_reaches_listNested h
  rcases h with rfl | ⟨scope, _, h⟩
  · exact Or.inl ⟨parentName, .requested, hparent⟩
  · exact Or.inr (finds_of_reaches_listScoped hchild h)

/-- In a registry that is keyed by the names of its tables, what is found under a used name has that
name. -/
theorem Finds.uses (h : engine.Finds name call) (keyed : engine.registry.Keyed) :
    engine.Uses name call.table.name := by
  obtain ⟨used, huses, hfound⟩ := h
  rwa [keyed used call.table hfound]

/-- A registry that grows from the empty one is keyed by the names of its tables. One that is read from
text, and grows, is so exactly when every name of the text is either that of a table registered later or
that of the last table which the text lists with it. An engine whose registry is keyed by the names of its
tables asks a source for the tables that requests name and for the targets of their relationships. -/
theorem asks_by_name {start registry : Registry} {names : List String}
    (grown : start.Grown names registry) :
    (start = .empty → registry.Keyed) ∧
    (∀ value, Registry.ofJson? value = some start →
      ∃ members, value.record? ["tables"] = some [some (.obj members)] ∧
        (registry.Keyed ↔ ∀ name, name ∉ names → ∀ json table,
          members.reverse.lookup name = some json → Table.ofJson? json = some table →
            table.name = name)) ∧
    ∀ (engine : Engine) (source : RowSource), engine.registry = registry → registry.Keyed →
      ∀ (name id child : String) (params : Params) (call : Call),
        (call ∈ (engine.list name params).calls source → engine.Uses name call.table.name) ∧
        (call ∈ (engine.getOne name id params).calls source → engine.Uses name call.table.name) ∧
        (call ∈ (engine.listNested name id child params).calls source →
          engine.Uses name call.table.name ∨ engine.Uses child call.table.name) := by
  refine ⟨fun hempty => ?_, fun value hread => ?_, ?_⟩
  · subst hempty
    exact fun name table htable => grown.built.name_eq htable
  · obtain ⟨members, hmembers, hstart⟩ := Registry.nameUnder?_of_ofJson? hread
    refine ⟨members, hmembers, ?_⟩
    simp only [grown.keyed_iff, hstart, Option.map_eq_some_iff, Option.bind_eq_some_iff]
    constructor
    · intro h name hname json table hjson htable
      exact h name hname table.name ⟨table, ⟨json, hjson, htable⟩, rfl⟩
    · rintro h name hname _ ⟨table, ⟨json, hjson, htable⟩, rfl⟩
      exact h name hname json table hjson htable
  · rintro engine source rfl keyed name id child params call
    refine ⟨fun h => ?_, fun h => ?_, fun h => ?_⟩
    · exact (finds_of_reaches_list (Fetch.reaches_of_mem_calls h)).uses keyed
    · exact (finds_of_reaches_getOne (Fetch.reaches_of_mem_calls h)).uses keyed
    · exact (finds_of_reaches_listNested (Fetch.reaches_of_mem_calls h)).imp
        (Finds.uses · keyed) (Finds.uses · keyed)

/-- A text that lists a table by the name `author` as `writer`. -/
def misnamed : Json :=
  .obj [("tables", .obj [("writer", .obj [("name", .str "author"),
    ("columns", .arr [.obj [("name", .str "id"), ("logical_type", .str "integer"),
      ("nullable", .bool false)]]),
    ("primary_key", .arr [.str "id"]), ("relationships", .arr [])])])]

/-- The misnamed table leaves its registry keyed by other names until a table is registered as `writer`;
the library is asked for by the names of its tables. -/
theorem asks_by_name_writer :
    let writer : Table := { name := "writer", columns := [⟨"id", .text, false⟩], primaryKey := ["id"] }
    let library : Engine := ⟨.library, {}, Registry.validate_library⟩
    (∃ registry, Registry.ofJson? misnamed = some registry ∧ ¬ registry.Keyed ∧
      (registry.register writer).Keyed) ∧
    ∀ source params, ∀ call ∈ (library.list "book" params).calls source,
      library.Uses "book" call.table.name := by
  intro writer library
  obtain ⟨registry, hread⟩ : ∃ registry, Registry.ofJson? misnamed = some registry := ⟨_, rfl⟩
  have grownLibrary : Registry.empty.Grown ["book", "author"] .library :=
    .register Registry.book (.register Registry.author .start)
  obtain ⟨hkeyed, _, hasks⟩ := asks_by_name grownLibrary
  have grownStart : registry.Grown [] registry := .start
  have grownWriter : registry.Grown ["writer"] (registry.register writer) := .register writer .start
  obtain ⟨_, hstart, _⟩ := asks_by_name grownStart
  obtain ⟨_, hgrown, _⟩ := asks_by_name grownWriter
  refine ⟨⟨registry, hread, fun keyed => ?_, ?_⟩, fun source params call hcall =>
    (hasks library source rfl (hkeyed rfl) "book" "" "" params call).1 hcall⟩
  · obtain ⟨members, hmembers, hiff⟩ := hstart _ hread
    cases hmembers
    have hname := hiff.1 keyed "writer" List.not_mem_nil _ _ rfl rfl
    contradiction
  · obtain ⟨members, hmembers, hiff⟩ := hgrown _ hread
    cases hmembers
    refine hiff.2 fun name hname json table hjson _ => ?_
    have hother : name ≠ "writer" := fun heq => hname (heq ▸ List.mem_singleton_self _)
    simp [List.lookup_cons, beq_false_of_ne hother] at hjson

/-- The text is read and accepted. Every request for `writer` asks for the table `author`, and one without
parameters does ask. -/
theorem accepts_misnamed :
    ∃ registry table, Registry.ofJson? misnamed = some registry ∧
      registry.table? "writer" = some table ∧ table.name = "author" ∧ ¬ registry.Keyed ∧
      ∃ valid : registry.validate = .ok (),
        let engine : Engine := ⟨registry, {}, valid⟩
        (∀ source params, ∀ call ∈ (engine.list "writer" params).calls source, call.table = table) ∧
          (engine.list "writer" ⟨[]⟩).calls Memory.empty.source ≠ [] := by
  let author : Table := { name := "author", columns := [⟨"id", .integer, false⟩], primaryKey := ["id"] }
  let registry : Registry := ⟨.ofList [("writer", author)]⟩
  have hwriter : registry.table? "writer" = some author := rfl
  have hvalid : registry.validate = .ok () := (Registry.validate_eq_ok_iff registry).2 (by decide)
  refine ⟨registry, author, rfl, hwriter, rfl, fun keyed => ?_, hvalid,
    fun source params call hcall => ?_, List.cons_ne_nil _ _⟩
  · have hname : "author" = "writer" := keyed "writer" author hwriter
    exact absurd hname (by decide)
  · obtain ⟨used, huses, hfound⟩ := finds_of_reaches_list (Fetch.reaches_of_mem_calls hcall)
    cases huses with
    | requested => exact Option.some.inj (hfound.symm.trans hwriter)
    | target found declared =>
      obtain rfl := Option.some.inj (hwriter.symm.trans found)
      contradiction

end Engine

end TableQuery
