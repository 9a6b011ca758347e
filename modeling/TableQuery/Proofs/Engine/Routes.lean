import Mathlib.Data.List.Nodup
import TableQuery.Proofs.Engine.Nested
import TableQuery.Proofs.Engine.Steps
import TableQuery.Proofs.Engine.Tiling

/-!
# Two routes to the same rows

The rows that a relationship leads to from one row are shown in two ways: attached to the row when it
is looked up, and by the nested listing along the reversed relationship, when that is sorted by the
primary key. Both routes start from the first stored row with the identifier, and both end at the rows
that the relationship joins to it.
-/

namespace TableQuery

/-- A declared relationship is found by its name, if the names are distinct. -/
theorem Table.relationship?_of_mem {table : Table} {r : Relationship}
    (hnodup : (table.relationships.map Relationship.name).Nodup) (h : r ∈ table.relationships) :
    table.relationship? r.name = some r := by
  have hfound : (table.relationship? r.name).isSome :=
    List.find?_isSome.2 ⟨r, h, decide_eq_true rfl⟩
  obtain ⟨s, hs⟩ := Option.isSome_iff_exists.1 hfound
  have hname : s.name = r.name := by simpa using List.find?_some hs
  rw [hs, List.inj_on_of_nodup_map hnodup (List.mem_of_find?_eq_some hs) h hname]

/-- Keys of the primary key, in its order, sort by nothing else. -/
theorem Request.sortKeys_keyOrder {table : Table} {request : Request}
    (h : request.order = table.keyOrder) : request.sortKeys table = table.keyOrder := by
  have hlisted : (table.primaryKey.filter fun name => name ∉ table.keyOrder.map SortKey.column) = [] := by
    simp [Table.keyOrder, Function.comp_def]
  rw [sortKeys, h, hlisted]
  split
  next hnil => exact hnil.symm
  next => exact List.append_nil _

variable {engine : Engine} {memory : Memory} {parent child : Table} {r : Relationship} {key : Column}
  {value stored : Value} {row first : Row} {scope : Predicate}
  {parentName childName id : String} {groups : List (List SortKey)}

namespace Engine

open Request (relationshipKey)

/-! ## The two routes -/

/-- The lookup of a row attaches to it what a relationship joins to the first row with the
identifier. -/
theorem exists_getOne_related (hparent : engine.registry.table? parentName = some parent)
    (hchild : engine.registry.table? r.target = some child)
    (hread : readKey parent id = .ok (key, value)) (hr : r ∈ parent.relationships)
    (hexact : r.IsExact parent) (hname : Params.IsEntry r.name)
    (hfirst : (SortKey.sort parent [] (memory.matching parent (.eq key.name value))).head? =
      some first) :
    ∃ result, (engine.getOne parentName id ⟨[(relationshipKey, r.name)]⟩).outcome memory.source =
        .ok result ∧
      result.related? r.name = some (memory.joined r parent child first) := by
  have hsound := Registry.sound_of_validate engine.valid hparent
  have hresolve : engine.registry.resolveRelationships parent [r.name] = .ok [r] := by
    rw [Registry.resolveRelationships, Registry.relationship?_eq_some
      (Table.relationship?_of_mem hsound.relationships_nodup hr) hchild]
    rfl
  have hprepare : engine.prepareOne parent ⟨[(relationshipKey, r.name)]⟩ (.eq key.name value) =
      .ok ⟨parent.name, ⟨.eq key.name value⟩, { keyQuery key value with window := .unbounded },
        [r]⟩ := by
    rw [prepareOne, Request.decode_relationship hname]
    change (engine.registry.resolveRelationships parent [r.name] >>= fun _ => _) = _
    rw [hresolve]
    rfl
  have hlinks : engine.registry.links parent [r] = .ok [⟨r, child⟩] := by
    rw [Registry.links, hchild]
    rfl
  have hrows : memory.select parent (keyQuery key value) = [parent.project first] := by
    rw [select_keyQuery, hfirst]
    rfl
  have hdeclared : ∀ s ∈ [r], s ∈ parent.relationships := List.forall_mem_singleton.2 hr
  obtain ⟨target, htarget, hrelated⟩ := Link.related?_attach_fetched memory engine.valid
    hparent hlinks hdeclared (List.nodup_singleton _) List.mem_cons_self hexact
    (List.mem_singleton_self (parent.project first))
  obtain rfl : target = child := Option.some.inj (htarget.symm.trans hchild)
  have hcell := Table.cell?_project hsound.columns_nodup first r.localColumn
  rw [memory.joined_congr target hcell] at hrelated
  refine ⟨_, outcome_getOne_eq_ok_iff.2 ⟨parent, key, value, _, [parent.project first], [], hparent,
    hread, hprepare, ?_, ?_⟩, hrelated⟩
  · exact congrArg Except.ok hrows
  · rw [Registry.outcome_expand_of_links hlinks]
    rfl

/-- The condition of a reversed link holds of the rows that the relationship joins to the first row
with the identifier. -/
theorem exists_linkScope_joins (parentName : String) (child : Table)
    (hnodup : (parent.columns.map Column.name).Nodup)
    (hcolumn : parent.column? key.name = some key) (hvalue : value.Fits key.type)
    (hexact : r.IsExact parent)
    (hfirst : (SortKey.sort parent [] (memory.matching parent (.eq key.name value))).head? =
      some first)
    (hcell : parent.cell? first key.name = some stored) (hequal : stored.compare? value = some .eq) :
    ∃ scope, (linkScope parent (r.reversed parentName) key value).outcome memory.source = .ok scope ∧
      ∀ row, scope.holds child row = r.joins parent child first row := by
  by_cases hthrough : r.localColumn = key.name
  · have hscope : linkScope parent (r.reversed parentName) key value =
        .done (.eq r.targetColumn value) := if_pos hthrough
    refine ⟨_, by rw [hscope, Fetch.outcome_done], fun row => ?_⟩
    have hstored : stored = value := by
      have hfits := Table.fits_of_cell? hcolumn hcell
      have hfloat : key.type ≠ .float := hexact key (hthrough ▸ hcolumn)
      exact Value.eq_of_compare?_eq (hfits.type_eq.trans hvalue.type_eq.symm)
        (hfits.type_eq ▸ hfloat) hequal
    rw [Relationship.joins, hthrough, hcell, hstored, Option.any_some, Predicate.holds_eq_any]
  · have hscope : (linkScope parent (r.reversed parentName) key value).outcome memory.source = _ :=
      outcome_linkScope_eq hnodup hthrough
    rw [hfirst, Option.bind_some] at hscope
    refine ⟨_, hscope, fun row => ?_⟩
    rw [Relationship.joins]
    change Predicate.holds _ _ _ = (parent.cell? first (r.reversed parentName).targetColumn).any _
    cases parent.cell? first (r.reversed parentName).targetColumn with
    | none => exact Predicate.holds_noRow
    | some linked => exact Predicate.holds_eq_any

/-- A listing by the primary key, inside a scope of the rows that a relationship joins to a row, shows
these rows. -/
theorem exists_listScoped_joined (hdefault : engine.settings.defaultLimit = none)
    (hmax : engine.settings.maxLimit = none)
    (hchild : engine.registry.table? childName = some child)
    (hnames : ∀ name ∈ child.primaryKey, Params.IsEntry name) (hnodup : child.primaryKey.Nodup)
    (hgroups : groups.flatten = child.keyOrder)
    (hscope : ∀ row, scope.holds child row = r.joins parent child first row) :
    ∃ listing, (engine.listScoped child (.ordered groups) scope).outcome memory.source =
        .ok listing ∧
      listing.result.map ResultRow.columns = memory.joined r parent child first ∧
      listing.total = listing.result.length := by
  have hsound := Registry.sound_of_validate engine.valid hchild
  have hcolumns : child.keyOrder.map SortKey.column = child.primaryKey := by
    rw [Table.keyOrder, List.map_map]
    exact List.map_id _
  let request : Request := ⟨[], .unbounded, child.keyOrder, []⟩
  have hrequest : Request.decode (.ordered groups) child engine.settings = .ok request := by
    rw [Request.decode_ordered, hgroups, Window.fallbackLimit, hdefault, hmax]
    · rfl
    · exact hgroups ▸ List.forall_mem_map.2 hnames
    · rwa [hgroups, hcolumns]
  have hresolve : SortKey.resolve child request.order = .ok child.keyOrder :=
    SortKey.resolve_eq_ok_iff.2
      ⟨List.forall_mem_map.2 hsound.key_declared, (Request.sortKeys_keyOrder rfl).symm⟩
  have hrelationships : engine.registry.resolveRelationships child request.relationships = .ok [] := rfl
  have hplan := Registry.plan_eq_ok hresolve hrelationships scope
  have hplanned := Registry.planned_of_plan hplan
  have hmatching : memory.matching child (.all [request.predicate, scope]) =
      (memory.rows child.name).filter (r.joins parent child first) :=
    List.filter_congr fun row _ => (holds_of_planned hplanned row).trans (hscope row)
  obtain ⟨listing, hexecute, htotal, hresult⟩ := outcome_execute memory hchild hplanned
  have hlist := outcome_listScoped_eq_ok_iff.2 ⟨_, prepare_eq_ok_iff.2 ⟨_, hrequest, hplan⟩, hexecute⟩
  refine ⟨listing, hlist, ?_, ?_⟩
  · rw [hresult, Memory.select, hmatching]
    rfl
  · have hlength := congrArg List.length hresult
    rw [List.length_map, Memory.length_select] at hlength
    exact htotal.trans hlength.symm

/-- A relationship and its reverse lead to the same rows: what is attached to a row that is looked up
is what the nested listing by the primary key shows, all of it. -/
theorem outcome_getOne_eq_listNested (built : engine.registry.Built)
    (hdefault : engine.settings.defaultLimit = none) (hmax : engine.settings.maxLimit = none)
    (hparent : engine.registry.table? parentName = some parent)
    (hchild : engine.registry.table? childName = some child)
    (hr : r ∈ parent.relationships) (htarget : r.target = childName) (hexact : r.IsExact parent)
    (hback : (child.relationships.filter fun s => s.target = parentName) = [r.reversed parentName])
    (hkey : parent.primaryKey = [key.name]) (hcolumn : parent.column? key.name = some key)
    (hname : Params.IsEntry r.name) (hnames : ∀ name ∈ child.primaryKey, Params.IsEntry name)
    (hnodup : child.primaryKey.Nodup) (hgroups : groups.flatten = child.keyOrder)
    (hid : Value.read? key.type id = some value) (hrow : row ∈ memory.rows parentName)
    (hcell : parent.cell? row key.name = some stored) (hequal : stored.equals value = true) :
    ∃ result listing,
      (engine.getOne parentName id ⟨[(relationshipKey, r.name)]⟩).outcome memory.source = .ok result ∧
      (engine.listNested parentName id childName (.ordered groups)).outcome memory.source =
        .ok listing ∧
      result.related? r.name = some (listing.result.map ResultRow.columns) ∧
      listing.total = listing.result.length := by
  have hsound := Registry.sound_of_validate engine.valid hparent
  rw [Value.equals, decide_eq_true_eq] at hequal
  rw [← built.name_eq hparent] at hrow
  obtain ⟨first, hfound, hfirst⟩ := exists_first (mem_matching_iff.2 ⟨hrow, stored, hcell, hequal⟩)
  obtain ⟨_, other, hother, hsame⟩ := mem_matching_iff.1 hfound
  obtain ⟨result, hone, hrelated⟩ :=
    exists_getOne_related hparent (htarget ▸ hchild) (readKey_eq_ok hkey hcolumn hid) hr hexact hname hfirst
  obtain ⟨scope, hscope, hjoins⟩ := exists_linkScope_joins parentName child
    hsound.columns_nodup hcolumn (Value.fits_of_read? hid) hexact hfirst hother hsame
  obtain ⟨listing, hlist, hcolumns, htotal⟩ :=
    exists_listScoped_joined hdefault hmax hchild hnames hnodup hgroups hjoins
  refine ⟨result, listing, hone, ?_, ?_, htotal⟩
  · rw [outcome_listNested_eq built hparent hchild hkey hcolumn hback hid hscope]
    exact hlist
  · rw [hrelated, hcolumns]

/-- An author leads to two books through the key; one of two books leads to its author beside the key,
and the other one to nobody. -/
theorem outcome_getOne_eq_listNested_library :
    let memory := (Memory.empty.append "author" [
        .ofList [("id", .int 1), ("name", .str "ada")], .ofList [("id", .int 2), ("name", .str "alan")]]
      ).append "book" [
        .ofList [("id", .int 9), ("author_id", .int 1), ("title", .str "notes")],
        .ofList [("id", .int 7), ("author_id", .int 1), ("title", .str "letters")],
        .ofList [("id", .int 8), ("author_id", .null), ("title", .str "on numbers")]]
    ∀ route ∈ [("author", "1", "book"), ("book", "9", "author"), ("book", "8", "author")],
      ∃ result listing,
        (library.getOne route.1 route.2.1 ⟨[("relationship", route.2.2)]⟩).outcome memory.source =
          .ok result ∧
        (library.listNested route.1 route.2.1 route.2.2
          ⟨[("order_by_columns", "id:ASC")]⟩).outcome memory.source = .ok listing ∧
        result.related? route.2.2 = some (listing.result.map ResultRow.columns) ∧
        listing.total = listing.result.length := by
  intro memory
  have built : library.registry.Built := Registry.built_library
  have hauthor : library.registry.table? "author" = some Registry.author := rfl
  have hbook : library.registry.table? "book" = some Registry.book := rfl
  have hordered : (⟨[("order_by_columns", "id:ASC")]⟩ : Params) = .ordered [[⟨"id", .ascending⟩]] := by
    decide
  have hauthors : memory.rows "author" = [
      .ofList [("id", .int 1), ("name", .str "ada")],
      .ofList [("id", .int 2), ("name", .str "alan")]] := rfl
  have hbooks : memory.rows "book" = [
      .ofList [("id", .int 9), ("author_id", .int 1), ("title", .str "notes")],
      .ofList [("id", .int 7), ("author_id", .int 1), ("title", .str "letters")],
      .ofList [("id", .int 8), ("author_id", .null), ("title", .str "on numbers")]] := rfl
  let key : Column := ⟨"id", .integer, false⟩
  have hauthorColumn : Registry.author.column? key.name = some key := rfl
  have hbookColumn : Registry.book.column? key.name = some key := rfl
  have hauthorOrder : [[(⟨"id", .ascending⟩ : SortKey)]].flatten = Registry.author.keyOrder := rfl
  have hbookOrder : [[(⟨"id", .ascending⟩ : SortKey)]].flatten = Registry.book.keyOrder := rfl
  have hentries : ∀ name ∈ ["author", "book", "id"], Params.IsEntry name := by decide
  have hself (n : Int64) : (Value.integer n).equals (.integer n) = true :=
    decide_eq_true (Value.Fits.integer n).compare?_self
  have hkey : ∀ name ∈ ["id"], Params.IsEntry name :=
    fun name h => hentries name (List.mem_append_right ["author", "book"] h)
  have hfromBook (id : String) (n : Int64) (row : Row)
      (hid : Value.read? key.type id = some (.integer n)) (hrow : row ∈ memory.rows "book")
      (hcell : Registry.book.cell? row "id" = some (.integer n)) :=
    outcome_getOne_eq_listNested (r := ⟨"author", "author", "author_id", "id"⟩) built rfl rfl hbook
      hauthor (by decide) rfl (by decide) rfl rfl hbookColumn (hentries _ (by decide)) hkey
      (by decide) hauthorOrder hid hrow hcell (hself n)
  have height : Row.ofList [("id", .int 8), ("author_id", .null), ("title", .str "on numbers")] ∈
      memory.rows "book" := by
    rw [hbooks]
    exact List.mem_cons_of_mem _ (List.mem_cons_of_mem _ List.mem_cons_self)
  rw [hordered]
  simp only [List.forall_mem_cons, List.not_mem_nil, IsEmpty.forall_iff, implies_true, and_true]
  refine ⟨?_, hfromBook "9" 9 _ rfl (hbooks ▸ List.mem_cons_self) rfl, hfromBook "8" 8 _ rfl height rfl⟩
  exact outcome_getOne_eq_listNested (r := ⟨"book", "book", "id", "author_id"⟩) built rfl rfl hauthor
    hbook (by decide) rfl (by decide) rfl rfl hauthorColumn (hentries _ (by decide)) hkey (by decide)
    hbookOrder rfl (hauthors ▸ List.mem_cons_self) rfl (hself 1)

end Engine

end TableQuery
