import TableQuery.Proofs.Engine.Listing
import TableQuery.Proofs.Engine.Questions
import TableQuery.Proofs.Engine.Steps
import TableQuery.Proofs.Request.Grammar
import TableQuery.Proofs.Request.Insertion
import TableQuery.Proofs.Rows.Distinct

/-!
# Nested listings

The rows that are linked to a parent row are those that a listing of the child table finds by a list
with one value: the identifier of the parent when the link goes through its key, and otherwise what
the parent row holds in the column that the link leads to. The engine adds its condition behind those
of the request, while the list is decoded among them in the order of the columns. Both conditions
hold of the same rows, and all that follows depends on these rows only.
-/

namespace TableQuery

variable {table : Table} {memory : Memory} {v w : Value} {row : Row}

/-! ## Conditions of equality -/

namespace Predicate

/-- A condition of equality says of a cell whether it holds an equal value. -/
theorem holds_eq_any {name : String} : (Predicate.eq name v).holds table row =
    (table.cell? row name).any fun stored => stored.equals v := by
  rw [Bool.eq_iff_iff, holds_eq_iff, Option.any_eq_true]
  simp only [Value.equals, decide_eq_true_eq]
  rfl

/-- Equal values that a column can hold are had by the same cells. -/
theorem holds_eq_congr {column : Column} {name : String} (hcolumn : table.column? name = some column)
    (hv : v.Fits column.type) (hw : w.Fits column.type) (h : v.compare? w = some .eq) (row : Row) :
    (Predicate.eq name v).holds table row = (Predicate.eq name w).holds table row := by
  rw [Bool.eq_iff_iff, holds_eq_iff, holds_eq_iff]
  refine exists_congr fun stored => and_congr_right fun hstored => ?_
  have hfits := Table.fits_of_cell? hcolumn hstored
  exact ⟨fun heq => hfits.compare?_eq_trans hv hw heq h,
    fun heq => hfits.compare?_eq_trans hw hv heq (Value.compare?_eq_eq_comm.1 h)⟩

/-- No row satisfies the condition that stands for a missing link. -/
theorem holds_noRow {name : String} : (Predicate.noRow name).holds table row = false := by
  cases hcell : table.cell? row name <;> simp [noRow, isIn, holds, hcell]

end Predicate

/-! ## The value of a link -/

/-- The values that link child rows to the row of an identifier: the identifier itself when the link
goes through the key, and otherwise what the stored rows with this key hold in the column that the
link leads to. -/
inductive Memory.Linked (memory : Memory) (parent : Table) (r : Relationship) (key : Column)
    (value : Value) : Value → Prop
  | key (through : r.targetColumn = key.name) : Linked memory parent r key value value
  | row {row : Row} {stored v : Value} (beside : r.targetColumn ≠ key.name)
      (mem : row ∈ memory.rows parent.name) (key_eq : parent.cell? row key.name = some stored)
      (equal : stored.compare? value = some .eq) (cell_eq : parent.cell? row r.targetColumn = some v) :
      Linked memory parent r key value v

variable {parent child : Table} {r : Relationship} {key near remote : Column} {value : Value}

/-- A linked value is a value of the column of the child. -/
theorem Memory.Linked.fits {registry : Registry} (h : memory.Linked parent r key value v)
    (hjoins : registry.Joins child r parent near remote)
    (hcolumn : parent.column? key.name = some key) (hvalue : value.Fits key.type) :
    v.Fits near.type := by
  rw [hjoins.type_eq]
  cases h with
  | key through =>
    have hremote := hjoins.remote_eq
    rw [through, hcolumn, Option.some.injEq] at hremote
    exact hremote ▸ hvalue
  | row _ _ _ _ cell_eq => exact Table.fits_of_cell? hjoins.remote_eq cell_eq

/-- A query for one row, in no order, shows the first stored row that satisfies its condition. -/
theorem Memory.select_first (memory : Memory) (table : Table) (predicate : Predicate) :
    memory.select table ⟨predicate, [], .first⟩ =
      ((memory.matching table predicate).head?.map table.project).toList := by
  have hfirst (rows : List Row) : Window.first.apply rows = rows.head?.toList := List.take_one
  rw [select, SortKey.sort_nil, hfirst]
  cases (memory.matching table predicate).head? <;> rfl

namespace Engine

/-- The lookup of an identifier takes the first stored row that has it. -/
theorem select_keyQuery (memory : Memory) (parent : Table) (key : Column) (value : Value) :
    memory.select parent (keyQuery key value) =
      ((SortKey.sort parent [] (memory.matching parent (.eq key.name value))).head?.map
        parent.project).toList := by
  rw [SortKey.sort_nil]
  exact memory.select_first parent _

/-- A link beside the key takes the first row with the key. -/
theorem outcome_linkScope_eq (hnodup : (parent.columns.map Column.name).Nodup)
    (hbeside : r.targetColumn ≠ key.name) :
    (linkScope parent r key value).outcome memory.source =
      .ok (match (SortKey.sort parent [] (memory.matching parent (.eq key.name value))).head?.bind
          fun row => parent.cell? row r.targetColumn with
        | some linked => .eq r.localColumn linked
        | none => .noRow r.localColumn) := by
  have hasked : (Fetch.askSelect parent (keyQuery key value)).outcome memory.source =
      .ok (memory.select parent (keyQuery key value)) := Fetch.outcome_askSelect _ _
  rw [linkScope, if_neg hbeside, Fetch.outcome_bind_of_ok hasked, select_keyQuery,
    Option.head?_toList, Option.bind_map]
  simp only [Function.comp_def, Table.cell?_project hnodup]
  generalize (SortKey.sort parent [] (memory.matching parent (.eq key.name value))).head?.bind
    (fun row => parent.cell? row r.targetColumn) = linked
  cases linked with
  | some linked => rfl
  | none => rfl

/-- The rows with an identifier are those whose key equals it. -/
theorem mem_matching_iff : row ∈ memory.matching parent (.eq key.name value) ↔
    row ∈ memory.rows parent.name ∧
      ∃ stored, parent.cell? row key.name = some stored ∧ stored.compare? value = some .eq := by
  rw [Memory.matching, List.mem_filter, Predicate.holds_eq_iff]
  rfl

/-- When some stored row has an identifier, there is a first one. -/
theorem exists_first (hrow : row ∈ memory.matching parent (.eq key.name value)) :
    ∃ first ∈ memory.matching parent (.eq key.name value),
      (SortKey.sort parent [] (memory.matching parent (.eq key.name value))).head? = some first := by
  have hperm := SortKey.sort_perm parent [] (memory.matching parent (.eq key.name value))
  cases hsorted : SortKey.sort parent [] (memory.matching parent (.eq key.name value)) with
  | nil =>
    rw [hsorted, List.nil_perm] at hperm
    rw [hperm] at hrow
    contradiction
  | cons first rest => exact ⟨first, hperm.mem_iff.1 (hsorted ▸ List.mem_cons_self), rfl⟩

/-- Where keys are distinct, the row with an identifier is the first one that is found. -/
theorem head?_sort_matching (hkey : parent.primaryKey = [key.name])
    (hcolumn : parent.column? key.name = some key) (hvalue : value.Fits key.type)
    (hdistinct : parent.KeysDistinct (memory.rows parent.name))
    (hrow : row ∈ memory.matching parent (.eq key.name value)) :
    (SortKey.sort parent [] (memory.matching parent (.eq key.name value))).head? = some row := by
  obtain ⟨first, hfound, hhead⟩ := exists_first hrow
  obtain ⟨hfirst, stored, hstored, hequal⟩ := mem_matching_iff.1 hfound
  obtain ⟨hrow, other, hother, hsame⟩ := mem_matching_iff.1 hrow
  have hfits := Table.fits_of_cell? hcolumn hstored
  have hfitsOther := Table.fits_of_cell? hcolumn hother
  rw [hhead]
  refine congrArg some (hdistinct.eq_of_sameKey hfirst hrow fun name hname => ?_)
  rw [hkey] at hname
  rw [List.mem_singleton.1 hname, hstored, hother]
  exact .equal (hfits.compare?_eq_trans hvalue hfitsOther hequal (Value.compare?_eq_eq_comm.1 hsame))

/-- A linked value is what child rows are asked to have. -/
theorem outcome_linkScope_of_linked (hnodup : (parent.columns.map Column.name).Nodup)
    (hkey : parent.primaryKey = [key.name]) (hcolumn : parent.column? key.name = some key)
    (hvalue : value.Fits key.type)
    (hdistinct : r.targetColumn ≠ key.name → parent.KeysDistinct (memory.rows parent.name))
    (h : memory.Linked parent r key value v) :
    (linkScope parent r key value).outcome memory.source = .ok (.eq r.localColumn v) := by
  cases h with
  | key through =>
    rw [linkScope, if_pos through]
    rfl
  | row beside mem key_eq equal cell_eq =>
    have hrow := mem_matching_iff.2 ⟨mem, _, key_eq, equal⟩
    rw [outcome_linkScope_eq hnodup beside,
      head?_sort_matching hkey hcolumn hvalue (hdistinct beside) hrow, Option.bind_some, cell_eq]

/-- Without a linked value, no child row is asked for. -/
theorem outcome_linkScope_of_unlinked (hnodup : (parent.columns.map Column.name).Nodup)
    (h : ∀ v, ¬ memory.Linked parent r key value v) :
    (linkScope parent r key value).outcome memory.source = .ok (.noRow r.localColumn) := by
  have hbeside : r.targetColumn ≠ key.name := fun through => h value (.key through)
  rw [outcome_linkScope_eq hnodup hbeside]
  split
  next linked hlinked =>
    obtain ⟨row, hhead, hcell⟩ := Option.bind_eq_some_iff.1 hlinked
    have hfound := (SortKey.sort_perm _ _ _).mem_iff.1 (List.mem_of_mem_head? hhead)
    obtain ⟨hrow, stored, hstored, hequal⟩ := mem_matching_iff.1 hfound
    exact absurd (.row hbeside hrow hstored hequal hcell) (h linked)
  next => rfl

end Engine

/-! ## Listings that are planned alike -/

/-- Requests that agree in order and relationships are planned alike, whatever their scopes. -/
theorem Registry.alike_plan {registry : Registry} {request other : Request}
    (horder : other.order = request.order)
    (hrelationships : other.relationships = request.relationships)
    (table : Table) (scope otherScope : Predicate) :
    Failure.Alike (fun plan otherPlan => registry.Planned table request scope plan ∧
        registry.Planned table other otherScope otherPlan ∧
        otherPlan.relationships = plan.relationships)
      (registry.plan table request scope) (registry.plan table other otherScope) := by
  cases hkeys : SortKey.resolve table request.order with
  | error failure =>
    rw [Registry.plan, Registry.plan, horder, hkeys]
    exact .error failure
  | ok keys =>
    cases hfound : registry.resolveRelationships table request.relationships with
    | error failure =>
      rw [Registry.plan, Registry.plan, horder, hrelationships, hkeys, hfound]
      exact .error failure
    | ok relationships =>
      have hplan := plan_eq_ok hkeys hfound scope
      rw [← horder] at hkeys
      rw [← hrelationships] at hfound
      have hother := plan_eq_ok hkeys hfound otherScope
      rw [hplan, hother]
      exact .ok ⟨planned_of_plan hplan, planned_of_plan hother, rfl⟩

namespace Engine

variable {engine : Engine} {parent child : Table} {parentName childName id : String} {key near : Column}
  {value : Value} {r : Relationship} {params added : Params} {scope : Predicate}

/-- Plans for the same rows, in the same order and window and with the same relationships, are carried
out with the same outcome. -/
theorem outcome_execute_congr {request asked : Request} {otherScope : Predicate} {plan other : Plan}
    (hplan : engine.registry.Planned table request scope plan)
    (hother : engine.registry.Planned table asked otherScope other)
    (hholds : ∀ row, plan.predicate.holds table row = other.predicate.holds table row)
    (horder : plan.page.order = other.page.order) (hwindow : plan.page.window = other.page.window)
    (hrelationships : plan.relationships = other.relationships) :
    (engine.execute table plan).outcome memory.source =
      (engine.execute table other).outcome memory.source := by
  have hmatching : memory.matching table plan.predicate = memory.matching table other.predicate :=
    List.filter_congr fun row _ => hholds row
  have hselect : memory.select table plan.page = memory.select table other.page := by
    rw [Memory.select, Memory.select, hplan.page_predicate, hother.page_predicate, horder, hwindow,
      hmatching]
  rw [outcome_execute_eq, outcome_execute_eq, hmatching, hselect, hrelationships]

/-- The rows of a plan are those of its request inside its scope. -/
theorem holds_of_planned {request : Request} {plan : Plan}
    (hplanned : engine.registry.Planned table request scope plan) (row : Row) :
    plan.predicate.holds table row =
      (request.predicate.holds table row && scope.holds table row) := by
  rw [hplanned.predicate_eq, Bool.eq_iff_iff, Predicate.holds_all]
  simp

/-- A plan whose scope no row satisfies is carried out with nothing found. -/
theorem outcome_execute_of_noRow {request : Request} {plan : Plan} {name column : String}
    (htable : engine.registry.table? name = some table)
    (hplanned : engine.registry.Planned table request (.noRow column) plan) :
    (engine.execute table plan).outcome memory.source = .ok ⟨0, []⟩ := by
  obtain ⟨⟨total, result⟩, houtcome, htotal, hresult⟩ := outcome_execute memory htable hplanned
  have hmatching : memory.matching table plan.predicate = [] := List.filter_eq_nil_iff.2 fun row _ => by
    rw [holds_of_planned hplanned, Predicate.holds_noRow, Bool.and_false]
    exact Bool.false_ne_true
  have hselect : memory.select table plan.page = [] :=
    Memory.select_of_matching_nil (hplanned.page_predicate ▸ hmatching)
  rw [hselect, List.map_eq_nil_iff] at hresult
  rw [hmatching] at htotal
  rw [houtcome]
  exact congrArg Except.ok (congrArg₂ Listing.mk htotal hresult)

/-- A listing inside a scope is prepared, then carried out. -/
theorem outcome_listScoped_eq (scope : Predicate) :
    (engine.listScoped table params scope).outcome memory.source =
      engine.prepare table params scope >>= fun plan =>
        (engine.execute table plan).outcome memory.source := by
  rw [listScoped, Fetch.outcome_bind, Fetch.outcome_ofExcept]

/-- A listing of a table has no scope. -/
theorem outcome_list_eq (hchild : engine.registry.table? childName = some child) :
    (engine.list childName params).outcome memory.source =
      (engine.listScoped child params .always).outcome memory.source := by
  rw [list_eq hchild]

/-- An identifier is read as a value of the single column of the key. -/
theorem readKey_eq_ok (hkey : parent.primaryKey = [key.name])
    (hcolumn : parent.column? key.name = some key) (hid : Value.read? key.type id = some value) :
    readKey parent id = .ok (key, value) := by
  have hsingle : parent.singleKey? = some key := by
    rw [Table.singleKey?, hkey]
    exact hcolumn
  rw [readKey, hsingle]
  exact Failure.bind_eq_ok_iff.2 ⟨value, Request.coerce_eq_ok_iff.2 hid, rfl⟩

/-- A nested listing is a listing inside the scope of its link. -/
theorem outcome_listNested_eq (built : engine.registry.Built)
    (hparent : engine.registry.table? parentName = some parent)
    (hchild : engine.registry.table? childName = some child)
    (hkey : parent.primaryKey = [key.name]) (hcolumn : parent.column? key.name = some key)
    (hlink : (child.relationships.filter fun s => s.target = parentName) = [r])
    (hid : Value.read? key.type id = some value)
    (hscope : (linkScope parent r key value).outcome memory.source = .ok scope) :
    (engine.listNested parentName id childName params).outcome memory.source =
      (engine.listScoped child params scope).outcome memory.source := by
  have hto : child.relationshipTo? parent.name = some r := by
    rw [Table.relationshipTo?, built.name_eq hparent, hlink]
  rw [listNested_eq hparent hchild hto (readKey_eq_ok hkey hcolumn hid)]
  exact Fetch.outcome_bind_of_ok hscope _

/-- A scope for a value finds what a list with an equal value finds. -/
theorem outcome_listScoped_eq_of_inserts (hnodup : (child.columns.map Column.name).Nodup)
    (hnear : child.column? near.name = some near) {text : String}
    (hinserts : Params.Inserts (Facet.list.key near.name) text params added)
    (hlist : params.getAll (Facet.list.key near.name) = [])
    (hoperator : params.getAll (Facet.listOperator.key near.name) = [])
    (hread : Value.read? near.type text = some w) (hv : v.Fits near.type)
    (hequal : w.compare? v = some .eq) :
    (engine.listScoped child params (.eq near.name v)).outcome memory.source =
      (engine.listScoped child added .always).outcome memory.source := by
  have hmem : near ∈ child.columns := (Table.column?_eq_some hnear).1
  -- The plans differ in their conditions only, and these hold of the same rows.
  have hprepared : Failure.Alike (fun plan other =>
        (engine.execute child plan).outcome memory.source =
          (engine.execute child other).outcome memory.source)
      (engine.prepare child params (.eq near.name v)) (engine.prepare child added .always) := by
    refine (Request.alike_decode_of_inserts hinserts hlist hoperator hread hnodup hmem).bind
      fun request narrowed hnarrows => ?_
    refine (Registry.alike_plan hnarrows.order hnarrows.relationships child _ _).imp
      fun plan other hplans => ?_
    obtain ⟨hplan, hother, hrelationships⟩ := hplans
    refine outcome_execute_congr hplan hother (fun row => ?_) ?_ ?_ hrelationships.symm
    · rw [holds_of_planned hplan, holds_of_planned hother, hnarrows.holds_predicate,
        Predicate.holds_eq_congr hnear (Value.fits_of_read? hread) hv hequal, Predicate.holds,
        Bool.and_true]
    · rw [hplan.page_eq, hother.page_eq, Request.sortKeys, Request.sortKeys, hnarrows.order]
    · rw [hplan.page_eq, hother.page_eq, hnarrows.window]
  rw [outcome_listScoped_eq, outcome_listScoped_eq]
  exact hprepared.bind_eq fun _ _ hsame => hsame

/-- A scope that no row satisfies finds nothing, and fails as a listing without a scope does. -/
theorem outcome_listScoped_noRow (hchild : engine.registry.table? childName = some child)
    (column : String) :
    (engine.listScoped child params (.noRow column)).outcome memory.source =
      ((engine.listScoped child params .always).outcome memory.source).map fun _ => ⟨0, []⟩ := by
  have hprepared : Failure.Alike (fun plan other =>
        (engine.execute child plan).outcome memory.source = .ok ⟨0, []⟩ ∧
          ∃ listing, (engine.execute child other).outcome memory.source = .ok listing)
      (engine.prepare child params (.noRow column)) (engine.prepare child params .always) := by
    refine .bind_same _ fun request => ?_
    refine (Registry.alike_plan rfl rfl child _ _).imp fun plan other hplans => ?_
    obtain ⟨hplan, hother, _⟩ := hplans
    obtain ⟨listing, houtcome, _⟩ := outcome_execute memory hchild hother
    exact ⟨outcome_execute_of_noRow hchild hplan, listing, houtcome⟩
  rw [outcome_listScoped_eq, outcome_listScoped_eq]
  generalize engine.prepare child params (.noRow column) = first at hprepared ⊢
  generalize engine.prepare child params .always = second at hprepared ⊢
  cases hprepared with
  | ok related =>
    obtain ⟨hnothing, listing, houtcome⟩ := related
    change Fetch.outcome _ _ = Except.map _ (Fetch.outcome _ _)
    rw [hnothing, houtcome]
    rfl
  | error failure => rfl

/-- A nested listing is the listing of the child table with the linked value, written in any way, as
one more list value. Where no value is linked nothing is found, and a listing that fails, fails as it
does without the link. -/
theorem outcome_listNested_eq_list (built : engine.registry.Built)
    (hparent : engine.registry.table? parentName = some parent)
    (hchild : engine.registry.table? childName = some child)
    (hkey : parent.primaryKey = [key.name]) (hcolumn : parent.column? key.name = some key)
    (hlink : (child.relationships.filter fun s => s.target = parentName) = [r])
    (hnear : child.column? r.localColumn = some near)
    (hid : Value.read? key.type id = some value)
    (habsent : ∀ facet ∈ [Facet.list, .listOperator],
      params.contains (facet.key r.localColumn) = false)
    (hdistinct : r.targetColumn ≠ key.name → parent.KeysDistinct (memory.rows parentName)) :
    (∀ v, memory.Linked parent r key value v → ∀ text w, Value.read? near.type text = some w →
      w.equals v = true → ∀ added, Params.Inserts (Facet.list.key r.localColumn) text params added →
        (engine.listNested parentName id childName params).outcome memory.source =
          (engine.list childName added).outcome memory.source) ∧
    ((∀ v, ¬ memory.Linked parent r key value v) →
      (engine.listNested parentName id childName params).outcome memory.source =
        ((engine.list childName params).outcome memory.source).map fun _ => ⟨0, []⟩) := by
  have hsound := Registry.sound_of_validate engine.valid hparent
  have hsoundChild := Registry.sound_of_validate engine.valid hchild
  have hvalue := Value.fits_of_read? hid
  have hto : child.relationshipTo? parentName = some r := by rw [Table.relationshipTo?, hlink]
  obtain ⟨hdeclared, htarget⟩ := of_relationshipTo? hto
  obtain ⟨target, found, remote, hjoins⟩ := hsoundChild.joins r hdeclared
  obtain rfl : target = parent :=
    Option.some.inj ((htarget ▸ hjoins.target_eq).symm.trans hparent)
  obtain rfl : found = near := Option.some.inj (hjoins.near_eq.symm.trans hnear)
  have hname := (Table.column?_eq_some hnear).2
  rw [← built.name_eq hparent] at hdistinct
  simp only [List.forall_mem_cons, Params.contains_eq_false_iff] at habsent
  obtain ⟨hlist, hoperator, _⟩ := habsent
  constructor
  · intro v hlinked text w hread hequals added hinserts
    have hscope := outcome_linkScope_of_linked hsound.columns_nodup hkey hcolumn hvalue hdistinct
      hlinked
    rw [outcome_listNested_eq built hparent hchild hkey hcolumn hlink hid hscope,
      outcome_list_eq hchild]
    rw [Value.equals, decide_eq_true_eq] at hequals
    rw [← hname] at hlist hoperator hinserts hnear ⊢
    exact outcome_listScoped_eq_of_inserts hsoundChild.columns_nodup hnear hinserts hlist hoperator
      hread (hlinked.fits hjoins hcolumn hvalue) hequals
  · intro hunlinked
    have hscope := outcome_linkScope_of_unlinked hsound.columns_nodup hunlinked
    rw [outcome_listNested_eq built hparent hchild hkey hcolumn hlink hid hscope,
      outcome_list_eq hchild]
    exact outcome_listScoped_noRow hchild r.localColumn

end Engine

/-- Reviews, which name the author that they are about. -/
def Registry.review : Table where
  name := "review"
  columns := [⟨"id", .integer, false⟩, ⟨"about", .text, true⟩]
  primaryKey := ["id"]
  relationships := [⟨"author", "author", "about", "name"⟩]

/-- The engine for the library with its reviews. -/
def Engine.reviews : Engine where
  registry := Registry.library.register Registry.review
  settings := {}
  valid := (Registry.validate_eq_ok_iff _).2 (by decide)

/-- The reviews of an author are listed by name, which is found by the identifier; no author has the
identifier 3. -/
theorem Engine.outcome_listNested_reviews :
    let memory := (Memory.empty.append "author" [
        .ofList [("id", .int 2), ("name", .str "alan")], .ofList [("id", .int 1), ("name", .str "ada")]]
      ).append "review" [
        .ofList [("id", .int 5), ("about", .str "ada")], .ofList [("id", .int 6), ("about", .str "alan")]]
    let params : Params := ⟨[("id____from", "3"), ("limit", "5")]⟩
    let added : Params := ⟨[("id____from", "3"), ("about____list", "ada"), ("limit", "5")]⟩
    (reviews.listNested "author" " 1" "review" params).outcome memory.source =
        (reviews.list "review" added).outcome memory.source ∧
      (reviews.listNested "author" "3" "review" params).outcome memory.source =
        ((reviews.list "review" params).outcome memory.source).map fun _ => ⟨0, []⟩ := by
  intro memory params added
  have built : reviews.registry.Built := .register _ Registry.built_library
  have hparent : reviews.registry.table? "author" = some Registry.author := rfl
  have hchild : reviews.registry.table? "review" = some Registry.review := rfl
  have hrows : memory.rows Registry.author.name = [
      .ofList [("id", .int 2), ("name", .str "alan")],
      .ofList [("id", .int 1), ("name", .str "ada")]] := rfl
  let key : Column := ⟨"id", .integer, false⟩
  have hkey : Registry.author.primaryKey = [key.name] := rfl
  have hcolumn : Registry.author.column? key.name = some key := rfl
  have hlink : (Registry.review.relationships.filter fun s => s.target = "author") =
      [⟨"author", "author", "about", "name"⟩] := rfl
  have hnear : Registry.review.column? "about" = some ⟨"about", .text, true⟩ := rfl
  have habsent : ∀ facet ∈ [Facet.list, .listOperator],
      params.contains (facet.key "about") = false := by decide
  have hdistinct : Registry.author.KeysDistinct (memory.rows "author") := by decide +kernel
  have hnested (id : String) (n : Int64) (hid : Value.read? key.type id = some (.integer n)) :=
    outcome_listNested_eq_list built hparent hchild hkey hcolumn hlink hnear hid habsent
      fun _ => hdistinct
  refine ⟨(hnested " 1" 1 rfl).1 (.text "ada") ?_ "ada" _ rfl (by decide) added ?_,
    (hnested "3" 3 rfl).2 fun v hlinked => ?_⟩
  · exact .row (by decide) (hrows ▸ List.mem_cons_of_mem _ List.mem_cons_self) rfl (by decide) rfl
  · exact .among [("id____from", "3")] [("limit", "5")]
  · cases hlinked with
    | key through => exact absurd through (by decide)
    | row beside mem key_eq equal cell_eq =>
      have hnone : memory.matching Registry.author (.eq key.name (.integer 3)) = [] := rfl
      have hfound := mem_matching_iff.2 ⟨mem, _, key_eq, equal⟩
      rw [hnone] at hfound
      contradiction

end TableQuery
