import Mathlib.Data.List.Nodup
import TableQuery.Engine
import TableQuery.Proofs.Rows.Arrangement
import TableQuery.Proofs.Rows.Projection
import TableQuery.Proofs.Source.Runs
import TableQuery.Proofs.Value.RoundTrip

/-!
# Expansion is a join

Expanding relationships over rows in memory gives every row the stored rows of each target whose
column holds the same value, in the order of the primary key. The values of a page are asked for
once each and the answers are grouped by text. This loses nothing, since every value of the page is
among those asked for, and mixes nothing up, since different values have different texts.
-/

namespace TableQuery

section Distinct

variable {α : Type} {key : α → String} {a : α} {items : List α}

/-- Distinct elements are among all elements. -/
theorem mem_of_mem_distinctBy (h : a ∈ distinctBy key items) : a ∈ items := by
  induction items with
  | nil => exact h
  | cons first rest ih =>
    rcases List.mem_cons.1 h with rfl | h
    · exact List.mem_cons_self
    · exact List.mem_cons_of_mem _ (ih (List.mem_filter.1 h).1)

/-- Every element shares its key with a distinct one. -/
theorem exists_mem_distinctBy (h : a ∈ items) : ∃ b ∈ distinctBy key items, key b = key a := by
  induction items with
  | nil => contradiction
  | cons first rest ih =>
    rcases List.mem_cons.1 h with rfl | h
    · exact ⟨a, List.mem_cons_self, rfl⟩
    · obtain ⟨b, hb, hkey⟩ := ih h
      by_cases hfirst : key b = key first
      · exact ⟨first, List.mem_cons_self, hfirst ▸ hkey⟩
      · exact ⟨b, List.mem_cons_of_mem _ (List.mem_filter.2 ⟨hb, by simpa using hfirst⟩), hkey⟩

end Distinct

variable {registry : Registry} {table target : Table} {r : Relationship} {memory : Memory}
  {parents : List Row}

/-! ## What is asked for -/

namespace Table

/-- The values asked for are values of the page. -/
theorem exists_cell?_of_mem_distinctKeys {column : String} {v : Value}
    (h : v ∈ table.distinctKeys column parents) :
    ∃ parent ∈ parents, table.cell? parent column = some v :=
  List.mem_filterMap.1 (mem_of_mem_distinctBy h)

/-- Every value of the page shares its text with a value that is asked for. -/
theorem exists_mem_distinctKeys {column : String} {parent : Row} {v : Value}
    (hparent : parent ∈ parents) (h : table.cell? parent column = some v) :
    ∃ key ∈ table.distinctKeys column parents, key.joinText = v.joinText :=
  exists_mem_distinctBy (List.mem_filterMap.2 ⟨parent, hparent, h⟩)

end Table

namespace Link

/-- The rows that a link leads to from a page. -/
def fetched (memory : Memory) (table : Table) (parents : List Row) (link : Link) : List Row :=
  memory.select link.target (.related link.target link.relationship
    (table.distinctKeys link.relationship.localColumn parents))

/-- No row has one of no values. -/
theorem holds_isIn_nil (target : Table) (row : Row) (column : String) :
    (Predicate.isIn column []).holds target row = false := by
  cases hcell : target.cell? row column <;> simp [Predicate.isIn, Predicate.holds, hcell]

/-- Without values no row is found, so asking for none makes no difference. -/
theorem outcome_fetch (link : Link) :
    (link.fetch table parents).outcome memory.source = .ok (link.fetched memory table parents) := by
  unfold fetch fetched
  split
  next hkeys =>
    have hempty : memory.matching link.target (.isIn link.relationship.targetColumn []) = [] :=
      List.filter_eq_nil_iff.2 fun row _ => by simp [holds_isIn_nil]
    rw [hkeys, Memory.select_of_matching_nil hempty]
    rfl
  next => exact Fetch.outcome_askSelect _ _

/-- Each link is asked for its rows. -/
theorem outcome_fetchAll (links : List Link) :
    (fetchAll table parents links).outcome memory.source =
      .ok (links.map fun link => (link, link.fetched memory table parents)) := by
  induction links with
  | nil => rfl
  | cons link rest ih =>
    rw [fetchAll, Fetch.outcome_bind_of_ok (outcome_fetch link), Fetch.outcome_bind_of_ok ih]
    rfl

end Link

namespace Registry

/-- Links are those of the relationships, each to the table registered as its target. -/
theorem of_links {relationships : List Relationship} {links : List Link}
    (h : registry.links table relationships = .ok links) :
    links.map Link.relationship = relationships ∧
      ∀ link ∈ links, registry.table? link.relationship.target = some link.target := by
  induction relationships generalizing links with
  | nil =>
    rw [Registry.links, Except.ok.injEq] at h
    simp [← h]
  | cons r rest ih =>
    unfold Registry.links at h
    split at h
    · contradiction
    next target htarget =>
      simp only [Failure.bind_eq_ok_iff, Except.ok.injEq] at h
      obtain ⟨more, hmore, rfl⟩ := h
      obtain ⟨hrelationships, htargets⟩ := ih hmore
      refine ⟨by rw [List.map_cons, hrelationships], fun link hlink => ?_⟩
      rcases List.mem_cons.1 hlink with rfl | hlink
      · exact htarget
      · exact htargets link hlink

/-- Relationships with registered targets have links. -/
theorem exists_links (table : Table) {relationships : List Relationship}
    (h : ∀ r ∈ relationships, ∃ target, registry.table? r.target = some target) :
    ∃ links : List Link, registry.links table relationships = .ok links := by
  induction relationships with
  | nil => exact ⟨[], rfl⟩
  | cons r rest ih =>
    obtain ⟨target, htarget⟩ := h r List.mem_cons_self
    obtain ⟨links, hlinks⟩ := ih fun other hother => h other (List.mem_cons_of_mem _ hother)
    refine ⟨⟨r, target⟩ :: links, ?_⟩
    rw [Registry.links, htarget]
    exact Failure.bind_eq_ok_iff.2 ⟨links, hlinks, rfl⟩

/-- Expanding relationships over rows in memory attaches to each row what their links lead to. -/
theorem outcome_expand_of_links {relationships : List Relationship} {links : List Link}
    (hlinks : registry.links table relationships = .ok links) (parents : List Row)
    (memory : Memory) :
    (registry.expand table parents relationships).outcome memory.source =
      .ok (parents.map (Link.attach table
        (links.map fun link => (link, link.fetched memory table parents)))) := by
  have hasked : (Fetch.ofExcept (registry.links table relationships)).outcome memory.source =
      .ok links := by
    rw [Fetch.outcome_ofExcept, hlinks]
  rw [expand, Fetch.outcome_bind_of_ok hasked, Fetch.outcome_bind_of_ok (Link.outcome_fetchAll links)]
  rfl

/-- Expanding relationships with registered targets over rows in memory succeeds. -/
theorem outcome_expand (table : Table) (parents : List Row) (memory : Memory)
    {relationships : List Relationship}
    (h : ∀ r ∈ relationships, ∃ target, registry.table? r.target = some target) :
    ∃ links : List Link, links.map Link.relationship = relationships ∧
      (∀ link ∈ links, registry.table? link.relationship.target = some link.target) ∧
      (registry.expand table parents relationships).outcome memory.source =
        .ok (parents.map (Link.attach table
          (links.map fun link => (link, link.fetched memory table parents)))) := by
  obtain ⟨links, hlinks⟩ := exists_links table h
  obtain ⟨hrelationships, htargets⟩ := of_links hlinks
  exact ⟨links, hrelationships, htargets, outcome_expand_of_links hlinks parents memory⟩

end Registry

/-! ## What is attached -/

/-- The keys of a table in ascending order. -/
def Table.keyOrder (table : Table) : List SortKey :=
  table.primaryKey.map fun name => ⟨name, .ascending⟩

/-- Whether a relationship joins a row to a stored row of its target: both have values in the joined
columns, and these are equal. -/
def Relationship.joins (r : Relationship) (table target : Table) (parent child : Row) : Bool :=
  (table.cell? parent r.localColumn).any fun near =>
    (target.cell? child r.targetColumn).any fun remote => remote.equals near

/-- The stored rows that a relationship joins to a row, as the target shows them, by its primary
key. -/
def Memory.joined (memory : Memory) (r : Relationship) (table target : Table) (parent : Row) :
    List Row :=
  (SortKey.sort target target.keyOrder
    ((memory.rows target.name).filter (r.joins table target parent))).map target.project

/-- What expansion makes of a row: the row, and under each requested name the rows that the
relationship joins to it, as the target shows them, by the primary key of the target. -/
structure Expanded (registry : Registry) (memory : Memory) (table : Table)
    (relationships : List Relationship) (parent : Row) (result : ResultRow) : Prop where
  columns_eq : result.columns = parent
  mem_names : ∀ name, name ∈ result.related.names ↔ name ∈ relationships.map Relationship.name
  related : ∀ r ∈ relationships, ∃ target children occurrences,
    registry.table? r.target = some target ∧ result.related? r.name = some children ∧
      Arranged target target.keyOrder (memory.rows r.target) (r.joins table target parent)
        occurrences ∧
      children.map Row.fields = occurrences.map fun occurrence => target.shown occurrence.1
  unlinked : ∀ r ∈ relationships, table.cell? parent r.localColumn = none →
    result.related? r.name = some []

namespace Link

variable {link : Link} {near remote : Column} {parent : Row}

/-- Two values of joined columns have the same text exactly when they are equal. -/
theorem joinText_eq_iff {v w : Value} {type : ColumnType} (hv : v.Fits type) (hw : w.Fits type)
    (hfloat : type ≠ .float) : w.joinText = v.joinText ↔ w.equals v = true := by
  rw [Value.joinText, Value.joinText, Value.text_toJson_inj hw hv, Value.equals,
    decide_eq_true_eq]
  constructor
  · intro h
    rw [h]
    exact hv.compare?_self
  · intro h
    exact Value.eq_of_compare?_eq (hw.type_eq.trans hv.type_eq.symm) (hw.type_eq ▸ hfloat) h

/-- Matching by text is joining. -/
theorem decide_joinText?_eq_joins
    (hjoins : registry.Joins table link.relationship link.target near remote)
    (hfloat : near.type ≠ .float) {v : Value}
    (hv : table.cell? parent link.relationship.localColumn = some v) (child : Row) :
    decide (link.target.joinText? child link.relationship.targetColumn = some v.joinText) =
      link.relationship.joins table link.target parent child := by
  rw [Relationship.joins, hv, Option.any_some, Table.joinText?]
  cases hw : link.target.cell? child link.relationship.targetColumn with
  | none => rfl
  | some w =>
    have hfitsv := Table.fits_of_cell? hjoins.near_eq hv
    have hfitsw := hjoins.type_eq ▸ Table.fits_of_cell? hjoins.remote_eq hw
    rw [Option.map_some, Option.any_some, Bool.eq_iff_iff, decide_eq_true_eq, Option.some.injEq]
    exact joinText_eq_iff hfitsv hfitsw hfloat

/-- A stored row that is joined to a row of the page is among those that are asked for. -/
theorem holds_of_joins (hjoins : registry.Joins table link.relationship link.target near remote)
    (hparent : parent ∈ parents) {child : Row}
    (h : link.relationship.joins table link.target parent child = true) :
    (Predicate.isIn link.relationship.targetColumn
      (table.distinctKeys link.relationship.localColumn parents)).holds link.target child = true := by
  rw [Relationship.joins, Option.any_eq_true] at h
  obtain ⟨v, hv, hremote⟩ := h
  rw [Option.any_eq_true] at hremote
  obtain ⟨w, hw, hequals⟩ := hremote
  obtain ⟨key, hkey, htext⟩ := Table.exists_mem_distinctKeys hparent hv
  obtain ⟨other, _, hother⟩ := Table.exists_cell?_of_mem_distinctKeys hkey
  have hfits := Table.fits_of_cell? hjoins.near_eq hv
  have hsame : key = v :=
    (Value.text_toJson_inj (Table.fits_of_cell? hjoins.near_eq hother) hfits).1 htext
  rw [Predicate.isIn, Predicate.holds, hw, Option.any_some, Bool.bne_false, List.any_eq_true]
  refine ⟨v, hsame ▸ hkey, ?_⟩
  rw [Value.equals, decide_eq_true_eq] at hequals ⊢
  exact Value.compare?_eq_eq_comm.1 hequals

/-- The children of a row are the rows that are joined to it, whatever other rows are on the page. -/
theorem children_eq_joined (memory : Memory)
    (hjoins : registry.Joins table link.relationship link.target near remote)
    (hnodup : (link.target.columns.map Column.name).Nodup) (hfloat : near.type ≠ .float)
    (hparent : parent ∈ parents) :
    link.children table (link.fetched memory table parents) parent =
      memory.joined link.relationship table link.target parent := by
  cases hv : table.cell? parent link.relationship.localColumn with
  | none =>
    have hjoined : link.relationship.joins table link.target parent = fun _ => false := by
      funext child
      rw [Relationship.joins, hv, Option.any_none]
    rw [children, Table.joinText?, hv, Memory.joined, hjoined, List.filter_eq_nil_iff.2 (by simp),
      SortKey.sort, List.mergeSort_nil]
    rfl
  | some v =>
    have hchild (child : Row) : decide (link.target.joinText? (link.target.project child)
        link.relationship.targetColumn = some v.joinText) =
          link.relationship.joins table link.target parent child := by
      rw [← decide_joinText?_eq_joins hjoins hfloat hv, Table.joinText?, Table.joinText?,
        Table.cell?_project hnodup]
    -- The rows that are asked for and joined are the rows that are joined.
    have hrows : (memory.matching link.target (.isIn link.relationship.targetColumn
        (table.distinctKeys link.relationship.localColumn parents))).filter
          (link.relationship.joins table link.target parent) =
        (memory.rows link.target.name).filter
          (link.relationship.joins table link.target parent) := by
      rw [Memory.matching, List.filter_filter]
      apply List.filter_congr
      intro child _
      cases hjoined : link.relationship.joins table link.target parent child with
      | false => rfl
      | true => exact holds_of_joins hjoins hparent hjoined
    have hfetched : link.fetched memory table parents =
        (SortKey.sort link.target link.target.keyOrder
          (memory.matching link.target (.isIn link.relationship.targetColumn
            (table.distinctKeys link.relationship.localColumn parents)))).map link.target.project := rfl
    rw [Memory.joined, ← hrows, ← SortKey.filter_sort, children, Table.joinText?, hv, hfetched]
    simp only [Option.map_some, List.filter_map, Function.comp_def, hchild]

/-- The children of a row are the projections of the stored rows that are joined to it, in order. -/
theorem exists_arranged_children (memory : Memory)
    (hjoins : registry.Joins table link.relationship link.target near remote)
    (hsound : registry.Sound link.target) (hfloat : near.type ≠ .float) (hparent : parent ∈ parents) :
    ∃ occurrences, Arranged link.target link.target.keyOrder (memory.rows link.target.name)
        (link.relationship.joins table link.target parent) occurrences ∧
      (link.children table (link.fetched memory table parents) parent).map Row.fields =
        occurrences.map fun occurrence => link.target.shown occurrence.1 := by
  obtain ⟨occurrences, harranged, hrows⟩ := Arranged.exists_of_sort link.target
    link.target.keyOrder (memory.rows link.target.name)
    (link.relationship.joins table link.target parent)
  refine ⟨occurrences, harranged, ?_⟩
  rw [children_eq_joined memory hjoins hsound.columns_nodup hfloat hparent, Memory.joined, ← hrows]
  simp only [List.map_map, Function.comp_def, Table.fields_project hsound.columns_nodup]

end Link

/-- Under the name of a relationship stand the children that its link leads to, if no other link has
this name. -/
theorem Link.related?_attach_of_forall {groups : List (Link × List Row)} {group : Link × List Row}
    (hgroup : group ∈ groups)
    (hsame : ∀ other ∈ groups, other.1.relationship.name = group.1.relationship.name → other = group)
    (parent : Row) :
    (Link.attach table groups parent).related? group.1.relationship.name =
      some (group.1.children table group.2 parent) := by
  rw [ResultRow.related?, Link.attach, NameMap.get?_ofList]
  cases hfound : List.lookup group.1.relationship.name (groups.map fun other =>
      (other.1.relationship.name, other.1.children table other.2 parent)).reverse with
  | none =>
    have hother := List.lookup_eq_none_iff.1 hfound _
      (List.mem_reverse.2 (List.mem_map_of_mem hgroup))
    simp at hother
  | some children =>
    obtain ⟨before, after, hsplit, -⟩ := List.lookup_eq_some_iff.1 hfound
    have hmem : (group.1.relationship.name, children) ∈ groups.map fun other =>
        (other.1.relationship.name, other.1.children table other.2 parent) := by
      rw [← List.mem_reverse, hsplit]
      exact List.mem_append_right _ List.mem_cons_self
    obtain ⟨other, hother, heq⟩ := List.mem_map.1 hmem
    rw [Prod.mk.injEq] at heq
    rw [← heq.2, hsame other hother heq.1]

/-- Under the name of each relationship stand the children that its link leads to. -/
theorem Link.related?_attach {groups : List (Link × List Row)}
    (hnodup : (groups.map fun group => group.1.relationship.name).Nodup)
    {group : Link × List Row} (h : group ∈ groups) (parent : Row) :
    (Link.attach table groups parent).related? group.1.relationship.name =
      some (group.1.children table group.2 parent) :=
  Link.related?_attach_of_forall h
    (fun _ hother hname => List.inj_on_of_nodup_map hnodup hother h hname) parent

/-- Expanding declared relationships of distinct names over rows in memory is joining: it succeeds,
keeps the rows and their order, and attaches to each row what the relationships join to it. -/
theorem Registry.outcome_expand_eq_join {name : String} (built : registry.Built)
    (hvalid : registry.validate = .ok ()) (htable : registry.table? name = some table)
    {relationships : List Relationship} (hdeclared : ∀ r ∈ relationships, r ∈ table.relationships)
    (hnodup : (relationships.map Relationship.name).Nodup)
    (hfloat : ∀ r ∈ relationships, ∀ column, table.column? r.localColumn = some column →
      column.type ≠ .float)
    (parents : List Row) (memory : Memory) :
    ∃ expanded : Row → ResultRow,
      (registry.expand table parents relationships).outcome memory.source =
        .ok (parents.map expanded) ∧
      ∀ parent ∈ parents, Expanded registry memory table relationships parent (expanded parent) := by
  have hsound := sound_of_validate hvalid htable
  obtain ⟨links, hrelationships, htargets, houtcome⟩ :=
    outcome_expand table parents memory fun r hr => by
      obtain ⟨target, _, _, hjoins⟩ := hsound.joins r (hdeclared r hr)
      exact ⟨target, hjoins.target_eq⟩
  have hnames : (links.map fun link => (link, link.fetched memory table parents)).map
      (fun group => group.1.relationship.name) = relationships.map Relationship.name := by
    rw [← hrelationships, List.map_map, List.map_map]
    rfl
  refine ⟨_, houtcome, fun parent hparent =>
    ⟨rfl, fun other => ?_, fun r hr => ?_, fun r hr hnone => ?_⟩⟩
  · rw [← hnames]
    refine (NameMap.mem_names_ofList ?_).trans ?_
    · rw [List.map_map]
      exact hnames ▸ hnodup
    · rw [List.map_map]
      rfl
  · rw [← hrelationships] at hr
    obtain ⟨link, hlink, rfl⟩ := List.mem_map.1 hr
    have hr : link.relationship ∈ relationships := hrelationships ▸ List.mem_map_of_mem hlink
    obtain ⟨target, near, remote, hjoins⟩ := hsound.joins _ (hdeclared _ hr)
    have htarget : target = link.target :=
      Option.some.inj (hjoins.target_eq.symm.trans (htargets link hlink))
    subst htarget
    obtain ⟨occurrences, harranged, hfields⟩ := Link.exists_arranged_children memory hjoins
      (sound_of_validate hvalid hjoins.target_eq) (hfloat _ hr near hjoins.near_eq) hparent
    rw [built.name_eq hjoins.target_eq] at harranged
    exact ⟨link.target, _, occurrences, hjoins.target_eq,
      Link.related?_attach (hnames ▸ hnodup) (List.mem_map_of_mem hlink) parent, harranged, hfields⟩
  · rw [← hrelationships] at hr
    obtain ⟨link, hlink, rfl⟩ := List.mem_map.1 hr
    rw [Link.related?_attach (hnames ▸ hnodup) (List.mem_map_of_mem hlink) parent, Link.children,
      Table.joinText?, hnone]
    rfl

/-- Books of one author, of another, and of none are expanded by their authors. -/
theorem Registry.outcome_expand_library :
    let books : List Row := [
      .ofList [("id", .int 7), ("author_id", .int 1), ("title", .str "notes")],
      .ofList [("id", .int 8), ("author_id", .int 2), ("title", .str "on numbers")],
      .ofList [("id", .int 9), ("author_id", .null), ("title", .str "letters")]]
    let memory := Memory.empty.append "author" [
      .ofList [("id", .int 2), ("name", .str "alan")], .ofList [("id", .int 1), ("name", .str "ada")]]
    ∃ expanded : Row → ResultRow,
      (library.expand book books book.relationships).outcome memory.source =
        .ok (books.map expanded) ∧
      ∀ row ∈ books, Expanded library memory book book.relationships row (expanded row) := by
  intro books memory
  have htable : library.table? "book" = some book := rfl
  refine outcome_expand_eq_join built_library validate_library htable (fun _ hr => hr) (by decide)
    (fun r hr column hcolumn => ?_) books memory
  rw [List.mem_singleton.1 hr] at hcolumn
  have hinteger : book.column? "author_id" = some ⟨"author_id", .integer, true⟩ := rfl
  rw [← Option.some.inj (hinteger.symm.trans hcolumn)]
  decide

/-- The engine for the library. -/
def Engine.library : Engine := ⟨.library, {}, Registry.validate_library⟩

end TableQuery
