import TableQuery.Proofs.Engine.Expansion
import TableQuery.Proofs.Request.Planning
import TableQuery.Proofs.Schema.Linking

/-!
# Converse expansions

The two relationships of a link are each other's reverse, and so are the expansions by them: a row of
one table is listed with a row of the other exactly when that one is listed with it. Both lists are
those of the rows that the link joins, and joining does not depend on the side from which it is seen.
Only for floating-point columns are equal values matched by different texts.
-/

namespace TableQuery

variable {registry linked : Registry} {memory : Memory} {table target leftTable rightTable : Table}
  {r forward backward : Relationship} {near remote : Column} {parent child row : Row}
  {name left leftColumn right rightColumn : String}

/-! ## Joining from both sides -/

/-- Values are equal in both directions or in neither. -/
theorem Value.equals_comm (v w : Value) : v.equals w = w.equals v :=
  decide_eq_decide.2 Value.compare?_eq_eq_comm

/-- A relationship joins two rows exactly when its reverse does. -/
theorem Relationship.joins_reversed (source : String) :
    (r.reversed source).joins target table child parent = r.joins table target parent child := by
  rw [joins, joins, reversed, named]
  cases table.cell? parent r.localColumn <;> cases target.cell? child r.targetColumn <;>
    simp [Value.equals_comm]

/-- A relationship joins a row to what is shown of a stored row exactly when it joins it to the stored
row. -/
theorem Relationship.joins_project (hnodup : (target.columns.map Column.name).Nodup) :
    r.joins table target parent (target.project child) = r.joins table target parent child := by
  rw [joins, joins, Table.cell?_project hnodup]

/-- A query for all rows shows each stored row. -/
theorem Memory.mem_select_always_iff {order : List SortKey} :
    row ∈ memory.select table ⟨.always, order, .unbounded⟩ ↔
      ∃ stored ∈ memory.rows table.name, table.project stored = row := by
  have hmatching : memory.matching table .always = memory.rows table.name :=
    List.filter_eq_self.2 fun _ _ => rfl
  simp only [select, hmatching, Window.apply, Window.unbounded, List.drop_zero, List.mem_map,
    (SortKey.sort_perm table order _).mem_iff]

/-- A stored row is among the joined rows exactly when it is joined. -/
theorem Memory.mem_joined_iff (r : Relationship) (table : Table) (parent : Row)
    (hnodup : (target.columns.map Column.name).Nodup)
    (hchild : ∃ stored ∈ memory.rows target.name, target.project stored = child) :
    child ∈ memory.joined r table target parent ↔ r.joins table target parent child = true := by
  simp only [joined, List.mem_map, (SortKey.sort_perm _ _ _).mem_iff, List.mem_filter]
  constructor
  · rintro ⟨stored, ⟨_, hjoins⟩, rfl⟩
    rwa [Relationship.joins_project hnodup]
  · obtain ⟨stored, hstored, rfl⟩ := hchild
    rw [Relationship.joins_project hnodup]
    exact fun hjoins => ⟨stored, ⟨hstored, hjoins⟩, rfl⟩

namespace Registry

/-- Expanding rows by one relationship gives each of them the rows that it joins to it. -/
theorem outcome_expand_singleton (hjoins : registry.Joins table r target near remote)
    (hnodup : (target.columns.map Column.name).Nodup) (hfloat : near.type ≠ .float)
    (parents : List Row) (memory : Memory) :
    ∃ expanded : Row → ResultRow,
      (registry.expand table parents [r]).outcome memory.source = .ok (parents.map expanded) ∧
        ∀ parent ∈ parents, (expanded parent).columns = parent ∧
          (expanded parent).related? r.name = some (memory.joined r table target parent) := by
  let link : Link := ⟨r, target⟩
  have hlink : registry.Joins table link.relationship link.target near remote := hjoins
  have hlinks : registry.links table [r] = .ok [link] := by
    rw [Registry.links, hjoins.target_eq]
    rfl
  have hnames : ([(link, link.fetched memory table parents)].map fun group =>
      group.1.relationship.name).Nodup := List.nodup_singleton r.name
  refine ⟨_, outcome_expand_of_links hlinks parents memory, fun parent hparent => ⟨rfl, ?_⟩⟩
  have hchildren := Link.children_eq_joined memory hlink hnodup hfloat hparent
  exact (Link.related?_attach hnames (List.mem_singleton_self _) parent).trans
    (congrArg some hchildren)

/-- What a registry makes of a table on which a relationship is declared: the relationship follows all
earlier ones and is found by its name, and these are found as before. -/
structure Gains (linked : Registry) (name : String) (before : Table) (added : Relationship) : Prop where
  table_eq : linked.table? name = some (before.withRelationship added)
  resolves : linked.resolveRelationships (before.withRelationship added) [added.name] = .ok [added]
  keeps : ∀ other r, before.relationship? other = some r →
    (before.withRelationship added).relationship? other = some r

/-- Expansions of rows of two tables by relationships to each other that are converse: both succeed and
keep the rows, and two rows are in each other's lists when the relationship joins them, and in neither
otherwise. -/
structure Converse (registry : Registry) (memory : Memory) (leftTable rightTable : Table)
    (forward backward : Relationship) (lefts rights : List Row)
    (expandLeft expandRight : Row → ResultRow) : Prop where
  left_outcome : (registry.expand leftTable lefts [forward]).outcome memory.source =
    .ok (lefts.map expandLeft)
  right_outcome : (registry.expand rightTable rights [backward]).outcome memory.source =
    .ok (rights.map expandRight)
  left_columns : ∀ p ∈ lefts, (expandLeft p).columns = p
  right_columns : ∀ q ∈ rights, (expandRight q).columns = q
  related : ∀ p ∈ lefts, ∀ q ∈ rights, ∃ ofLeft ofRight,
    (expandLeft p).related? forward.name = some ofLeft ∧
      (expandRight q).related? backward.name = some ofRight ∧
      (q ∈ ofLeft ↔ p ∈ ofRight) ∧ (q ∈ ofLeft ↔ forward.joins leftTable rightTable p q = true)

/-- A table that gets a relationship of a new name to a registered table gains it. -/
theorem gains_of_table? (htable : linked.table? name = some (table.withRelationship r))
    (hfresh : table.relationship? r.name = none) (htarget : linked.table? r.target = some target) :
    linked.Gains name table r where
  table_eq := htable
  resolves := by
    rw [resolveRelationships,
      relationship?_eq_some (Table.relationship?_withRelationship hfresh) htarget]
    rfl
  keeps other earlier h := by
    rw [Table.relationship?] at h
    rw [Table.relationship?, Table.withRelationship, List.find?_append, h, Option.some_or]

/-- The expansions of all rows of two tables by a relationship and its reverse are converse. -/
theorem exists_converse (hforward : registry.Joins leftTable forward rightTable near remote)
    (hbackward : registry.Joins rightTable (forward.reversed left) leftTable remote near)
    (hleft : (leftTable.columns.map Column.name).Nodup)
    (hright : (rightTable.columns.map Column.name).Nodup) (hfloat : near.type ≠ .float)
    (memory : Memory) (leftOrder rightOrder : List SortKey) :
    ∃ expandLeft expandRight, registry.Converse memory leftTable rightTable forward
      (forward.reversed left) (memory.select leftTable ⟨.always, leftOrder, .unbounded⟩)
      (memory.select rightTable ⟨.always, rightOrder, .unbounded⟩) expandLeft expandRight := by
  obtain ⟨expandLeft, hleftOutcome, hlefts⟩ := outcome_expand_singleton hforward hright hfloat
    (memory.select leftTable ⟨.always, leftOrder, .unbounded⟩) memory
  obtain ⟨expandRight, hrightOutcome, hrights⟩ := outcome_expand_singleton hbackward hleft
    (hforward.type_eq ▸ hfloat) (memory.select rightTable ⟨.always, rightOrder, .unbounded⟩) memory
  refine ⟨expandLeft, expandRight, hleftOutcome, hrightOutcome, fun p hp => (hlefts p hp).1,
    fun q hq => (hrights q hq).1, fun p hp q hq => ?_⟩
  have hofLeft := Memory.mem_joined_iff forward leftTable p hright (Memory.mem_select_always_iff.1 hq)
  have hofRight := Memory.mem_joined_iff (forward.reversed left) rightTable q hleft
    (Memory.mem_select_always_iff.1 hp)
  rw [Relationship.joins_reversed] at hofRight
  exact ⟨_, _, (hlefts p hp).2, (hrights q hq).2, hofLeft.trans hofRight.symm, hofLeft⟩

/-- A link between two tables of a valid registry that have no relationships named after each other, over
columns of one type, leaves the registry valid and every other table as it is. Both tables gain a
relationship, each the reverse of the other and restored by reversing it twice. Unless the columns hold
floating-point numbers, the expansions of all rows by these relationships are converse. -/
theorem link_is_symmetric (hvalid : registry.validate = .ok ()) (hne : left ≠ right)
    (hleft : registry.table? left = some leftTable) (hright : registry.table? right = some rightTable)
    (hnear : leftTable.column? leftColumn = some near)
    (hremote : rightTable.column? rightColumn = some remote) (htype : near.type = remote.type)
    (hfreshLeft : leftTable.relationship? right = none)
    (hfreshRight : rightTable.relationship? left = none) :
    let linked := registry.link left leftColumn right rightColumn
    let forward := Relationship.named right leftColumn rightColumn
    let backward := Relationship.named left rightColumn leftColumn
    linked.validate = .ok () ∧
    (∀ name, name ≠ left → name ≠ right → linked.table? name = registry.table? name) ∧
    linked.Gains left leftTable forward ∧ linked.Gains right rightTable backward ∧
    forward.name = right ∧ backward.name = left ∧
    forward.reversed left = backward ∧ backward.reversed right = forward ∧
    (forward.reversed left).reversed right = forward ∧
    (backward.reversed right).reversed left = backward ∧
    (near.type ≠ .float → ∀ (memory : Memory) (leftOrder rightOrder : List SortKey),
      ∃ expandLeft expandRight,
        linked.Converse memory (leftTable.withRelationship forward)
          (rightTable.withRelationship backward) forward backward
          (memory.select (leftTable.withRelationship forward) ⟨.always, leftOrder, .unbounded⟩)
          (memory.select (rightTable.withRelationship backward) ⟨.always, rightOrder, .unbounded⟩)
          expandLeft expandRight) := by
  intro linked forward backward
  have hleftLinked : linked.table? left = some (leftTable.withRelationship forward) :=
    table?_link_left hne hleft
  have hrightLinked : linked.table? right = some (rightTable.withRelationship backward) :=
    table?_link_right hne hright
  have hforward : linked.Joins (leftTable.withRelationship forward) forward
      (rightTable.withRelationship backward) near remote := ⟨hrightLinked, hnear, hremote, htype⟩
  have hbackward : linked.Joins (rightTable.withRelationship backward) (forward.reversed left)
      (leftTable.withRelationship forward) remote near := ⟨hleftLinked, hremote, hnear, htype.symm⟩
  exact ⟨validate_link hvalid hne hleft hright hnear hremote htype hfreshLeft hfreshRight,
    fun _ => table?_link_of_ne, gains_of_table? hleftLinked hfreshLeft hrightLinked,
    gains_of_table? hrightLinked hfreshRight hleftLinked, rfl, rfl, rfl, rfl,
    Relationship.reversed_reversed .., Relationship.reversed_reversed ..,
    exists_converse hforward hbackward (sound_of_validate hvalid hleft).columns_nodup
      (sound_of_validate hvalid hright).columns_nodup⟩

/-- Authors and books that are not linked yet are linked by the authors of the books. -/
theorem link_is_symmetric_author_book :
    let author := { author with relationships := [] }
    let book := { book with relationships := [] }
    let registry := (empty.register author).register book
    let linked := registry.link "author" "id" "book" "author_id"
    let forward := Relationship.named "book" "id" "author_id"
    let backward := Relationship.named "author" "author_id" "id"
    registry.validate = .ok () ∧ linked.validate = .ok () ∧ linked.Gains "author" author forward ∧
      linked.Gains "book" book backward ∧
      ∀ memory : Memory, ∃ expandAuthor expandBook,
        linked.Converse memory (author.withRelationship forward) (book.withRelationship backward)
          forward backward
          (memory.select (author.withRelationship forward) ⟨.always, [], .unbounded⟩)
          (memory.select (book.withRelationship backward) ⟨.always, [], .unbounded⟩)
          expandAuthor expandBook := by
  intro author book registry linked forward backward
  have hvalid : registry.validate = .ok () := (validate_eq_ok_iff registry).2 (by decide)
  have hauthor : registry.table? "author" = some author := by decide
  have hbook : registry.table? "book" = some book := by decide
  have hnear : author.column? "id" = some ⟨"id", .integer, false⟩ := rfl
  have hremote : book.column? "author_id" = some ⟨"author_id", .integer, true⟩ := rfl
  obtain ⟨hlinked, _, hgains, hgainsBook, _, _, _, _, _, _, hconverse⟩ :=
    link_is_symmetric hvalid (by decide) hauthor hbook hnear hremote rfl rfl rfl
  exact ⟨hvalid, hlinked, hgains, hgainsBook, fun memory => hconverse (by decide) memory [] []⟩

end Registry

end TableQuery
