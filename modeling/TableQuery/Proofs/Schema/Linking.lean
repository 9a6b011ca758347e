import TableQuery.Proofs.Schema.Validation

/-!
# Linking

A link is declared on both of its tables, or on those of them that are registered. Between two tables
that do not have relationships of each other's names, over columns of one type, it keeps a registry
valid: it adds one relationship to each of the two and leaves everything else as it was. A link to an
unregistered table is reported through the other one, whose new relationship leads nowhere. When neither
is registered there is no such relationship: nothing is declared, and nothing is reported.
-/

namespace TableQuery

namespace Relationship

/-- A relationship that is named after its target is restored by reversing it twice. -/
theorem reversed_reversed (target localColumn targetColumn source : String) :
    ((named target localColumn targetColumn).reversed source).reversed target =
      named target localColumn targetColumn := rfl

end Relationship

namespace Table

variable {table : Table} {r : Relationship} {name : String}

/-- A declared relationship is one of the table. -/
theorem mem_withRelationship (table : Table) (r : Relationship) :
    r ∈ (table.withRelationship r).relationships := List.mem_concat_self

/-- A declared relationship is found by its name, if no earlier one has this name. -/
theorem relationship?_withRelationship (h : table.relationship? r.name = none) :
    (table.withRelationship r).relationship? r.name = some r := by
  rw [relationship?] at h
  simp [relationship?, withRelationship, List.find?_append, h]

/-- No relationship is found by a name that none has. -/
theorem relationship?_eq_none_iff :
    table.relationship? name = none ↔ name ∉ table.relationships.map Relationship.name := by
  simp [relationship?]

end Table

namespace Registry

variable {registry : Registry} {table leftTable rightTable target : Table} {r s : Relationship}
  {near remote : Column} {name declared left leftColumn right rightColumn : String}

/-! ## Declaring -/

/-- A declared relationship is added to the table under one name, if there is one. -/
theorem table?_declare : (registry.declare declared r).table? name =
    if name = declared then (registry.table? name).map fun table => table.withRelationship r
    else registry.table? name :=
  NameMap.get?_modify registry.tables declared name _

/-- The table under the name gets the relationship. -/
theorem table?_declare_self (h : registry.table? declared = some table) :
    (registry.declare declared r).table? declared = some (table.withRelationship r) := by
  rw [table?_declare, if_pos rfl, h, Option.map_some]

/-- The tables under other names stay as they are. -/
theorem table?_declare_of_ne (h : name ≠ declared) :
    (registry.declare declared r).table? name = registry.table? name := by
  rw [table?_declare, if_neg h]

/-- Declaring registers no table. -/
theorem table?_declare_eq_none_iff :
    (registry.declare declared r).table? name = none ↔ registry.table? name = none := by
  rw [table?_declare]
  split
  next => exact Option.map_eq_none_iff
  next => exact Iff.rfl

/-- Declaring on a table that is not registered changes nothing. -/
theorem declare_eq_self (h : registry.table? declared = none) : registry.declare declared r = registry :=
  congrArg Registry.mk (NameMap.modify_of_get?_eq_none h _)

/-- Another relationship of a table leads where it led. -/
theorem Joins.withRelationship (h : registry.Joins table r target near remote) :
    registry.Joins (table.withRelationship s) r target near remote :=
  ⟨h.target_eq, h.near_eq, h.remote_eq, h.type_eq⟩

/-- A relationship joins the same columns after one is declared, perhaps on its target. -/
theorem Joins.declare (h : registry.Joins table r target near remote) (declared : String)
    (s : Relationship) : ∃ after, (registry.declare declared s).Joins table r after near remote := by
  by_cases htarget : r.target = declared
  · refine ⟨target.withRelationship s, ?_, h.near_eq, h.remote_eq, h.type_eq⟩
    exact htarget ▸ table?_declare_self (htarget ▸ h.target_eq)
  · exact ⟨target, (table?_declare_of_ne htarget).trans h.target_eq, h.near_eq, h.remote_eq, h.type_eq⟩

/-- A table stays sound when a relationship is declared, perhaps on another table. -/
theorem Sound.declare (h : registry.Sound table) : (registry.declare declared s).Sound table where
  columns_nodup := h.columns_nodup
  columns_not_reserved := h.columns_not_reserved
  key_ne_nil := h.key_ne_nil
  key_declared := h.key_declared
  relationships_nodup := h.relationships_nodup
  joins r hr := by
    obtain ⟨target, near, remote, hjoins⟩ := h.joins r hr
    obtain ⟨after, hafter⟩ := hjoins.declare declared s
    exact ⟨after, near, remote, hafter⟩

/-- A sound table stays sound with a relationship of a new name that joins columns of one type. -/
theorem Sound.withRelationship (h : registry.Sound table) (hfresh : table.relationship? r.name = none)
    (hjoins : registry.Joins table r target near remote) :
    registry.Sound (table.withRelationship r) where
  columns_nodup := h.columns_nodup
  columns_not_reserved := h.columns_not_reserved
  key_ne_nil := h.key_ne_nil
  key_declared := h.key_declared
  relationships_nodup := by
    have hnew := Table.relationship?_eq_none_iff.1 hfresh
    rw [Table.withRelationship, List.map_append, List.map_singleton, ← List.concat_eq_append,
      List.nodup_concat]
    exact ⟨hnew, h.relationships_nodup⟩
  joins other hother := by
    rcases List.mem_append.1 hother with hold | hnew
    · obtain ⟨found, first, second, hfound⟩ := h.joins other hold
      exact ⟨found, first, second, hfound.withRelationship⟩
    · obtain rfl := List.mem_singleton.1 hnew
      exact ⟨target, near, remote, hjoins.withRelationship⟩

/-- A registry stays valid when a relationship of a new name that joins columns of one type is
declared. -/
theorem validate_declare (hvalid : registry.validate = .ok ())
    (htable : registry.table? declared = some table) (hfresh : table.relationship? r.name = none)
    (hjoins : registry.Joins table r target near remote) :
    (registry.declare declared r).validate = .ok () := by
  refine validate_eq_ok_iff_sound.2 fun name found hfound => ?_
  -- The table of the name has one more relationship; every other table is as it was.
  rw [table?_declare] at hfound
  split at hfound
  next heq =>
    subst heq
    rw [htable, Option.map_some, Option.some.injEq] at hfound
    subst hfound
    exact ((sound_of_validate hvalid htable).withRelationship hfresh hjoins).declare
  next => exact (sound_of_validate hvalid hfound).declare

/-- A registry with a problem is refused with all its problems. -/
theorem validate_eq_error_of_mem {problem : Problem} (h : problem ∈ registry.problems) :
    registry.validate = .error (.internal (.invalidRegistry registry.problems)) :=
  validate_eq_error fun hvalid => List.not_mem_nil ((validate_eq_ok_iff registry).1 hvalid ▸ h)

/-! ## Both ends of a link -/

/-- The first table of a link gets the relationship to the second. -/
theorem table?_link_left (hne : left ≠ right) (hleft : registry.table? left = some table) :
    (registry.link left leftColumn right rightColumn).table? left =
      some (table.withRelationship (.named right leftColumn rightColumn)) :=
  (table?_declare_of_ne hne).trans (table?_declare_self hleft)

/-- The second table of a link gets the reversed relationship. -/
theorem table?_link_right (hne : left ≠ right) (hright : registry.table? right = some table) :
    (registry.link left leftColumn right rightColumn).table? right =
      some (table.withRelationship (.named left rightColumn leftColumn)) :=
  table?_declare_self ((table?_declare_of_ne hne.symm).trans hright)

/-- A link leaves all other tables as they are. -/
theorem table?_link_of_ne (hleft : name ≠ left) (hright : name ≠ right) :
    (registry.link left leftColumn right rightColumn).table? name = registry.table? name :=
  (table?_declare_of_ne hright).trans (table?_declare_of_ne hleft)

/-- Linking registers no table. -/
theorem table?_link_eq_none_iff :
    (registry.link left leftColumn right rightColumn).table? name = none ↔
      registry.table? name = none :=
  table?_declare_eq_none_iff.trans table?_declare_eq_none_iff

/-- A link between two registered tables without relationships of each other's names, over columns of
one type, keeps a registry valid. -/
theorem validate_link (hvalid : registry.validate = .ok ()) (hne : left ≠ right)
    (hleft : registry.table? left = some leftTable) (hright : registry.table? right = some rightTable)
    (hnear : leftTable.column? leftColumn = some near)
    (hremote : rightTable.column? rightColumn = some remote) (htype : near.type = remote.type)
    (hfreshLeft : leftTable.relationship? right = none)
    (hfreshRight : rightTable.relationship? left = none) :
    (registry.link left leftColumn right rightColumn).validate = .ok () := by
  let forward := Relationship.named right leftColumn rightColumn
  have hforward : registry.Joins leftTable forward rightTable near remote :=
    ⟨hright, hnear, hremote, htype⟩
  have hdeclared : (registry.declare left forward).validate = .ok () :=
    validate_declare hvalid hleft hfreshLeft hforward
  -- The way back leads to the table that has just got the relationship forth.
  have hbackward : (registry.declare left forward).Joins rightTable (forward.reversed left)
      (leftTable.withRelationship forward) remote near :=
    ⟨table?_declare_self hleft, hremote, hnear, htype.symm⟩
  exact validate_declare hdeclared ((table?_declare_of_ne hne.symm).trans hright) hfreshRight hbackward

/-- A link from a registered table to an unregistered one is reported. -/
theorem unknownTarget_mem_problems_link_left (hleft : registry.table? left = some table)
    (hright : registry.table? right = none) :
    .unknownTarget table.name right right ∈
      (registry.link left leftColumn right rightColumn).problems := by
  have hne : left ≠ right := fun heq => Option.some_ne_none table (hleft.symm.trans (heq ▸ hright))
  have hmem := table.mem_withRelationship (.named right leftColumn rightColumn)
  exact mem_problems_iff.2 ⟨left, _, table?_link_left hne hleft,
    .unknownTarget hmem (table?_link_eq_none_iff.2 hright)⟩

/-- A link from an unregistered table to a registered one is reported. -/
theorem unknownTarget_mem_problems_link_right (hleft : registry.table? left = none)
    (hright : registry.table? right = some table) :
    .unknownTarget table.name left left ∈
      (registry.link left leftColumn right rightColumn).problems := by
  have hne : left ≠ right := fun heq => Option.some_ne_none table (hright.symm.trans (heq ▸ hleft))
  have hmem := table.mem_withRelationship (.named left rightColumn leftColumn)
  exact mem_problems_iff.2 ⟨right, _, table?_link_right hne hright,
    .unknownTarget hmem (table?_link_eq_none_iff.2 hleft)⟩

/-- A link between two unregistered tables changes nothing. -/
theorem link_eq_self (hleft : registry.table? left = none) (hright : registry.table? right = none) :
    registry.link left leftColumn right rightColumn = registry := by
  rw [link, declare_eq_self hleft, declare_eq_self hright]

/-- A link of which one end is not registered is reported when the other end is: as a relationship of
the registered table to an unknown one. When neither is registered the registry stays as it is, so that
it is accepted exactly when it was. -/
theorem validate_link_of_unregistered
    (h : registry.table? left = none ∨ registry.table? right = none) :
    (∀ table, registry.table? left = some table → ∃ problems,
      (registry.link left leftColumn right rightColumn).validate =
          .error (.internal (.invalidRegistry problems)) ∧
        .unknownTarget table.name right right ∈ problems) ∧
    (∀ table, registry.table? right = some table → ∃ problems,
      (registry.link left leftColumn right rightColumn).validate =
          .error (.internal (.invalidRegistry problems)) ∧
        .unknownTarget table.name left left ∈ problems) ∧
    (registry.table? left = none → registry.table? right = none →
      registry.link left leftColumn right rightColumn = registry) ∧
    ((registry.link left leftColumn right rightColumn).validate = .ok () ↔
      registry.table? left = none ∧ registry.table? right = none ∧ registry.validate = .ok ()) := by
  have hforward (table : Table) (hleft : registry.table? left = some table) :
      .unknownTarget table.name right right ∈
        (registry.link left leftColumn right rightColumn).problems :=
    unknownTarget_mem_problems_link_left hleft
      (h.resolve_left fun hnone => Option.some_ne_none table (hleft.symm.trans hnone))
  have hbackward (table : Table) (hright : registry.table? right = some table) :
      .unknownTarget table.name left left ∈
        (registry.link left leftColumn right rightColumn).problems :=
    unknownTarget_mem_problems_link_right
      (h.resolve_right fun hnone => Option.some_ne_none table (hright.symm.trans hnone)) hright
  refine ⟨fun table hleft => ⟨_, validate_eq_error_of_mem (hforward table hleft), hforward table hleft⟩,
    fun table hright => ⟨_, validate_eq_error_of_mem (hbackward table hright), hbackward table hright⟩,
    link_eq_self, ?_⟩
  constructor
  · intro hvalid
    have hproblems := (validate_eq_ok_iff _).1 hvalid
    have hleft : registry.table? left = none := Option.eq_none_iff_forall_ne_some.2
      fun table hleft => List.not_mem_nil (hproblems ▸ hforward table hleft)
    have hright : registry.table? right = none := Option.eq_none_iff_forall_ne_some.2
      fun table hright => List.not_mem_nil (hproblems ▸ hbackward table hright)
    exact ⟨hleft, hright, link_eq_self hleft hright ▸ hvalid⟩
  · rintro ⟨hleft, hright, hvalid⟩
    exact (link_eq_self hleft hright).symm ▸ hvalid

/-- A link from the authors to novels, which the library does not have, is reported of the authors. -/
theorem validate_link_of_unregistered_library :
    library.table? "novel" = none ∧ ∃ problems,
      (library.link "author" "id" "novel" "author_id").validate =
          .error (.internal (.invalidRegistry problems)) ∧
        .unknownTarget "author" "novel" "novel" ∈ problems := by
  have hnovel : library.table? "novel" = none := rfl
  have hauthor : library.table? "author" = some author := rfl
  exact ⟨hnovel, (validate_link_of_unregistered (Or.inr hnovel)).1 author hauthor⟩

/-- A link between writers and novels, neither of which the library has, is not reported. -/
theorem accepts_link_of_writers :
    library.Built ∧ library.validate = .ok () ∧ library.table? "writer" = none ∧
      library.table? "novel" = none ∧
      (library.link "writer" "id" "novel" "writer_id").validate = .ok () := by
  have hwriter : library.table? "writer" = none := rfl
  have hnovel : library.table? "novel" = none := rfl
  refine ⟨built_library, validate_library, hwriter, hnovel, ?_⟩
  rw [link_eq_self hwriter hnovel, validate_library]

end Registry

end TableQuery
