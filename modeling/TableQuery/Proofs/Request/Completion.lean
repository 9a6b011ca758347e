import TableQuery.Proofs.Request.Planning
import TableQuery.Source.Ordering

/-!
# Completing an order by the primary key

Resolving keeps the requested keys in front and appends the columns of the primary key that are not
sorted by yet, each once and ascending, in the order in which the primary key first lists them. The
result sorts by pairwise distinct declared columns, and it is complete: resolving it again changes
nothing. The appended keys decide only where the requested ones tie.
-/

namespace TableQuery

/-- Erasing later occurrences among wanted names leaves them in the order of their first places. The
induction takes the first name off, which moves the places of all others by one. -/
theorem pairwise_idxOf_eraseDups (names : List String) (wanted : String → Bool) :
    (names.filter wanted).eraseDups.Pairwise fun a b => names.idxOf a < names.idxOf b := by
  induction names generalizing wanted with
  | nil => simp
  | cons name rest ih =>
    have hplace {other : String} (hne : other ≠ name) :
        (name :: rest).idxOf other = rest.idxOf other + 1 := by
      rw [List.idxOf_cons, beq_false_of_ne hne.symm, cond_false]
    have hshift {kept : List String} (hkept : ∀ other ∈ kept, other ≠ name)
        (h : kept.Pairwise fun a b => rest.idxOf a < rest.idxOf b) :
        kept.Pairwise fun a b => (name :: rest).idxOf a < (name :: rest).idxOf b :=
      h.imp_of_mem fun ha hb hab => by
        rw [hplace (hkept _ ha), hplace (hkept _ hb)]
        exact Nat.succ_lt_succ hab
    by_cases hname : wanted name = true
    · rw [List.filter_cons_of_pos hname, List.eraseDups_cons, List.filter_filter]
      have hkept : ∀ other ∈ (rest.filter fun other => (!other == name) && wanted other).eraseDups,
          other ≠ name := by
        intro other hother
        rw [List.mem_eraseDups, List.mem_filter] at hother
        simpa using (Bool.and_eq_true_iff.1 hother.2).1
      refine List.pairwise_cons.2 ⟨fun other hother => ?_, hshift hkept (ih _)⟩
      rw [List.idxOf_cons_self, hplace (hkept other hother)]
      exact Nat.succ_pos _
    · rw [List.filter_cons_of_neg hname]
      refine hshift (fun other hother heq => ?_) (ih wanted)
      rw [List.mem_eraseDups, List.mem_filter, heq] at hother
      exact hname hother.2

namespace SortKey

variable {table : Table} {keys : List SortKey} {added columns : List String}

/-- The columns that an order lacks of a primary key: those that it does not sort by, in the order in
which the primary key first lists them. -/
structure Lacks (table : Table) (keys : List SortKey) (added : List String) : Prop where
  mem_iff : ∀ name, name ∈ added ↔ name ∈ table.primaryKey ∧ name ∉ keys.map column
  ordered : added.Pairwise fun a b => table.primaryKey.idxOf a < table.primaryKey.idxOf b

/-- A column that is lacking is listed once. -/
theorem Lacks.nodup (h : Lacks table keys added) : added.Nodup :=
  h.ordered.imp fun hlt heq => Nat.ne_of_lt hlt (congrArg table.primaryKey.idxOf heq)

/-- Extending an order by the primary key appends ascending keys of the columns that it lacks. -/
theorem exists_lacks (table : Table) (keys : List SortKey) :
    ∃ added, Lacks table keys added ∧
      extend keys table.primaryKey = keys ++ added.map fun name => ⟨name, .ascending⟩ := by
  refine ⟨_, ⟨fun name => ?_, pairwise_idxOf_eraseDups table.primaryKey _⟩, extend_eq keys _⟩
  rw [List.mem_eraseDups, List.mem_filter, decide_eq_true_eq]

/-- An order that sorts by all columns is not extended by them. -/
theorem extend_eq_self (h : ∀ name ∈ columns, name ∈ keys.map column) : extend keys columns = keys := by
  have hnone : (columns.filter fun name => name ∉ keys.map column) = [] :=
    List.filter_eq_nil_iff.2 fun name hname => by simpa using h name hname
  rw [extend_eq, hnone, List.eraseDups_nil, List.map_nil, List.append_nil]

/-- Further keys decide where the first ones tie. -/
theorem compareAll_append (table : Table) (keys more : List SortKey) (a b : Row) :
    compareAll table (keys ++ more) a b =
      (compareAll table keys a b).then (compareAll table more a b) := by
  induction keys with
  | nil => rfl
  | cons key keys ih =>
    change (key.compareRows table a b).then (compareAll table (keys ++ more) a b) =
      ((key.compareRows table a b).then (compareAll table keys a b)).then _
    rw [ih, Ordering.then_assoc]

/-- What resolving an order gives. -/
structure Completes (table : Table) (keys resolved : List SortKey) : Prop where
  requested_first : keys <+: resolved
  eq_nil : keys = [] → resolved = []
  appends : keys ≠ [] → ∃ added, Lacks table keys added ∧
    resolved = keys ++ added.map fun name => ⟨name, .ascending⟩
  covers : keys ≠ [] → ∀ name ∈ table.primaryKey, name ∈ resolved.map column
  nodup : (resolved.map column).Nodup
  declared : ∀ key ∈ resolved, ∃ column, table.column? key.column = some column
  again : resolve table resolved = .ok resolved
  agrees : ∀ a b, compareAll table keys a b ≠ .eq →
    compareAll table resolved a b = compareAll table keys a b

/-- Without keys there is nothing to complete. -/
theorem completes_nil (table : Table) : Completes table [] [] where
  requested_first := List.prefix_rfl
  eq_nil _ := rfl
  appends h := absurd rfl h
  covers h := absurd rfl h
  nodup := .nil
  declared _ hkey := absurd hkey List.not_mem_nil
  again := rfl
  agrees _ _ _ := rfl

/-- Extending an order of distinct columns by the primary key leaves them distinct. -/
theorem nodup_extend (hnodup : (keys.map column).Nodup) :
    ((extend keys table.primaryKey).map column).Nodup := by
  obtain ⟨added, hadded, hextend⟩ := exists_lacks table keys
  have hcolumns : (added.map fun name => (⟨name, .ascending⟩ : SortKey)).map column = added := by
    rw [List.map_map]
    exact List.map_id added
  rw [hextend, List.map_append, hcolumns, List.nodup_append]
  refine ⟨hnodup, hadded.nodup, fun name hlisted other hother heq => ?_⟩
  exact ((hadded.mem_iff other).1 hother).2 (heq ▸ hlisted)

/-- Extending an order of distinct declared columns by the primary key completes it, if the primary key
is declared. -/
theorem completes_extend (hkeys : keys ≠ []) (hnodup : (keys.map column).Nodup)
    (hdeclared : ∀ key ∈ keys, ∃ column, table.column? key.column = some column)
    (hprimary : ∀ name ∈ table.primaryKey, ∃ column, table.column? name = some column) :
    Completes table keys (extend keys table.primaryKey) := by
  obtain ⟨added, hadded, hextend⟩ := exists_lacks table keys
  have hne : extend keys table.primaryKey ≠ [] :=
    hextend ▸ List.append_ne_nil_of_left_ne_nil hkeys _
  have hall : ∀ key ∈ extend keys table.primaryKey,
      ∃ column, table.column? key.column = some column :=
    fun _ => column?_of_mem_extend hdeclared hprimary
  exact {
    requested_first := hextend ▸ List.prefix_append keys _
    eq_nil := fun h => absurd h hkeys
    appends := fun _ => ⟨added, hadded, hextend⟩
    covers := fun _ _ => mem_columns_extend
    nodup := nodup_extend hnodup
    declared := hall
    again := resolve_eq_ok_iff_extend.2
      ⟨hall, by rw [if_neg hne, extend_eq_self fun _ => mem_columns_extend]⟩
    agrees := fun a b hdecided => by
      rw [hextend, compareAll_append]
      cases horder : compareAll table keys a b with
      | lt => rfl
      | gt => rfl
      | eq => exact absurd horder hdecided }

/-- Where the primary key is declared, resolving keys of distinct columns succeeds exactly when all of
them are declared, and then it completes them. -/
theorem resolve_completes
    (hprimary : ∀ name ∈ table.primaryKey, ∃ column, table.column? name = some column)
    (hnodup : (keys.map column).Nodup) :
    ((∃ resolved, resolve table keys = .ok resolved) ↔
      ∀ key ∈ keys, ∃ column, table.column? key.column = some column) ∧
    ∀ resolved, resolve table keys = .ok resolved → Completes table keys resolved := by
  refine ⟨⟨fun ⟨_, h⟩ => (resolve_eq_ok_iff_extend.1 h).1,
    fun h => ⟨_, resolve_eq_ok_iff_extend.2 ⟨h, rfl⟩⟩⟩, fun resolved h => ?_⟩
  obtain ⟨hdeclared, rfl⟩ := resolve_eq_ok_iff_extend.1 h
  by_cases hkeys : keys = []
  · rw [if_pos hkeys, hkeys]
    exact completes_nil table
  · rw [if_neg hkeys]
    exact completes_extend hkeys hnodup hdeclared hprimary

/-- Visits, whose primary key lists the room twice, sorted by guest and day: the room is added once,
before the desk. -/
theorem resolve_completes_visits :
    let table : Table := {
      name := "visit"
      columns := [⟨"day", .date, false⟩, ⟨"room", .integer, false⟩, ⟨"guest", .text, true⟩,
        ⟨"desk", .integer, false⟩]
      primaryKey := ["room", "day", "desk", "room"] }
    let keys : List SortKey := [⟨"guest", .descending⟩, ⟨"day", .descending⟩]
    let resolved := keys ++ [⟨"room", .ascending⟩, ⟨"desk", .ascending⟩]
    (∀ key ∈ keys, ∃ column, table.column? key.column = some column) ∧
      resolve table keys = .ok resolved ∧ Completes table keys resolved := by
  intro table keys resolved
  have hprimary : ∀ name ∈ table.primaryKey, ∃ column, table.column? name = some column := by
    simp [table, Table.column?]
  have hresolve : resolve table keys = .ok resolved := by rfl
  obtain ⟨hsucceeds, hcompletes⟩ := resolve_completes hprimary (by decide : (keys.map column).Nodup)
  exact ⟨hsucceeds.1 ⟨resolved, hresolve⟩, hresolve, hcompletes resolved hresolve⟩

end SortKey

end TableQuery
