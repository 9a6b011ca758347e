import TableQuery.Proofs.Engine.Expansion
import TableQuery.Proofs.Request.Planning
import TableQuery.Proofs.Request.Selection
import TableQuery.Sql.Text

/-!
# The normal form of conditions

A normal condition is the one that always holds, a leaf, a disjunction, or a conjunction of at least
two members that are neither. Normal conditions stand for the lists of their members: conjunctions of
them are joined as the lists are, and the condition that always holds is the empty list. The condition
of a plan is normal. It always holds exactly when neither the request nor the scope constrains
anything, and only then do statements have no WHERE.
-/

namespace TableQuery

namespace Predicate

variable {p : Predicate} {parts xs ys : List Predicate}

/-- A condition that is neither a conjunction nor the one that always holds. -/
def IsMember : Predicate → Prop
  | always | and _ => False
  | or _ | compare _ _ _ | membership _ _ _ | text _ _ _ => True

/-- A condition whose conjunction, if it is one, has at least two members and is flat. -/
def IsNormal : Predicate → Prop
  | and parts => 2 ≤ parts.length ∧ ∀ part ∈ parts, part.IsMember
  | always | or _ | compare _ _ _ | membership _ _ _ | text _ _ _ => True

/-! ## Normal conditions and their members -/

/-- A member is normal. -/
theorem IsMember.isNormal (h : p.IsMember) : p.IsNormal := by
  cases p with
  | always | and => contradiction
  | _ => trivial

/-- A member is the only one that it contributes. -/
theorem IsMember.conjuncts_eq (h : p.IsMember) : p.conjuncts = [p] := by
  cases p with
  | always | and => contradiction
  | _ => rfl

/-- What a normal condition contributes to a conjunction are members. -/
theorem IsNormal.isMember_of_mem (h : p.IsNormal) {part : Predicate} (hpart : part ∈ p.conjuncts) :
    part.IsMember := by
  cases p with
  | always => contradiction
  | and parts => exact h.2 part hpart
  | _ =>
    rw [List.mem_singleton.1 hpart]
    trivial

/-- A conjunction of members is normal. -/
theorem isNormal_ofConjuncts (h : ∀ part ∈ parts, part.IsMember) : (ofConjuncts parts).IsNormal := by
  match parts with
  | [] => trivial
  | [only] => exact (h only List.mem_cons_self).isNormal
  | first :: second :: rest => exact ⟨by simp, h⟩

/-- A conjunction of members contributes these. -/
theorem conjuncts_ofConjuncts (h : ∀ part ∈ parts, part.IsMember) :
    (ofConjuncts parts).conjuncts = parts := by
  match parts with
  | [] => rfl
  | [only] => exact (h only List.mem_cons_self).conjuncts_eq
  | _ :: _ :: _ => rfl

/-- A normal condition is the conjunction of its members. -/
theorem IsNormal.ofConjuncts_conjuncts (h : p.IsNormal) : ofConjuncts p.conjuncts = p := by
  cases p with
  | and parts =>
    match parts, h with
    | _ :: _ :: _, _ => rfl
  | _ => rfl

/-- Only the condition that always holds has no members. -/
theorem IsNormal.conjuncts_eq_nil_iff (h : p.IsNormal) : p.conjuncts = [] ↔ p = always := by
  refine ⟨fun hnil => ?_, fun halways => halways ▸ rfl⟩
  rw [← h.ofConjuncts_conjuncts, hnil]
  rfl

/-! ## Conjunctions of normal conditions -/

/-- What normal conditions contribute to a conjunction are members. -/
theorem isMember_of_mem_flatMap (h : ∀ part ∈ parts, part.IsNormal) :
    ∀ member ∈ parts.flatMap conjuncts, member.IsMember := by
  intro member hmember
  obtain ⟨part, hpart, hmem⟩ := List.mem_flatMap.1 hmember
  exact (h part hpart).isMember_of_mem hmem

/-- A conjunction of normal conditions is normal. -/
theorem IsNormal.all (h : ∀ part ∈ parts, part.IsNormal) : (all parts).IsNormal :=
  isNormal_ofConjuncts (isMember_of_mem_flatMap h)

/-- The members of a conjunction of normal conditions are theirs, in order. -/
theorem conjuncts_all (h : ∀ part ∈ parts, part.IsNormal) :
    (all parts).conjuncts = parts.flatMap conjuncts :=
  conjuncts_ofConjuncts (isMember_of_mem_flatMap h)

/-- Joining two conjunctions of normal conditions joins their lists. -/
theorem all_all (hxs : ∀ x ∈ xs, x.IsNormal) (hys : ∀ y ∈ ys, y.IsNormal) :
    all [all xs, all ys] = all (xs ++ ys) := by
  have hmembers : [all xs, all ys].flatMap conjuncts = (xs ++ ys).flatMap conjuncts := by
    rw [List.flatMap_cons, List.flatMap_singleton, conjuncts_all hxs, conjuncts_all hys,
      List.flatMap_append]
  change ofConjuncts _ = ofConjuncts _
  rw [hmembers]

/-- A normal condition alone is its own conjunction. -/
theorem IsNormal.all_singleton (h : p.IsNormal) : Predicate.all [p] = p := by
  change ofConjuncts ([p].flatMap conjuncts) = p
  rw [List.flatMap_singleton, h.ofConjuncts_conjuncts]

/-- A conjunction of normal conditions always holds when each of them does. -/
theorem all_eq_always_iff (h : ∀ part ∈ parts, part.IsNormal) :
    all parts = always ↔ ∀ part ∈ parts, part = always := by
  rw [← (IsNormal.all h).conjuncts_eq_nil_iff, conjuncts_all h, List.flatMap_eq_nil_iff]
  exact forall₂_congr fun part hpart => (h part hpart).conjuncts_eq_nil_iff

end Predicate

/-! ## The condition of a request -/

namespace ColumnFilter

variable {filter : ColumnFilter}

/-- The conditions of a filter are members. -/
theorem isMember_of_mem_parts {part : Predicate} (h : part ∈ filter.parts) : part.IsMember := by
  rcases mem_parts.1 h with ⟨range, _, hpart⟩ | ⟨list, _, rfl⟩ | ⟨pattern, _, rfl⟩
  · obtain ⟨bound, _, rfl⟩ := List.mem_map.1 hpart
    trivial
  · trivial
  · obtain ⟨mode, texts⟩ := pattern
    match texts with
    | [] | [_] | _ :: _ :: _ => trivial

/-- The condition of a filter is normal. -/
theorem isNormal_predicate (filter : ColumnFilter) : filter.predicate.IsNormal :=
  .all fun _ hpart => (isMember_of_mem_parts hpart).isNormal

/-- Only active filters have conditions. -/
theorem exists_mem_parts_iff : (∃ part, part ∈ filter.parts) ↔ filter.isActive = true := by
  rw [isActive_iff]
  constructor
  · intro h
    obtain ⟨part, hpart⟩ := h
    rcases mem_parts.1 hpart with ⟨range, hrange, hmem⟩ | ⟨list, hlist, _⟩ | ⟨pattern, hpattern, _⟩
    · obtain ⟨bound, hbound, _⟩ := List.mem_map.1 hmem
      exact Or.inl ⟨range, hrange, bound, hbound⟩
    · exact Or.inr (Or.inl ⟨list, hlist⟩)
    · exact Or.inr (Or.inr ⟨pattern, hpattern⟩)
  · intro h
    rcases h with ⟨range, hrange, bound, hbound⟩ | ⟨list, hlist⟩ | ⟨pattern, hpattern⟩
    · exact ⟨_, mem_parts.2 (Or.inl ⟨range, hrange, List.mem_map_of_mem hbound⟩)⟩
    · exact ⟨_, mem_parts.2 (Or.inr (Or.inl ⟨list, hlist, rfl⟩))⟩
    · exact ⟨_, mem_parts.2 (Or.inr (Or.inr ⟨pattern, hpattern, rfl⟩))⟩

/-- The condition of a filter always holds exactly when the filter is not active. -/
theorem predicate_eq_always_iff : filter.predicate = .always ↔ filter.isActive = false := by
  have hnone : (∀ part ∈ filter.parts, part = .always) ↔ ¬ ∃ part, part ∈ filter.parts := by
    rw [not_exists]
    refine forall_congr' fun part => ⟨fun h hpart => ?_, fun h hpart => absurd hpart h⟩
    exact absurd (isMember_of_mem_parts hpart) (h hpart ▸ id)
  rw [predicate, Predicate.all_eq_always_iff fun part hpart => (isMember_of_mem_parts hpart).isNormal,
    hnone, exists_mem_parts_iff, Bool.not_eq_true]

end ColumnFilter

namespace Request

/-- The condition of a request is normal. -/
theorem isNormal_predicate (request : Request) : request.predicate.IsNormal :=
  .all (List.forall_mem_map.2 fun filter _ => filter.isNormal_predicate)

/-- The condition of a request always holds exactly when no filter is active. -/
theorem predicate_eq_always_iff {request : Request} :
    request.predicate = .always ↔ ∀ filter ∈ request.filters, filter.isActive = false := by
  rw [predicate, Predicate.all_eq_always_iff
    (List.forall_mem_map.2 fun filter _ => filter.isNormal_predicate), List.forall_mem_map]
  exact forall₂_congr fun filter _ => ColumnFilter.predicate_eq_always_iff

end Request

/-! ## The condition of a plan -/

namespace Registry

variable {registry : Registry} {table : Table} {request : Request} {scope : Predicate} {plan : Plan}

/-- A plan inside a normal scope has a normal condition, which always holds exactly when no filter is
active and the scope always holds. -/
theorem Planned.normal (h : registry.Planned table request scope plan) (hscope : scope.IsNormal) :
    plan.predicate.IsNormal ∧ (plan.predicate = .always ↔
      (∀ filter ∈ request.filters, filter.isActive = false) ∧ scope = .always) := by
  have hparts : ∀ part ∈ [request.predicate, scope], part.IsNormal := by
    simp only [List.forall_mem_cons, List.not_mem_nil, false_implies, implies_true, and_true]
    exact ⟨request.isNormal_predicate, hscope⟩
  rw [h.predicate_eq, Predicate.all_eq_always_iff hparts]
  refine ⟨.all hparts, ?_⟩
  simp only [List.forall_mem_cons, List.not_mem_nil, false_implies, implies_true, and_true,
    Request.predicate_eq_always_iff]

end Registry

namespace Sql

/-- A quoted name starts with its quote. -/
theorem Dialect.quoteName_ne_blank (d : Dialect) (name rest : String) :
    d.quoteName name ≠ " " ++ rest := by
  intro h
  have hchars := congrArg String.toList h
  cases d <;> simp [Dialect.quoteName, Dialect.nameQuote] at hchars

/-- Separated pieces are the pieces themselves and the separator. -/
theorem mem_separate {separator : String} {groups : List (List Piece)} {piece : Piece}
    (h : piece ∈ separate separator groups) :
    piece = .text separator ∨ ∃ group ∈ groups, piece ∈ group := by
  induction groups with
  | nil => contradiction
  | cons first rest ih =>
    cases rest with
    | nil => exact Or.inr ⟨first, List.mem_cons_self, h⟩
    | cons second rest =>
      rcases List.mem_append.1 h with hfirst | hlater
      · exact Or.inr ⟨first, List.mem_cons_self, hfirst⟩
      · rcases List.mem_cons.1 hlater with rfl | hlater
        · exact Or.inl rfl
        · exact (ih hlater).imp_right fun ⟨group, hgroup, hmem⟩ =>
            ⟨group, List.mem_cons_of_mem _ hgroup, hmem⟩

namespace Statement

/-- What a statement returns has no WHERE. -/
theorem where_notMem_outputPieces (d : Dialect) (output : Output) :
    .text " WHERE " ∉ outputPieces d output := by
  have hname (name : String) : Piece.text " WHERE " ≠ .text (d.quoteName name) :=
    fun h => d.quoteName_ne_blank name "WHERE " (Piece.text.inj h).symm
  cases output with
  | columns names =>
    intro h
    rcases mem_separate h with h | ⟨group, hgroup, hmem⟩
    · exact absurd h (by decide)
    · obtain ⟨name, _, rfl⟩ := List.mem_map.1 hgroup
      exact hname name (List.mem_singleton.1 hmem)
  | count => simp [outputPieces, hname]

/-- An order has no WHERE. -/
theorem where_notMem_orderPieces (d : Dialect) (keys : List SortKey) :
    .text " WHERE " ∉ orderPieces d keys := by
  have hname (name : String) : Piece.text " WHERE " ≠ .text (d.quoteName name) :=
    fun h => d.quoteName_ne_blank name "WHERE " (Piece.text.inj h).symm
  cases keys with
  | nil => exact List.not_mem_nil
  | cons first rest =>
    intro h
    rcases List.mem_cons.1 h with h | h
    · exact absurd h (by decide)
    rcases mem_separate h with h | ⟨group, hgroup, hmem⟩
    · exact absurd h (by decide)
    · obtain ⟨⟨column, direction⟩, _, rfl⟩ := List.mem_map.1 hgroup
      cases direction <;> simp [hname, Direction.literal] at hmem

/-- A statement has a WHERE exactly when it has a condition. -/
theorem where_mem_pieces_iff (d : Dialect) (s : Statement) :
    .text " WHERE " ∈ s.pieces d ↔ s.condition ≠ none := by
  have hname : Piece.text " WHERE " ≠ .text (d.quoteName s.table) :=
    fun h => d.quoteName_ne_blank s.table "WHERE " (Piece.text.inj h).symm
  have hlimit : Piece.text " WHERE " ∉ wordPieces " LIMIT " s.limit := by
    cases s.limit <;> simp [wordPieces]
  have hoffset : Piece.text " WHERE " ∉ wordPieces " OFFSET " s.offset := by
    cases s.offset <;> simp [wordPieces]
  have hcondition : Piece.text " WHERE " ∈ conditionPieces d s.condition ↔ s.condition ≠ none := by
    cases s.condition <;> simp [conditionPieces]
  simp [pieces, where_notMem_outputPieces, where_notMem_orderPieces, hname, hlimit, hoffset,
    hcondition]

/-- A predicate has no condition in a statement exactly when it always holds. -/
theorem condition?_eq_none_iff (p : Predicate) : condition? p = none ↔ p = .always := by
  cases p <;> simp [condition?, Predicate.isAlways]

end Statement

end Sql

/-! ## The questions of a plan -/

namespace Engine

/-- Carrying out a plan asks for the count of its condition and, when this succeeds and the page is
not empty, for the page next. -/
theorem exists_calls_execute (engine : Engine) (source : RowSource) (table : Table) (plan : Plan) :
    ∃ later, (engine.execute table plan).calls source = .count table plan.predicate :: later ∧
      ∀ total, source.count table plan.predicate = .ok total →
        plan.page.window.isEmptyPage = false →
          ∃ related, later = .select table plan.page :: related := by
  unfold Plan.predicate
  refine ⟨_, by rw [execute, Fetch.calls_bind, Fetch.calls_askCount, List.singleton_append], ?_⟩
  intro total hcount hpage
  have hfetch : fetchPage table plan.page = .askSelect table plan.page := by
    rw [fetchPage, hpage]
    rfl
  simp only [Fetch.outcome_askCount, hcount, hfetch]
  exact ⟨_, by rw [Fetch.calls_bind, Fetch.calls_askSelect, List.singleton_append]⟩

/-- A plan asks for the count and for the page under one normal condition. The condition always holds
exactly when no filter of the request is active and the scope always holds, and exactly then both
statements have no WHERE. -/
structure AsksNormally (engine : Engine) (table : Table) (request : Request) (scope : Predicate)
    (plan : Plan) : Prop where
  normal : plan.predicate.IsNormal
  always_iff : plan.predicate = .always ↔
    (∀ filter ∈ request.filters, filter.isActive = false) ∧ scope = .always
  asks : ∀ source, ∃ later,
    (engine.execute table plan).calls source = .count table plan.predicate :: later ∧
      ∀ total, source.count table plan.predicate = .ok total →
        plan.page.window.isEmptyPage = false → ∃ related,
          later = .select table ⟨plan.predicate, plan.page.order, plan.page.window⟩ :: related
  count_where : ∀ dialect,
    .text " WHERE " ∉ (Sql.Statement.ofCount table plan.predicate).pieces dialect ↔
      (∀ filter ∈ request.filters, filter.isActive = false) ∧ scope = .always
  page_where : ∀ dialect,
    .text " WHERE " ∉ (Sql.Statement.ofQuery table plan.page).pieces dialect ↔
      (∀ filter ∈ request.filters, filter.isActive = false) ∧ scope = .always

/-- A plan inside a normal scope asks under a normal condition. -/
theorem asksNormally_of_plan (engine : Engine) {table : Table} {request : Request} {scope : Predicate}
    {plan : Plan} (hscope : scope.IsNormal)
    (hplan : engine.registry.plan table request scope = .ok plan) :
    engine.AsksNormally table request scope plan := by
  obtain ⟨hnormal, halways⟩ := (Registry.planned_of_plan hplan).normal hscope
  have hwhere (dialect : Sql.Dialect) (s : Sql.Statement)
      (hs : s.condition = Sql.Statement.condition? plan.predicate) :
      .text " WHERE " ∉ s.pieces dialect ↔
        (∀ filter ∈ request.filters, filter.isActive = false) ∧ scope = .always := by
    rw [Sql.Statement.where_mem_pieces_iff, hs, Classical.not_not, Sql.Statement.condition?_eq_none_iff, halways]
  have hcount : plan.predicate = plan.page.predicate :=
    congrArg CountQuery.predicate (Registry.count_of_plan hplan)
  refine ⟨hnormal, halways, fun source => ?_, fun dialect => hwhere dialect _ rfl,
    fun dialect => hwhere dialect _ (congrArg Sql.Statement.condition? hcount.symm)⟩
  obtain ⟨later, hcalls, hlater⟩ := engine.exists_calls_execute source table plan
  refine ⟨later, hcalls, fun total htotal hwindow => ?_⟩
  rw [hcount]
  exact hlater total htotal hwindow

end Engine

/-- Flat conjunctions hold when all parts do, and disjunctions when some part does. Conjunctions of
normal conditions are normal and are joined as their lists are, with the condition that always holds
as the unit; the conditions of plans inside normal scopes are among them. -/
theorem Predicate.all_normalizes :
    (∀ (table : Table) (row : Row) (parts : List Predicate),
      ((Predicate.all parts).holds table row = true ↔
        ∀ part ∈ parts, part.holds table row = true) ∧
      ((Predicate.any parts).holds table row = true ↔
        ∃ part ∈ parts, part.holds table row = true)) ∧
    (∀ parts : List Predicate, (∀ part ∈ parts, part.IsNormal) → (Predicate.all parts).IsNormal) ∧
    (∀ xs ys : List Predicate, (∀ x ∈ xs, x.IsNormal) → (∀ y ∈ ys, y.IsNormal) →
      Predicate.all [Predicate.all xs, Predicate.all ys] = Predicate.all (xs ++ ys)) ∧
    (Predicate.all [] = .always ∧ ∀ p : Predicate, p.IsNormal →
      Predicate.all [.always, p] = p ∧ Predicate.all [p, .always] = p) ∧
    ∀ (engine : Engine) (table : Table) (request : Request) (scope : Predicate) (plan : Plan),
      scope.IsNormal → engine.registry.plan table request scope = .ok plan →
        engine.AsksNormally table request scope plan := by
  refine ⟨fun table row parts => ⟨holds_all parts, holds_any parts⟩, fun parts => IsNormal.all,
    fun xs ys => all_all, ⟨rfl, fun p hp => ?_⟩, fun engine table request scope plan hscope hplan => ?_⟩
  · have hsingle : ∀ part ∈ [p], part.IsNormal := fun part hpart => List.mem_singleton.1 hpart ▸ hp
    have hleft := all_all (List.forall_mem_nil IsNormal) hsingle
    have hright := all_all hsingle (List.forall_mem_nil IsNormal)
    rw [List.nil_append, hp.all_singleton] at hleft
    rw [List.append_nil, hp.all_singleton] at hright
    exact ⟨hleft, hright⟩
  · exact engine.asksNormally_of_plan hscope hplan

/-- A conjunction around another one is flattened, and the books of one author are asked for under the
flat conjunction of three members. -/
theorem Predicate.all_normalizes_books :
    let later : Predicate := .compare "id" .greater (.integer 3)
    let titled : Predicate := .text "title" .contains "numbers"
    let linked : Predicate := .eq "author_id" (.integer 1)
    let request : Request := {
      filters := [⟨"id", some ⟨some ⟨.greater, .integer 3⟩, none⟩, none, none⟩,
        ⟨"title", none, none, some ⟨.contains, ["numbers"]⟩⟩]
      order := [⟨"title", .descending⟩] }
    let plan : Plan := {
      table := "book"
      count := ⟨.and [later, titled, linked]⟩
      page := ⟨.and [later, titled, linked], [⟨"title", .descending⟩, ⟨"id", .ascending⟩], {}⟩
      relationships := [] }
    (Predicate.all [.and [later, titled], .always, linked]).IsNormal ∧
    Predicate.all [Predicate.all [.and [later, titled]], Predicate.all [.always, linked]] =
      Predicate.all [.and [later, titled], .always, linked] ∧
    Predicate.all [.always, linked] = linked ∧
    Engine.library.AsksNormally Registry.book request linked plan := by
  intro later titled linked request plan
  obtain ⟨_, hnormal, happend, ⟨_, hunit⟩, hplan⟩ := Predicate.all_normalizes
  have hpair : ∀ part ∈ [Predicate.and [later, titled]], part.IsNormal := by
    simp [IsNormal, IsMember, later, titled]
  have hlinked : ∀ part ∈ [Predicate.always, linked], part.IsNormal := by
    simp [IsNormal, linked, Predicate.eq, Predicate.isIn]
  refine ⟨hnormal _ fun part hpart => ?_, happend _ _ hpair hlinked, (hunit linked trivial).1,
    hplan Engine.library Registry.book request linked plan trivial rfl⟩
  exact (List.mem_append.1 hpart).elim (hpair part) (hlinked part)

end TableQuery
