import TableQuery.Proofs.Engine.Nested
import TableQuery.Proofs.Engine.Steps
import TableQuery.Proofs.Request.Faults

/-!
# Refused parameters

Parameters that cannot be decoded, or that name relationships or sort columns that the table does not
have, are refused with a failure of the client. A listing and the lookup of a row are refused before
the source is asked anything, and so is a nested listing whose link goes through the key. A nested
listing whose link goes beside the key has asked for its parent row by then: when the source fails, its
failure is reported instead.
-/

namespace TableQuery.Engine

open Request (orderKey relationshipKey)

variable {engine : Engine} {table parent child : Table} {params : Params} {scope : Predicate}
  {request other : Request} {plan : Plan} {failure : Failure} {r : Relationship} {key : Column}
  {value : Value} {name parentName childName id : String}

/-! ## What is refused -/

/-- Parameters that no operation on a table accepts: they are not decoded, or name a relationship that
the table does not declare. -/
inductive Refuses (engine : Engine) (table : Table) (params : Params) : Prop
  | undecodable {failure : Failure}
      (undecoded : Request.decode params table engine.settings = .error failure) :
      Refuses engine table params
  | relationship {name : String} (asked : name ∈ params.getSplit relationshipKey)
      (undeclared : name ∉ table.relationships.map Relationship.name) : Refuses engine table params

/-- Parameters that no listing of a table accepts; one reason more is an order by a column that the table
does not declare. -/
inductive RefusesListing (engine : Engine) (table : Table) (params : Params) : Prop
  | always (refuses : engine.Refuses table params) : RefusesListing engine table params
  | order {entry : String} {key : SortKey} (asked : entry ∈ params.getSplit orderKey)
      (reads : SortKey.Reads entry key) (undeclared : key.column ∉ table.columns.map Column.name) :
      RefusesListing engine table params

/-- What is decoded and planned was not to be refused. -/
theorem not_refuses_of_planned (hrequest : Request.decode params table engine.settings = .ok request)
    (hplanned : engine.registry.Planned table other scope plan)
    (hrelationships : other.relationships = request.relationships) :
    ¬ engine.Refuses table params := by
  intro hrefuses
  cases hrefuses with
  | undecodable undecoded =>
    rw [hrequest] at undecoded
    contradiction
  | relationship asked undeclared =>
    rw [← List.mem_eraseDups, ← Request.relationships_of_decode hrequest, ← hrelationships,
      ← hplanned.names_eq] at asked
    obtain ⟨r, hr, hname⟩ := List.mem_map.1 asked
    exact undeclared (hname ▸ List.mem_map_of_mem (hplanned.declared r hr))

/-- What is prepared as a listing was not to be refused. -/
theorem not_refusesListing_of_prepare (hprepare : engine.prepare table params scope = .ok plan) :
    ¬ engine.RefusesListing table params := by
  obtain ⟨request, hrequest, hplan⟩ := Failure.bind_eq_ok_iff.1 hprepare
  have hplanned := Registry.planned_of_plan hplan
  intro hrefuses
  cases hrefuses with
  | always refuses => exact not_refuses_of_planned hrequest hplanned rfl refuses
  | order asked reads undeclared =>
    have hkey := SortKey.mem_of_readAll (Request.order_of_decode hrequest) asked reads
    obtain ⟨column, hcolumn⟩ := hplanned.order_declared _ hkey
    obtain ⟨hmem, hname⟩ := Table.column?_eq_some hcolumn
    exact undeclared (hname ▸ List.mem_map_of_mem hmem)

/-- The client is at fault when a listing is not prepared. -/
theorem clientOnly_prepare (engine : Engine) (table : Table) (params : Params) (scope : Predicate) :
    Failure.ClientOnly (engine.prepare table params scope) :=
  Failure.FailsOnly.bind (Request.clientOnly_decode params table engine.settings) fun request =>
    engine.registry.clientOnly_plan table request scope

/-- A refused listing fails alike inside every scope, with a failure of the client. -/
theorem exists_prepare_error (h : engine.RefusesListing table params) :
    ∃ failure, failure.isClientError = true ∧
      ∀ scope, engine.prepare table params scope = .error failure := by
  cases hprepare : engine.prepare table params .always with
  | ok plan => exact absurd h (not_refusesListing_of_prepare hprepare)
  | error failure =>
    refine ⟨failure, clientOnly_prepare engine table params .always failure hprepare, fun scope => ?_⟩
    have halike : Failure.Alike (fun _ _ => True) (engine.prepare table params .always)
        (engine.prepare table params scope) :=
      .bind_same _ fun request => (Registry.alike_plan rfl rfl table _ _).imp fun _ _ _ => trivial
    rw [hprepare] at halike
    generalize engine.prepare table params scope = second at halike
    cases halike
    rfl

/-- A refused lookup fails with a failure of the client. -/
theorem exists_prepareOne_error (h : engine.Refuses table params) (scope : Predicate) :
    ∃ failure, failure.isClientError = true ∧
      engine.prepareOne table params scope = .error failure := by
  have hclient : Failure.ClientOnly (engine.prepareOne table params scope) :=
    Failure.FailsOnly.bind (Request.clientOnly_decode params table engine.settings) fun request =>
      engine.registry.clientOnly_plan table { request with window := .unbounded, order := [] } scope
  cases hprepare : engine.prepareOne table params scope with
  | ok plan =>
    obtain ⟨request, hrequest, hplan⟩ := Failure.bind_eq_ok_iff.1 hprepare
    exact absurd h (not_refuses_of_planned hrequest (Registry.planned_of_plan hplan) rfl)
  | error failure => exact ⟨failure, hclient failure hprepare, rfl⟩

/-! ## When it is refused -/

/-- A listing that is not prepared asks nothing. -/
theorem listScoped_eq_fail (hprepare : engine.prepare table params scope = .error failure) :
    engine.listScoped table params scope = .fail failure := by
  rw [listScoped, hprepare, Fetch.ofExcept_error_bind]

/-- A lookup that is not prepared asks nothing. -/
theorem getOne_eq_fail (htable : engine.registry.table? name = some table)
    (hread : readKey table id = .ok (key, value))
    (hprepare : engine.prepareOne table params (.eq key.name value) = .error failure) :
    engine.getOne name id params = .fail failure := by
  simp only [getOne, Registry.require_eq_ok_iff.2 htable, hread, Fetch.ofExcept_ok_bind, hprepare,
    Fetch.ofExcept_error_bind]

/-- A nested listing that is not prepared looks for its scope, then fails. -/
theorem listNested_eq_fail (hparent : engine.registry.table? parentName = some parent)
    (hchild : engine.registry.table? childName = some child)
    (hlink : child.relationshipTo? parent.name = some r)
    (hread : readKey parent id = .ok (key, value))
    (hprepare : ∀ scope, engine.prepare child params scope = .error failure) :
    engine.listNested parentName id childName params =
      linkScope parent r key value >>= fun _ => .fail failure := by
  have hscoped : (fun scope => engine.listScoped child params scope) = fun _ => .fail failure :=
    funext fun scope => listScoped_eq_fail (hprepare scope)
  rw [listNested_eq hparent hchild hlink hread, hscoped]

/-- A link through the key has its scope without a question. -/
theorem linkScope_of_through (hthrough : r.targetColumn = key.name) :
    linkScope parent r key value = .done (.eq r.localColumn value) := if_pos hthrough

/-- A link beside the key asks for the parent row, whatever follows. -/
theorem linkScope_bind_fail (hbeside : r.targetColumn ≠ key.name) (failure : Failure) :
    (linkScope parent r key value >>= fun _ => (.fail failure : Fetch Listing)) =
      .select parent (keyQuery key value) fun _ => .fail failure := by
  rw [linkScope, if_neg hbeside]
  change Fetch.select parent (keyQuery key value) _ = _
  congr 1
  funext rows
  dsimp only [Fetch.bind]
  split <;> rfl

/-- Refused parameters are reported as a failure of the client. A listing, the lookup of a row and a
nested listing through the key ask nothing before; a nested listing beside the key has asked for the
parent row, and when this fails, it reports that failure. -/
theorem run_of_refused (engine : Engine) :
    (∀ name table params, engine.registry.table? name = some table →
      engine.RefusesListing table params →
      ∃ failure, failure.isClientError = true ∧
        ∀ source, (engine.list name params).run source = (.error failure, [])) ∧
    (∀ name id params table key value, engine.registry.table? name = some table →
      readKey table id = .ok (key, value) → engine.Refuses table params →
      ∃ failure, failure.isClientError = true ∧
        ∀ source, (engine.getOne name id params).run source = (.error failure, [])) ∧
    ∀ parentName id childName params parent child r key value,
      engine.registry.table? parentName = some parent →
      engine.registry.table? childName = some child → child.relationshipTo? parent.name = some r →
      readKey parent id = .ok (key, value) → engine.RefusesListing child params →
      ∃ failure, failure.isClientError = true ∧
        (r.targetColumn = key.name → ∀ source,
          (engine.listNested parentName id childName params).run source = (.error failure, [])) ∧
        (r.targetColumn ≠ key.name → ∀ source,
          (engine.listNested parentName id childName params).run source =
            match source.select parent (keyQuery key value) with
            | .ok _ => (.error failure, [.select parent (keyQuery key value)])
            | .error other => (.error other, [.select parent (keyQuery key value)])) := by
  refine ⟨?_, ?_, ?_⟩
  · intro name table params htable hrefuses
    obtain ⟨failure, hclient, hprepare⟩ := exists_prepare_error hrefuses
    refine ⟨failure, hclient, fun source => ?_⟩
    rw [list_eq htable, listScoped_eq_fail (hprepare .always)]
    rfl
  · intro name id params table key value htable hread hrefuses
    obtain ⟨failure, hclient, hprepare⟩ := exists_prepareOne_error hrefuses (.eq key.name value)
    refine ⟨failure, hclient, fun source => ?_⟩
    rw [getOne_eq_fail htable hread hprepare]
    rfl
  · intro parentName id childName params parent child r key value hparent hchild hlink hread hrefuses
    obtain ⟨failure, hclient, hprepare⟩ := exists_prepare_error hrefuses
    have hnested := listNested_eq_fail hparent hchild hlink hread hprepare
    refine ⟨failure, hclient, fun hthrough source => ?_, fun hbeside source => ?_⟩
    · rw [hnested, linkScope_of_through hthrough]
      rfl
    · rw [hnested, linkScope_bind_fail hbeside, Fetch.run]
      cases source.select parent (keyQuery key value) <;> rfl

/-- An unknown sort column, an undeclared relationship, and a limit that is no number: only the reviews
of an author, which name the author, are refused after a question. -/
theorem run_of_refused_reviews :
    let key : Column := ⟨"id", .integer, false⟩
    let broken : Params := ⟨[("limit", "x")]⟩
    (∃ failure, failure.isClientError = true ∧ ∀ source,
      (reviews.list "author" ⟨[("order_by_columns", "age")]⟩).run source = (.error failure, [])) ∧
    (∃ failure, failure.isClientError = true ∧ ∀ source,
      (reviews.getOne "author" "1" ⟨[("relationship", "editor")]⟩).run source =
        (.error failure, [])) ∧
    (∃ failure, failure.isClientError = true ∧ ∀ source,
      (reviews.listNested "author" "1" "book" broken).run source = (.error failure, [])) ∧
    ∃ failure, failure.isClientError = true ∧ ∀ source,
      (reviews.listNested "author" "1" "review" broken).run source =
        match source.select Registry.author (keyQuery key (.integer 1)) with
        | .ok _ => (.error failure, [.select Registry.author (keyQuery key (.integer 1))])
        | .error other => (.error other, [.select Registry.author (keyQuery key (.integer 1))]) := by
  intro key broken
  have hauthor : reviews.registry.table? "author" = some Registry.author := rfl
  have hbook : reviews.registry.table? "book" = some Registry.book := rfl
  have hreview : reviews.registry.table? "review" = some Registry.review := rfl
  have hread : readKey Registry.author "1" = .ok (key, .integer 1) := rfl
  obtain ⟨hlist, hone, hnested⟩ := run_of_refused reviews
  have hage : SortKey.Reads "age" ⟨"age", .ascending⟩ := .bare (by decide) rfl (by decide)
  have hsorted : "age" ∈ (⟨[("order_by_columns", "age")]⟩ : Params).getSplit orderKey := by decide
  have heditor : "editor" ∈ (⟨[("relationship", "editor")]⟩ : Params).getSplit relationshipKey := by
    decide
  have hundecoded (table : Table) (h : table ∈ [Registry.book, Registry.review]) :
      Request.decode broken table reviews.settings = .error (.plan (.notNatural "limit" "x")) := by
    simp only [List.mem_cons, List.not_mem_nil, or_false] at h
    rcases h with rfl | rfl <;> rfl
  obtain ⟨failure, hclient, hthrough, _⟩ :=
    hnested "author" "1" "book" broken _ _ _ _ _ hauthor hbook rfl hread
      (.always (.undecodable (hundecoded _ (by decide))))
  obtain ⟨other, hother, _, hbeside⟩ :=
    hnested "author" "1" "review" broken _ _ _ _ _ hauthor hreview rfl hread
      (.always (.undecodable (hundecoded _ (by decide))))
  exact ⟨hlist "author" _ _ hauthor (.order hsorted hage (by decide)),
    hone "author" "1" _ _ _ _ hauthor hread (.relationship heditor (by decide)),
    ⟨failure, hclient, hthrough rfl⟩, other, hother, hbeside (by decide)⟩

/-- The parent row of a nested listing is asked for although its limit is no number, so that a source
that fails hides the fault of the client. -/
theorem calls_listNested_of_refused :
    let key : Column := ⟨"id", .integer, false⟩
    let broken : Params := ⟨[("limit", "x")]⟩
    let memory := Memory.empty.append "author" [.ofList [("id", .int 1), ("name", .str "ada")]]
    let failing : RowSource :=
      ⟨fun _ _ => .error (.database "down"), fun _ _ => .error (.database "down")⟩
    reviews.registry.table? "author" = some Registry.author ∧
    reviews.registry.table? "review" = some Registry.review ∧
    (Registry.review.relationshipTo? "author").isSome = true ∧
    readKey Registry.author "1" = .ok (key, .integer 1) ∧
    Request.decode broken Registry.review reviews.settings =
      .error (.plan (.notNatural "limit" "x")) ∧
    (reviews.listNested "author" "1" "review" broken).calls memory.source =
      [.select Registry.author (keyQuery key (.integer 1))] ∧
    (reviews.listNested "author" "1" "review" broken).outcome failing = .error (.database "down") := by
  intro key broken memory failing
  have hread : readKey Registry.author "1" = .ok (key, .integer 1) := rfl
  have hlink : Registry.review.relationshipTo? "author" =
      some ⟨"author", "author", "about", "name"⟩ := rfl
  have hnested : reviews.listNested "author" "1" "review" broken =
      .select Registry.author (keyQuery key (.integer 1)) fun _ =>
        .fail (.plan (.notNatural "limit" "x")) :=
    (listNested_eq_fail rfl rfl hlink hread fun _ => rfl).trans (linkScope_bind_fail (by decide) _)
  refine ⟨rfl, rfl, hlink ▸ rfl, hread, rfl, ?_, ?_⟩
  · rw [hnested]
    rfl
  · rw [hnested]
    rfl

end TableQuery.Engine
