import TableQuery.Proofs.Engine.RelatedQuestions

/-!
# Matching by text

Values of one type have the same text exactly when they are equal, the two floating-point zeros
apart: these are equal and have the texts `0.0` and `-0.0`. The rows that a relationship leads to are
selected by equality and matched by text. So every selected row is attached to a row of the page, but
for a row with a zero when the page holds only the other zero.
-/

namespace TableQuery

/-! ## The text of a value -/

namespace Value

variable {v w : Value} {type : ColumnType}

/-- Two values are the floating-point zeros of the two signs. -/
inductive OppositeZeros : Value → Value → Prop
  | intro (negative : Bool) : OppositeZeros (.float (.zero negative)) (.float (.zero !negative))

/-- The zeros of the two signs are not the same. -/
theorem OppositeZeros.ne (h : v.OppositeZeros w) : v ≠ w := by
  cases h with
  | intro negative => cases negative <;> decide

/-- Values of one type are equal when they are the same or the two zeros. -/
theorem equals_iff (hv : v.Fits type) (hw : w.Fits type) :
    v.equals w = true ↔ v = w ∨ v.OppositeZeros w := by
  rw [equals, decide_eq_true_eq]
  constructor
  · intro h
    by_cases hfloat : type = .float
    · subst hfloat
      cases hv with
      | float x hx =>
        cases hw with
        | float y hy =>
          rw [compare?, Binary64.compare?_of_isFinite hx hy, Option.some.injEq,
            Std.LawfulEqCmp.compare_eq_iff_eq] at h
          rcases Binary64.key_eq_iff.1 h with rfl | ⟨negative, rfl, rfl⟩
          · exact Or.inl rfl
          · exact Or.inr (.intro negative)
    · exact Or.inl (eq_of_compare?_eq (hv.type_eq.trans hw.type_eq.symm) (hv.type_eq ▸ hfloat) h)
  · rintro (rfl | hzeros)
    · exact hv.compare?_self
    · cases hzeros with
      | intro negative => cases negative <;> rfl

/-- Values of one type have the same text when they are equal and not the two zeros. -/
theorem joinText_eq_joinText_iff (hv : v.Fits type) (hw : w.Fits type) :
    v.joinText = w.joinText ↔ v.equals w = true ∧ ¬ v.OppositeZeros w := by
  rw [joinText, joinText, text_toJson_inj hv hw, equals_iff hv hw]
  constructor
  · rintro rfl
    exact ⟨Or.inl rfl, fun h => h.ne rfl⟩
  · rintro ⟨hequals, hzeros⟩
    exact hequals.resolve_right hzeros

end Value

/-! ## The rows that are attached -/

variable {registry : Registry} {table : Table} {parents fetched : List Row} {source : RowSource}

namespace Link

variable {link : Link} {near remote : Column} {parent child : Row} {v w : Value}

/-- The children of a row are the fetched rows with the text of its value. -/
theorem mem_children_iff (hw : link.target.cell? child link.relationship.targetColumn = some w) :
    child ∈ link.children table fetched parent ↔ child ∈ fetched ∧
      ∃ v, table.cell? parent link.relationship.localColumn = some v ∧ w.joinText = v.joinText := by
  unfold children Table.joinText?
  cases table.cell? parent link.relationship.localColumn with
  | none => simp
  | some v => simp [hw]

/-- A fetched row whose value equals one of the page is attached to a row of the page, unless its value
is a zero and the page holds only the other zero. -/
theorem exists_mem_children_iff
    (hjoins : registry.Joins table link.relationship link.target near remote)
    (hchild : child ∈ fetched)
    (hselected : (Predicate.isIn link.relationship.targetColumn
      (table.distinctKeys link.relationship.localColumn parents)).holds link.target child = true) :
    (∃ parent ∈ parents, child ∈ link.children table fetched parent) ↔
      ∀ negative,
        link.target.cell? child link.relationship.targetColumn = some (.float (.zero negative)) →
        ∃ parent ∈ parents,
          table.cell? parent link.relationship.localColumn = some (.float (.zero negative)) := by
  rw [Predicate.isIn, Predicate.holds, Option.any_eq_true] at hselected
  obtain ⟨w, hw, hselected⟩ := hselected
  rw [Bool.bne_false, List.any_eq_true] at hselected
  obtain ⟨key, hkey, hequals⟩ := hselected
  have hfits : w.Fits near.type := hjoins.type_eq ▸ Table.fits_of_cell? hjoins.remote_eq hw
  obtain ⟨asked, hasked, hcell⟩ := Table.exists_cell?_of_mem_distinctKeys hkey
  -- The row is attached to the rows of the page with the same value.
  have hsame : (∃ parent ∈ parents, child ∈ link.children table fetched parent) ↔
      ∃ parent ∈ parents, table.cell? parent link.relationship.localColumn = some w := by
    refine exists_congr fun parent => and_congr_right fun _ => (mem_children_iff hw).trans ⟨?_, ?_⟩
    · rintro ⟨-, v, hv, htext⟩
      rwa [(Value.text_toJson_inj hfits (Table.fits_of_cell? hjoins.near_eq hv)).1 htext]
    · exact fun hv => ⟨hchild, w, hv, rfl⟩
  rw [hsame]
  constructor
  · intro h negative hzero
    rwa [← hzero, hw]
  · intro h
    rcases (Value.equals_iff (Table.fits_of_cell? hjoins.near_eq hcell) hfits).1 hequals with
      rfl | hzeros
    · exact ⟨asked, hasked, hcell⟩
    · cases hzeros with
      | intro negative => exact h _ hw

/-- What is fetched for a link that selects a row is what the source selects. -/
theorem eq_of_outcome_fetch {answer : List Row}
    (hfetch : (link.fetch table parents).outcome source = .ok answer)
    (hselected : (Predicate.isIn link.relationship.targetColumn
      (table.distinctKeys link.relationship.localColumn parents)).holds link.target child = true)
    (hselect : source.select link.target (.related link.target link.relationship
      (table.distinctKeys link.relationship.localColumn parents)) = .ok fetched) :
    answer = fetched := by
  have hkeys : table.distinctKeys link.relationship.localColumn parents ≠ [] := by
    intro hnil
    rw [hnil, holds_isIn_nil] at hselected
    contradiction
  rw [fetch_of_ne_nil hkeys, Fetch.outcome_askSelect] at hfetch
  exact Except.ok.inj (hfetch.symm.trans hselect)

end Link

/-- A declared name belongs to one relationship, and asking for it again gives the same rows. -/
theorem Registry.Sound.eq_of_name_eq {group other : Link × List Row} (hsound : registry.Sound table)
    (hgroup : group.1.relationship ∈ table.relationships)
    (hother : other.1.relationship ∈ table.relationships)
    (htarget : registry.table? group.1.relationship.target = some group.1.target)
    (hotherTarget : registry.table? other.1.relationship.target = some other.1.target)
    (hfetch : (group.1.fetch table parents).outcome source = .ok group.2)
    (hotherFetch : (other.1.fetch table parents).outcome source = .ok other.2)
    (hname : other.1.relationship.name = group.1.relationship.name) : other = group := by
  obtain ⟨⟨r, target⟩, answer⟩ := group
  obtain ⟨⟨s, otherTarget⟩, otherAnswer⟩ := other
  obtain rfl : s = r :=
    List.inj_on_of_nodup_map hsound.relationships_nodup hother hgroup hname
  obtain rfl : otherTarget = target := Option.some.inj (hotherTarget.symm.trans htarget)
  exact congrArg (Prod.mk _) (Except.ok.inj (hotherFetch.symm.trans hfetch))

/-! ## Gauges and their marks -/

namespace Registry

/-- Gauges, with the marks at their heights. -/
def gauge : Table where
  name := "gauge"
  columns := [⟨"id", .integer, false⟩, ⟨"height", .float, true⟩]
  primaryKey := ["id"]
  relationships := [.named "mark" "height" "height"]

/-- Marks at heights. -/
def mark : Table where
  name := "mark"
  columns := [⟨"id", .integer, false⟩, ⟨"height", .float, true⟩]
  primaryKey := ["id"]

/-- Gauges and marks. -/
def gauges : Registry := (empty.register mark).register gauge

/-- The registry of gauges and marks is accepted. -/
theorem validate_gauges : gauges.validate = .ok () := (validate_eq_ok_iff gauges).2 (by decide)

/-- A row at the height of a zero. -/
def atZero (id : Int) (negative : Bool) : Row :=
  .ofList [("id", .int id), ("height", .float (.zero negative))]

/-- A gauge at one zero is asked the marks at both. -/
theorem select_mark (asked stored : Bool) :
    (Memory.empty.append "mark" [atZero 5 stored]).select mark
      (.related mark (.named "mark" "height" "height")
        (gauge.distinctKeys "height" [atZero 1 asked])) = [atZero 5 stored] := by
  have hmatching : (Memory.empty.append "mark" [atZero 5 stored]).matching mark
      (.isIn "height" (gauge.distinctKeys "height" [atZero 1 asked])) = [atZero 5 stored] := by
    cases asked <;> cases stored <;> rfl
  rw [Memory.select_of_matching_singleton hmatching]
  cases stored <;> rfl

/-! ## Every selected row but a zero -/

/-- A row is among the rows that are attached to the rows of a page under a name. -/
def OnPage (expanded : Row → ResultRow) (parents : List Row) (name : String) (child : Row) : Prop :=
  ∃ parent ∈ parents, ∃ children, (expanded parent).related? name = some children ∧ child ∈ children

/-- Values of one type that cells hold have the same text exactly when they are equal and not the two
zeros. So expanding declared relationships over a page, when no question fails, attaches each selected
row whose value equals one of the page to a row of the page, unless its value is a zero and the page
holds only the other zero. -/
theorem expand_matches_equals {type : ColumnType} {near remote : Json} {v w : Value}
    (hv : Value.ofJson? type near = some v) (hw : Value.ofJson? type remote = some w) :
    (v.joinText = w.joinText ↔ v.equals w = true ∧ ¬ v.OppositeZeros w) ∧
    ∀ {registry : Registry} {name : String} {table : Table} {relationships : List Relationship}
      {parents : List Row} {source : RowSource},
      registry.validate = .ok () → registry.table? name = some table →
      (∀ r ∈ relationships, r ∈ table.relationships) →
      (registry.expand table parents relationships).Answered source →
      ∃ expanded : Row → ResultRow,
        (registry.expand table parents relationships).outcome source =
          .ok (parents.map expanded) ∧
        ∀ r ∈ relationships, ∃ target, registry.table? r.target = some target ∧
          let keys := table.distinctKeys r.localColumn parents
          ∀ fetched, source.select target (.related target r keys) = .ok fetched →
            ∀ child ∈ fetched, (Predicate.isIn r.targetColumn keys).holds target child = true →
              (OnPage expanded parents r.name child ↔
                ∀ negative, target.cell? child r.targetColumn = some (.float (.zero negative)) →
                  ∃ parent ∈ parents,
                    table.cell? parent r.localColumn = some (.float (.zero negative))) := by
  refine ⟨Value.joinText_eq_joinText_iff (Value.fits_of_ofJson? hv) (Value.fits_of_ofJson? hw), ?_⟩
  intro registry name table relationships parents source hvalid htable hdeclared hanswers
  have hsound := sound_of_validate hvalid htable
  obtain ⟨groups, houtcome, rfl, hgroups, -⟩ :=
    exists_groups (fun r hr => hsound.exists_target (hdeclared r hr)) hanswers
  refine ⟨Link.attach table groups, houtcome, fun r hr => ?_⟩
  obtain ⟨⟨link, answer⟩, hgroup, rfl⟩ := List.mem_map.1 hr
  obtain ⟨htarget, hfetch⟩ := hgroups _ hgroup
  obtain ⟨target, near, remote, hjoins⟩ := hsound.joins _ (hdeclared _ hr)
  obtain rfl : target = link.target := Option.some.inj (hjoins.target_eq.symm.trans htarget)
  refine ⟨link.target, htarget, ?_⟩
  intro keys fetched hselect child hchild hselected
  obtain rfl : answer = fetched := Link.eq_of_outcome_fetch hfetch hselected hselect
  have hrelated (parent : Row) : (Link.attach table groups parent).related?
      link.relationship.name = some (link.children table answer parent) := by
    refine Link.related?_attach_of_forall hgroup (fun other hother hname => ?_) parent
    obtain ⟨hotherTarget, hotherFetch⟩ := hgroups other hother
    exact hsound.eq_of_name_eq (hdeclared _ hr) (hdeclared _ (List.mem_map_of_mem hother)) htarget
      hotherTarget hfetch hotherFetch hname
  simp only [OnPage, hrelated, Option.some.injEq, exists_eq_left']
  exact Link.exists_mem_children_iff hjoins hchild hselected

/-- A gauge at the zero without a sign has the mark at this zero. -/
theorem expand_matches_equals_gauges :
    let v : Value := .float (.zero false)
    let w : Value := .float (.zero true)
    let page := [atZero 1 false]
    let source := (Memory.empty.append "mark" [atZero 5 false]).source
    (v.joinText = w.joinText ↔ v.equals w = true ∧ ¬ v.OppositeZeros w) ∧
    ∃ expanded : Row → ResultRow,
      (gauges.expand gauge page gauge.relationships).outcome source = .ok (page.map expanded) ∧
      OnPage expanded page "mark" (atZero 5 false) := by
  intro v w page source
  have hv : Value.ofJson? .float (.float (.zero false)) = some v := rfl
  have hw : Value.ofJson? .float (.float (.zero true)) = some w := rfl
  have htable : gauges.table? "gauge" = some gauge := rfl
  have hanswers : (gauges.expand gauge page gauge.relationships).Answered source := fun call _ => by
    cases call <;> exact ⟨_, rfl⟩
  obtain ⟨htexts, hpage⟩ := expand_matches_equals hv hw
  obtain ⟨expanded, houtcome, hmatches⟩ :=
    hpage validate_gauges htable (fun _ hr => hr) hanswers
  obtain ⟨target, htarget, hattached⟩ := hmatches _ List.mem_cons_self
  obtain rfl : mark = target := Option.some.inj htarget
  refine ⟨htexts, expanded, houtcome, ?_⟩
  have hselect : source.select mark (.related mark (.named "mark" "height" "height")
      (gauge.distinctKeys "height" page)) = .ok [atZero 5 false] :=
    congrArg Except.ok (select_mark false false)
  refine (hattached _ hselect _ List.mem_cons_self (by decide)).2 fun negative hzero => ?_
  cases hzero
  exact ⟨_, List.mem_cons_self, rfl⟩

/-- The two zeros are equal and have different texts, and a mark at the one is selected for a gauge at
the other but attached to none. -/
theorem expand_drops_opposite_zero :
    let v : Value := .float (.zero true)
    let w : Value := .float (.zero false)
    let page := [atZero 1 true]
    let memory := Memory.empty.append "mark" [atZero 5 false]
    v.equals w = true ∧ v.joinText ≠ w.joinText ∧
    gauges.validate = .ok () ∧ gauge.distinctKeys "height" page = [v] ∧
    mark.cell? (atZero 5 false) "height" = some w ∧
    memory.select mark (.related mark (.named "mark" "height" "height") [v]) = [atZero 5 false] ∧
    (gauges.expand gauge page gauge.relationships).outcome memory.source =
      .ok [⟨atZero 1 true, .ofList [("mark", [])]⟩] := by
  intro v w page memory
  have hlinks : gauges.links gauge gauge.relationships =
      .ok [⟨.named "mark" "height" "height", mark⟩] := rfl
  refine ⟨rfl, by decide, validate_gauges, rfl, rfl, select_mark true false, ?_⟩
  rw [outcome_expand_of_links hlinks]
  change Except.ok (page.map (Link.attach gauge [(_, memory.select mark (.related mark
    (.named "mark" "height" "height") (gauge.distinctKeys "height" page)))])) = _
  rw [select_mark true false]
  rfl

end Registry

end TableQuery
