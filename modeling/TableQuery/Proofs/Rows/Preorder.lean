import TableQuery.Proofs.Rows.Arrangement

/-!
# The order of rows is a total preorder

Whatever rows hold, and whichever columns they are sorted by, comparing them is a total preorder: rows
that tie are interchangeable in it, and all others come in one order. Two cells of one column that have
values have comparable ones, so that values never tie because they cannot be compared.
-/

namespace TableQuery

open Std

/-- Comparing is a total preorder: it swaps with what is compared, everything ties with itself, not
coming after is transitive, and tying is an equivalence that the comparison respects. -/
structure TotalPreorder {α : Type} (cmp : α → α → Ordering) : Prop where
  swap (a b : α) : cmp b a = (cmp a b).swap
  refl (a : α) : cmp a a = .eq
  trans (a b c : α) : cmp a b ≠ .gt → cmp b c ≠ .gt → cmp a c ≠ .gt
  equivalence : Equivalence fun a b => cmp a b = .eq
  respects (a b : α) : cmp a b = .eq → ∀ c, cmp a c = cmp b c ∧ cmp c a = cmp c b

/-- A transitive comparison is a total preorder. -/
theorem totalPreorder_of_transCmp {α : Type} (cmp : α → α → Ordering) [TransCmp cmp] :
    TotalPreorder cmp where
  swap _ _ := OrientedCmp.eq_swap
  refl _ := ReflCmp.compare_self
  trans a b c hab hbc :=
    of_decide_eq_true (ne_gt_trans cmp a b c (decide_eq_true hab) (decide_eq_true hbc))
  equivalence := {
    refl := fun _ => ReflCmp.compare_self
    symm := OrientedCmp.eq_symm
    trans := TransCmp.eq_trans }
  respects _ _ hab _ := ⟨TransCmp.congr_left hab, TransCmp.congr_right hab⟩

namespace Value

variable {a b : Value} {type : ColumnType}

/-- A number that fits is a real one. -/
theorem Fits.isFinite {x : Binary64} (h : Fits (.float x) type) : x.isFinite = true := by
  cases h with
  | float _ hfinite => exact hfinite

/-- The values of two cells of one column are of one type, real if they are numbers, and compared. -/
structure Comparable (a b : Value) : Prop where
  type_eq : a.type = b.type
  finite : ∀ x, a = float x ∨ b = float x → x.isFinite = true
  compared : ∃ order, a.compare? b = some order ∧ compareCells (some a) (some b) = order

/-- Values that fit one type are comparable. -/
theorem Fits.comparable (ha : a.Fits type) (hb : b.Fits type) : Comparable a b where
  type_eq := ha.type_eq.trans hb.type_eq.symm
  finite x h := by
    rcases h with rfl | rfl
    · exact ha.isFinite
    · exact hb.isFinite
  compared := by
    obtain ⟨order, horder⟩ := Option.isSome_iff_exists.1 (ha.compare?_isSome hb)
    exact ⟨order, horder, by rw [compareCells, horder, Option.getD_some]⟩

end Value

namespace SortKey

/-- Any rows are totally preordered by any sort keys of any table, and the values of two cells of one
column can always be compared. -/
theorem totalPreorder_compareAll (table : Table) (keys : List SortKey) :
    TotalPreorder (compareAll table keys) ∧
      ∀ (name : String) (a b : Row), ∀ v ∈ table.cell? a name, ∀ w ∈ table.cell? b name,
        v.Comparable w := by
  refine ⟨totalPreorder_of_transCmp (compareAll table keys), fun name a b v hv w hw => ?_⟩
  obtain ⟨type, hfits⟩ := exists_fits table name
  exact (hfits a v hv).comparable (hfits b w hw)

/-- Measurements sorted by falling height, then by name, and by a column that there is not. An integer
and the same number with a point tie, and come in the same order relative to a missing height. -/
theorem totalPreorder_compareAll_measured :
    let table : Table := {
      name := "measurement"
      columns := [⟨"height", .float, true⟩, ⟨"name", .text, true⟩] }
    let keys : List SortKey := [⟨"height", .descending⟩, ⟨"name", .ascending⟩, ⟨"depth", .ascending⟩]
    let two : Binary64 := .ofBits 0x4000000000000000
    let whole : Row := .ofList [("height", .int 2), ("name", .str "ada"), ("depth", .bool true)]
    let pointed : Row := .ofList [("name", .str "ada"), ("height", .float two)]
    let missing : Row := .ofList [("height", .str "2"), ("name", .arr [])]
    (compareAll table keys whole pointed = .eq ∧
      compareAll table keys whole missing = compareAll table keys pointed missing) ∧
    compareAll table keys whole missing = .lt ∧ compareAll table keys missing whole = .gt ∧
    table.cell? whole "height" = some (.float two) ∧
      (Value.float two).Comparable (.float two) := by
  intro table keys two whole pointed missing
  have htie : compareAll table keys whole pointed = .eq := by decide +kernel
  have hbefore : compareAll table keys whole missing = .lt := by decide +kernel
  have hwhole : table.cell? whole "height" = some (.float two) := by decide +kernel
  have hpointed : table.cell? pointed "height" = some (.float two) := by decide +kernel
  obtain ⟨horder, hcomparable⟩ := totalPreorder_compareAll table keys
  refine ⟨⟨htie, (horder.respects whole pointed htie missing).1⟩, hbefore, ?_, hwhole,
    hcomparable "height" whole pointed _ hwhole _ hpointed⟩
  rw [horder.swap whole missing, hbefore]
  rfl

end SortKey

end TableQuery
