import TableQuery.Proofs.Value.Comparison
import TableQuery.Source.Memory

/-!
# Rows in the order of sort keys

The order of sort keys said on typed cells: the first key on which two rows do not tie decides, a
missing value comes before every value in ascending and after every value in descending order. An
arrangement lists stored occurrences in this order, those that tie on every key as they are stored.
Sorting rows gives the rows of an arrangement; the proof follows the stability of merge sort through
occurrences that carry their places.
-/

namespace TableQuery

open Std

/-! ## The order of sort keys -/

namespace Value

/-- One cell comes before another: a missing value before a value, a lesser value before a greater. -/
inductive CellBefore : Option Value → Option Value → Prop
  | missing (v : Value) : CellBefore none (some v)
  | less {a b : Value} (h : a.compare? b = some .lt) : CellBefore (some a) (some b)

/-- Two cells tie: both miss their value, or their values are equal. -/
inductive CellTies : Option Value → Option Value → Prop
  | missing : CellTies none none
  | equal {a b : Value} (h : a.compare? b = some .eq) : CellTies (some a) (some b)

/-- The comparison of cells says less exactly when one comes before the other. -/
theorem compareCells_eq_lt_iff (a b : Option Value) : compareCells a b = .lt ↔ CellBefore a b := by
  constructor
  · intro h
    cases a with
    | none =>
      cases b with
      | none => contradiction
      | some b => exact .missing b
    | some a =>
      cases b with
      | none => contradiction
      | some b =>
        refine .less ?_
        cases hab : a.compare? b with
        | none => simp [compareCells, hab] at h
        | some order => simpa [compareCells, hab] using h
  · intro h
    rcases h with ⟨v⟩ | h
    · rfl
    · simp [compareCells, h]

/-- The comparison of cells of one type says equal exactly when they tie. -/
theorem compareCells_eq_eq_iff {a b : Option Value} {type : ColumnType} (ha : ∀ v ∈ a, v.Fits type)
    (hb : ∀ v ∈ b, v.Fits type) : compareCells a b = .eq ↔ CellTies a b := by
  constructor
  · intro h
    cases a with
    | none =>
      cases b with
      | none => exact .missing
      | some b => contradiction
    | some a =>
      cases b with
      | none => contradiction
      | some b =>
        obtain ⟨order, horder⟩ := Option.isSome_iff_exists.1 ((ha a rfl).compare?_isSome (hb b rfl))
        simp only [compareCells, horder, Option.getD_some] at h
        exact .equal (h ▸ horder)
  · intro h
    rcases h with ⟨⟩ | h
    · rfl
    · simp [compareCells, h]

end Value

namespace SortKey

variable {table : Table} {key : SortKey} {keys : List SortKey} {a b : Row}

/-- A key places a row before another by its column, in its direction. -/
def Places (table : Table) (key : SortKey) (a b : Row) : Prop :=
  match key.direction with
  | .ascending => Value.CellBefore (table.cell? a key.column) (table.cell? b key.column)
  | .descending => Value.CellBefore (table.cell? b key.column) (table.cell? a key.column)

/-- Two rows tie on the column of a key. -/
def Ties (table : Table) (key : SortKey) (a b : Row) : Prop :=
  Value.CellTies (table.cell? a key.column) (table.cell? b key.column)

/-- One row comes before another: on some key it is placed before, and they tie on all keys that
stand before that one. -/
def Before (table : Table) (keys : List SortKey) (a b : Row) : Prop :=
  ∃ earlier key later, keys = earlier ++ key :: later ∧ (∀ k ∈ earlier, k.Ties table a b) ∧
    key.Places table a b

/-- Without keys no row comes before another. -/
theorem not_before_nil : ¬ Before table [] a b := by
  intro h
  obtain ⟨earlier, key, later, h, _⟩ := h
  simp at h

/-- The first key decides unless the rows tie on it. -/
theorem before_cons_iff :
    Before table (key :: keys) a b ↔
      key.Places table a b ∨ key.Ties table a b ∧ Before table keys a b := by
  constructor
  · intro h
    obtain ⟨earlier, decisive, later, hkeys, hties, hplaces⟩ := h
    cases earlier with
    | nil =>
      simp only [List.nil_append, List.cons.injEq] at hkeys
      exact Or.inl (hkeys.1 ▸ hplaces)
    | cons first earlier =>
      simp only [List.cons_append, List.cons.injEq] at hkeys
      obtain ⟨rfl, hrest⟩ := hkeys
      exact Or.inr ⟨hties key List.mem_cons_self,
        earlier, decisive, later, hrest, fun k hk => hties k (List.mem_cons_of_mem _ hk), hplaces⟩
  · intro h
    rcases h with hplaces | ⟨hfirst, earlier, decisive, later, rfl, hties, hplaces⟩
    · exact ⟨[], key, keys, rfl, by simp, hplaces⟩
    · exact ⟨key :: earlier, decisive, later, rfl, by simpa using ⟨hfirst, hties⟩, hplaces⟩

/-- The typed cells of a column, if any, are of one type. -/
theorem exists_fits (table : Table) (name : String) :
    ∃ type, ∀ row, ∀ v ∈ table.cell? row name, v.Fits type := by
  cases hcolumn : table.column? name with
  | none => exact ⟨.text, fun row v hv => by simp [Table.cell?, hcolumn] at hv⟩
  | some column => exact ⟨column.type, fun row v hv => Table.fits_of_cell? hcolumn hv⟩

/-- The comparison by one key says less exactly when the key places a row before the other. -/
theorem compareRows_eq_lt_iff : key.compareRows table a b = .lt ↔ key.Places table a b := by
  unfold compareRows Places
  cases key.direction with
  | ascending => exact Value.compareCells_eq_lt_iff _ _
  | descending =>
    rw [Value.compareCells_swap, Direction.apply, Ordering.swap_swap]
    exact Value.compareCells_eq_lt_iff _ _

/-- The comparison by one key says equal exactly when the rows tie on it. -/
theorem compareRows_eq_eq_iff : key.compareRows table a b = .eq ↔ key.Ties table a b := by
  obtain ⟨type, hfits⟩ := exists_fits table key.column
  unfold compareRows Ties
  rw [← Value.compareCells_eq_eq_iff (hfits a) (hfits b)]
  cases key.direction with
  | ascending => rfl
  | descending => exact Ordering.swap_eq_eq

/-- The comparison by all keys says less exactly when one row comes before the other. -/
theorem compareAll_eq_lt_iff : compareAll table keys a b = .lt ↔ Before table keys a b := by
  induction keys with
  | nil => simp [compareAll, not_before_nil]
  | cons key keys ih =>
    rw [before_cons_iff, ← ih, ← compareRows_eq_lt_iff, ← compareRows_eq_eq_iff]
    exact Ordering.then_eq_lt

/-- The comparison by all keys says equal exactly when the rows tie on every key. -/
theorem compareAll_eq_eq_iff :
    compareAll table keys a b = .eq ↔ ∀ key ∈ keys, key.Ties table a b := by
  induction keys with
  | nil => simp [compareAll]
  | cons key keys ih =>
    rw [List.forall_mem_cons, ← ih, ← compareRows_eq_eq_iff]
    exact Ordering.then_eq_eq

instance (table : Table) (key : SortKey) : TransCmp (key.compareRows table) where
  eq_swap {a b} := by
    unfold compareRows
    rw [Value.compareCells_swap]
    cases key.direction <;> simp [Direction.apply]
  isLE_trans {a b c} hab hbc := by
    obtain ⟨type, hfits⟩ := exists_fits table key.column
    unfold compareRows at *
    cases hdirection : key.direction with
    | ascending =>
      simp only [hdirection, Direction.apply] at hab hbc ⊢
      exact Value.compareCells_isLE_trans (hfits a) (hfits b) (hfits c) hab hbc
    | descending =>
      simp only [hdirection, Direction.apply, ← Value.compareCells_swap] at hab hbc ⊢
      exact Value.compareCells_isLE_trans (hfits c) (hfits b) (hfits a) hbc hab

/-- The comparison by all keys is transitive, since the comparison by each of them is. -/
theorem transCmp_compareAll (table : Table) (keys : List SortKey) :
    TransCmp (compareAll table keys) := by
  induction keys with
  | nil => exact transCmp_tie Row
  | cons key keys ih =>
    exact inferInstanceAs (TransCmp (compareLex (key.compareRows table) (compareAll table keys)))

instance (table : Table) (keys : List SortKey) : TransCmp (compareAll table keys) :=
  transCmp_compareAll table keys

/-- Comparing the other way round swaps the order. -/
theorem compareAll_swap (table : Table) (keys : List SortKey) (a b : Row) :
    compareAll table keys b a = (compareAll table keys a b).swap :=
  OrientedCmp.eq_swap

/-- Rows of which neither comes after the other tie on every key. -/
theorem ties_of_ne_gt (hab : compareAll table keys a b ≠ .gt) (hba : compareAll table keys b a ≠ .gt) :
    ∀ key ∈ keys, key.Ties table a b := by
  rw [← compareAll_eq_eq_iff]
  rw [compareAll_swap] at hba
  cases horder : compareAll table keys a b with
  | eq => rfl
  | lt => exact absurd (horder ▸ rfl) hba
  | gt => exact absurd horder hab

/-- Without keys, rows stay in stored order. -/
theorem sort_nil (table : Table) (rows : List Row) : sort table [] rows = rows :=
  List.mergeSort_of_pairwise (List.pairwise_of_forall fun _ _ => rfl)

end SortKey

/-! ## Stored occurrences in order -/

/-- Merge sort by a transitive comparison lists what ties by increasing places, if that is how it
was listed. The induction takes elements off the front: one that is put back goes after the elements
that are less, and before all others. -/
theorem pairwise_mergeSort_of_increasing {α : Type} (cmp : α → α → Ordering) [TransCmp cmp]
    (place : α → Nat) {items : List α} (h : items.Pairwise fun a b => place a < place b) :
    (items.mergeSort fun a b => cmp a b ≠ .gt).Pairwise fun a b =>
      cmp a b = .lt ∨ cmp a b = .eq ∧ place a < place b := by
  have hswap (a b : α) : cmp b a = (cmp a b).swap := OrientedCmp.eq_swap
  induction items with
  | nil => simp
  | cons a items ih =>
    obtain ⟨hfirst, hrest⟩ := List.pairwise_cons.1 h
    obtain ⟨before, after, hsorted, hsplit, hless⟩ :=
      List.mergeSort_cons (ne_gt_trans cmp) (ne_gt_total cmp) a items
    have hpairs := pairwise_mergeSort_ne_gt cmp (a :: items)
    have hmem (b : α) (hb : b ∈ after) : b ∈ items := by
      rw [← List.mem_mergeSort, hsplit]
      exact List.mem_append_right before hb
    rw [hsorted] at hpairs ⊢
    have hrests := ih hrest
    rw [hsplit, List.pairwise_append] at hrests
    obtain ⟨hbefore, hafter, hacross⟩ := hrests
    rw [List.pairwise_append, List.pairwise_cons] at hpairs
    refine List.pairwise_append.2 ⟨hbefore, List.pairwise_cons.2 ⟨fun b hb => ?_, hafter⟩,
      fun b hb c hc => ?_⟩
    · have hle := hpairs.2.1.1 b hb
      cases hab : cmp a b with
      | lt => exact Or.inl rfl
      | eq => exact Or.inr ⟨rfl, hfirst b (hmem b hb)⟩
      | gt => contradiction
    · rcases List.mem_cons.1 hc with rfl | hc
      · have hgt := hless b hb
        rw [Bool.not_eq_true', decide_eq_false_iff_not, Decidable.not_not] at hgt
        exact Or.inl (by rw [hswap, hgt]; rfl)
      · exact hacross b hb c hc

/-- Stored occurrences, rows with their places, that are all and only those of wanted rows, in the
order of sort keys and otherwise as they are stored. -/
structure Arranged (table : Table) (keys : List SortKey) (stored : List Row) (wanted : Row → Bool)
    (occurrences : List (Row × Nat)) : Prop where
  perm : occurrences.Perm (stored.zipIdx.filter fun occurrence => wanted occurrence.1)
  ordered : occurrences.Pairwise fun a b =>
    SortKey.Before table keys a.1 b.1 ∨ (∀ key ∈ keys, key.Ties table a.1 b.1) ∧ a.2 < b.2

namespace Arranged

variable {table : Table} {keys : List SortKey} {stored : List Row} {wanted : Row → Bool}
  {occurrences : List (Row × Nat)}

/-- The places of stored occurrences increase. -/
theorem pairwise_zipIdx (stored : List Row) : stored.zipIdx.Pairwise fun a b => a.2 < b.2 := by
  have h : (stored.zipIdx.map Prod.snd).Pairwise (· < ·) := by
    rw [List.zipIdx_map_snd]
    exact List.pairwise_lt_range'
  exact List.pairwise_map.1 h

/-- The rows of the wanted occurrences are the wanted rows, each as often as it is stored. -/
theorem map_fst_filter_zipIdx (stored : List Row) (wanted : Row → Bool) :
    (stored.zipIdx.filter fun occurrence => wanted occurrence.1).map Prod.fst =
      stored.filter wanted := by
  rw [← List.zipIdx_map_fst 0 stored, List.filter_map, List.zipIdx_map_fst]
  rfl

/-- Sorting wanted rows gives the rows of an arrangement. -/
theorem exists_of_sort (table : Table) (keys : List SortKey) (stored : List Row)
    (wanted : Row → Bool) :
    ∃ occurrences, Arranged table keys stored wanted occurrences ∧
      occurrences.map Prod.fst = SortKey.sort table keys (stored.filter wanted) := by
  have := transCmp_on (SortKey.compareAll table keys) (Prod.fst : Row × Nat → Row)
  have hincreasing := (pairwise_zipIdx stored).filter fun occurrence => wanted occurrence.1
  have hsorted := pairwise_mergeSort_of_increasing
    (fun a b : Row × Nat => SortKey.compareAll table keys a.1 b.1) Prod.snd hincreasing
  refine ⟨_, ⟨List.mergeSort_perm _ _, hsorted.imp ?_⟩, ?_⟩
  · intro a b hab
    rwa [SortKey.compareAll_eq_lt_iff, SortKey.compareAll_eq_eq_iff] at hab
  · rw [SortKey.sort, ← map_fst_filter_zipIdx]
    exact List.map_mergeSort fun _ _ _ _ => rfl

/-- The occurrences of fewer rows are still arranged once the others are left out. -/
theorem filter (h : Arranged table keys stored wanted occurrences) (fewer : Row → Bool)
    (hfewer : ∀ row ∈ stored, fewer row = true → wanted row = true) :
    Arranged table keys stored fewer (occurrences.filter fun occurrence => fewer occurrence.1) where
  perm := by
    have hperm := h.perm.filter fun occurrence : Row × Nat => fewer occurrence.1
    rw [List.filter_filter] at hperm
    refine hperm.trans (List.Perm.of_eq (List.filter_congr fun occurrence hmem => ?_))
    have hrow := hfewer occurrence.1 (List.fst_mem_of_mem_zipIdx hmem)
    cases hkept : fewer occurrence.1 with
    | false => rfl
    | true => rw [hrow hkept]; rfl
  ordered := h.ordered.filter _

/-- Stored occurrences have a single arrangement. -/
theorem eq_of_arranged {others : List (Row × Nat)} (h : Arranged table keys stored wanted occurrences)
    (hothers : Arranged table keys stored wanted others) : occurrences = others := by
  apply List.Perm.eq_of_pairwise _ h.ordered hothers.ordered (h.perm.trans hothers.perm.symm)
  intro a b _ _ hab hba
  simp only [← SortKey.compareAll_eq_lt_iff, ← SortKey.compareAll_eq_eq_iff,
    SortKey.compareAll_swap table keys a.1 b.1] at hab hba
  -- One of two occurrences comes before the other, and then the other does not.
  cases horder : SortKey.compareAll table keys a.1 b.1 with
  | lt => simp [horder] at hba
  | gt => simp [horder] at hab
  | eq =>
    simp only [horder, reduceCtorEq, true_and, false_or, Ordering.swap_eq] at hab hba
    exact absurd hba (Nat.lt_asymm hab)

end Arranged

/-- Keeping some of the sorted rows is sorting the rows that are kept. -/
theorem SortKey.filter_sort (table : Table) (keys : List SortKey) (rows : List Row)
    (kept : Row → Bool) : (sort table keys rows).filter kept = sort table keys (rows.filter kept) := by
  obtain ⟨all, hall, hsorted⟩ := Arranged.exists_of_sort table keys rows fun _ => true
  obtain ⟨fewer, hfewer, hkept⟩ := Arranged.exists_of_sort table keys rows kept
  have hsame := (hall.filter kept fun _ _ _ => rfl).eq_of_arranged hfewer
  rw [List.filter_eq_self.2 fun _ _ => rfl] at hsorted
  rw [← hsorted, ← hkept, ← hsame, List.filter_map]
  rfl

end TableQuery
