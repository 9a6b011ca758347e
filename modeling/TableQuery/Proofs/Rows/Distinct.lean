import Mathlib.Data.List.Pairwise
import TableQuery.Proofs.Rows.Arrangement

/-!
# Rows with distinct primary keys

Two rows have the same primary key when their typed cells tie on each of its columns. Where no two
stored rows do, keys that cover the primary key leave a single order, so that sorting forgets how the
rows are stored.
-/

namespace TableQuery

/-- Ties of cells are symmetric. -/
theorem Value.CellTies.symm {a b : Option Value} (h : CellTies a b) : CellTies b a := by
  cases h with
  | missing => exact .missing
  | equal h => exact .equal (Value.compare?_eq_eq_comm.1 h)

instance (a b : Option Value) : Decidable (Value.CellTies a b) :=
  match a, b with
  | none, none => isTrue .missing
  | none, some _ => isFalse nofun
  | some _, none => isFalse nofun
  | some a, some b => decidable_of_iff (a.compare? b = some .eq) ⟨.equal, fun | .equal h => h⟩

namespace Table

variable {table : Table} {rows others : List Row} {a b : Row}

/-- Two rows have the same primary key; missing cells are the same. -/
def SameKey (table : Table) (a b : Row) : Prop :=
  ∀ name ∈ table.primaryKey, Value.CellTies (table.cell? a name) (table.cell? b name)

instance (table : Table) (a b : Row) : Decidable (table.SameKey a b) :=
  inferInstanceAs (Decidable (∀ name ∈ table.primaryKey, _))

/-- No two stored rows have the same primary key. -/
def KeysDistinct (table : Table) (rows : List Row) : Prop :=
  rows.Pairwise fun a b => ¬ table.SameKey a b

instance (table : Table) (rows : List Row) : Decidable (table.KeysDistinct rows) :=
  inferInstanceAs (Decidable (rows.Pairwise _))

/-- Having the same primary key is symmetric. -/
theorem SameKey.symm (h : table.SameKey a b) : table.SameKey b a := fun name hname => (h name hname).symm

/-- Where the keys are distinct, rows of one key are the same row. -/
theorem KeysDistinct.eq_of_sameKey (h : table.KeysDistinct rows) (ha : a ∈ rows) (hb : b ∈ rows)
    (hsame : table.SameKey a b) : a = b := by
  have : Std.Symm fun a b => ¬ table.SameKey a b := ⟨fun _ _ hdistinct hother => hdistinct hother.symm⟩
  by_contra hne
  exact List.Pairwise.forall h ha hb hne hsame

/-- Fewer rows still have distinct keys. -/
theorem KeysDistinct.filter (h : table.KeysDistinct rows) (wanted : Row → Bool) :
    table.KeysDistinct (rows.filter wanted) :=
  List.Pairwise.filter wanted h

/-- Rows with distinct keys are sorted alike however they are stored, if the primary key is sorted
by. -/
theorem KeysDistinct.sort_eq (h : table.KeysDistinct rows) {keys : List SortKey}
    (hkeyed : ∀ name ∈ table.primaryKey, ∃ key ∈ keys, key.column = name) (hperm : rows.Perm others) :
    SortKey.sort table keys rows = SortKey.sort table keys others := by
  have hmem : ∀ row ∈ SortKey.sort table keys rows, row ∈ rows :=
    fun row => (SortKey.sort_perm table keys rows).mem_iff.1
  have hmemOther : ∀ row ∈ SortKey.sort table keys others, row ∈ rows :=
    fun row hrow => hperm.mem_iff.2 ((SortKey.sort_perm table keys others).mem_iff.1 hrow)
  refine List.Perm.eq_of_pairwise (fun a b ha hb hab hba => ?_)
    (pairwise_mergeSort_ne_gt (SortKey.compareAll table keys) rows)
    (pairwise_mergeSort_ne_gt (SortKey.compareAll table keys) others)
    ((SortKey.sort_perm table keys rows).trans
      (hperm.trans (SortKey.sort_perm table keys others).symm))
  refine h.eq_of_sameKey (hmem a ha) (hmemOther b hb) fun name hname => ?_
  obtain ⟨key, hkey, rfl⟩ := hkeyed name hname
  exact SortKey.ties_of_ne_gt hab hba key hkey

end Table

end TableQuery
