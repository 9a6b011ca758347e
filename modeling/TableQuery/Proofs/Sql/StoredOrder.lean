import TableQuery.Proofs.Decimal.Units
import TableQuery.Proofs.Value.Comparison
import TableQuery.Sql.Database

/-!
# The order of stored cells and rows

Whatever cells hold, numbers of both kinds, infinities and NaNs included, they are totally
preordered: by storage class, then numbers by their size in units, texts by their characters and
bytes by their digits. Stored rows are therefore totally preordered by any sort keys.
-/

namespace TableQuery

open Std

namespace Sql

namespace Stored

/-- The size of a number in units; other cells have none. -/
def units : Stored → Int
  | integer n => n * Binary64.unitsInOne
  | real x => x.signedUnits
  | _ => 0

/-- The characters of a text; other cells have none. -/
def characters : Stored → String
  | text s => s
  | _ => ""

/-- The digits of bytes; other cells have none. -/
def digits : Stored → List (Fin 16)
  | blob u => u.digits
  | _ => []

/-- Cells are ordered by their classes, and in one class by what it holds. -/
theorem order_eq (a b : Stored) : a.order b =
    compareLex (compareOn rank) (compareLex (compareOn units)
      (compareLex (compareOn characters) (compareOn digits))) a b := by
  have hscaled (n m : Int) :
      compare n m = compare (n * Binary64.unitsInOne) (m * Binary64.unitsInOne) := by
    have hpos : (0 : Int) < Binary64.unitsInOne := by decide +kernel
    rcases Int.lt_trichotomy n m with hlt | rfl | hgt
    · rw [Int.compare_eq_lt.2 hlt, Int.compare_eq_lt.2 (Int.mul_lt_mul_of_pos_right hlt hpos)]
    · rw [Int.compare_eq_eq.2 rfl, Int.compare_eq_eq.2 rfl]
    · rw [Int.compare_eq_gt.2 hgt, Int.compare_eq_gt.2 (Int.mul_lt_mul_of_pos_right hgt hpos)]
  cases a <;> cases b <;>
    simp only [order, compareLex, compareOn, rank, units, characters, digits, ← hscaled,
      Binary64.compare_key, Uuid.compare, ReflOrd.compare_self, Ordering.then_eq, Ordering.eq_then] <;>
    rfl

instance : TransCmp order := by
  have heq : order = compareLex (compareOn rank) (compareLex (compareOn units)
      (compareLex (compareOn characters) (compareOn digits))) :=
    funext fun a => funext (order_eq a)
  rw [heq]
  infer_instance

end Stored

/-- Reading a transitive comparison in a direction keeps it transitive. -/
theorem transCmp_apply {α : Type} (direction : Direction) (cmp : α → α → Ordering) [TransCmp cmp] :
    TransCmp fun a b => direction.apply (cmp a b) := by
  cases direction with
  | ascending => exact inferInstanceAs (TransCmp cmp)
  | descending =>
    have hswap : (fun a b => Direction.descending.apply (cmp a b)) = fun a b => cmp b a :=
      funext fun a => funext fun b => OrientedCmp.eq_swap.symm
    rw [hswap]
    exact { eq_swap := OrientedCmp.eq_swap, isLE_trans := fun hab hbc => TransCmp.isLE_trans hbc hab }

/-- The comparison of stored rows by sort keys is transitive. -/
theorem transCmp_compareStored (keys : List SortKey) : TransCmp (compareStored keys) := by
  induction keys with
  | nil => exact transCmp_tie StoredRow
  | cons key keys ih =>
    have := transCmp_on Stored.order fun row : StoredRow => (row.lookup key.column).getD .null
    have := transCmp_apply key.direction fun a b : StoredRow =>
      ((a.lookup key.column).getD .null).order ((b.lookup key.column).getD .null)
    exact inferInstanceAs (TransCmp (compareLex (fun a b : StoredRow =>
      key.direction.apply (((a.lookup key.column).getD .null).order
        ((b.lookup key.column).getD .null))) (compareStored keys)))

end Sql

end TableQuery
