import Mathlib.Algebra.Group.Nat.Defs
import Mathlib.Order.Monotone.Basic
import TableQuery.Decimal.Binary64

/-!
# The units of data

The units of a magnitude grow by one step from each magnitude to the next. The step is one unit at
first and doubles with each exponent after the first two. Data are therefore ordered by magnitude as
by the numbers that they denote.
-/

namespace TableQuery.Binary64

variable {x y : Binary64}

/-- The units of a magnitude. -/
def unitsOf (m : Nat) : Nat :=
  if m / fractionBound = 0 then m % fractionBound
  else (fractionBound + m % fractionBound) * 2 ^ (m / fractionBound - 1)

/-- The step from a magnitude to the next one. -/
def stepOf (m : Nat) : Nat := 2 ^ (m / fractionBound - 1)

/-- The units of a datum are those of its magnitude. -/
theorem units_eq (x : Binary64) : x.units = unitsOf x.magnitude := rfl

/-- The units of the next magnitude. -/
theorem unitsOf_succ (m : Nat) : unitsOf (m + 1) = unitsOf m + stepOf m := by
  have hbound : 0 < fractionBound := by decide
  have hfraction : m % fractionBound < fractionBound := Nat.mod_lt _ hbound
  unfold unitsOf stepOf
  rcases Nat.lt_or_eq_of_le (Nat.succ_le_of_lt hfraction) with hlt | heq
  · have hsame : (m + 1) / fractionBound = m / fractionBound := by
      unfold fractionBound at hlt ⊢
      omega
    have hnext : (m + 1) % fractionBound = m % fractionBound + 1 := by
      unfold fractionBound at hlt ⊢
      omega
    rw [hsame, hnext]
    split
    next hzero => rw [hzero, Nat.zero_sub, Nat.pow_zero]
    next => rw [← Nat.add_assoc, Nat.add_mul, Nat.one_mul]
  · have hsucc : (m + 1) / fractionBound = m / fractionBound + 1 := by
      unfold fractionBound at heq ⊢
      omega
    have hzero : (m + 1) % fractionBound = 0 := by
      unfold fractionBound at heq ⊢
      omega
    rw [hsucc, hzero, if_neg (Nat.succ_ne_zero _), Nat.add_sub_cancel]
    split
    next hfirst =>
      rw [hfirst, Nat.pow_zero, Nat.mul_one, Nat.add_zero]
      exact heq.symm
    next hlater =>
      obtain ⟨exponent, hexponent⟩ := Nat.exists_eq_succ_of_ne_zero hlater
      rw [hexponent, Nat.succ_eq_add_one, Nat.add_sub_cancel, Nat.pow_succ, ← Nat.succ_mul,
        Nat.add_zero, ← Nat.mul_assoc, Nat.mul_right_comm]
      congr 1
      omega

/-- Greater magnitudes have more units. -/
theorem unitsOf_strictMono : StrictMono unitsOf :=
  strictMono_nat_of_lt_succ fun m => by
    rw [unitsOf_succ]
    exact Nat.lt_add_of_pos_right (Nat.two_pow_pos _)

/-- Magnitudes are ordered as units. -/
theorem magnitude_lt_iff : x.magnitude < y.magnitude ↔ x.units < y.units :=
  unitsOf_strictMono.lt_iff_lt.symm

/-- Signed magnitudes are ordered as signed units. -/
theorem key_lt_iff : x.key < y.key ↔ x.signedUnits < y.signedUnits := by
  have hless : x.magnitude < y.magnitude ↔ x.units < y.units := magnitude_lt_iff
  have hgreater : y.magnitude < x.magnitude ↔ y.units < x.units := magnitude_lt_iff
  have hpositive (z : Binary64) : 0 < z.magnitude ↔ 0 < z.units :=
    magnitude_lt_iff (x := zero false)
  have hx := hpositive x
  have hy := hpositive y
  unfold key signedUnits
  cases x.negative <;> cases y.negative <;>
    simp only [if_true, if_false, Bool.false_eq_true] <;> omega

/-- Data with the same signed magnitude are the same or the two zeros. -/
theorem key_eq_iff : x.key = y.key ↔ x = y ∨ ∃ negative, x = zero negative ∧ y = zero !negative := by
  obtain ⟨xnegative, xmagnitude, _⟩ := x
  obtain ⟨ynegative, ymagnitude, _⟩ := y
  simp only [key, zero, mk.injEq]
  cases xnegative <;> cases ynegative <;>
    simp only [Bool.exists_bool, Bool.not_true, Bool.not_false, eq_self, Bool.false_eq_true,
      reduceCtorEq, if_true, if_false, true_and, false_and, and_false, or_false, false_or] <;>
    omega

/-- Data are ordered as their units. -/
theorem compare_key (x y : Binary64) : compare x.key y.key = compare x.signedUnits y.signedUnits := by
  rcases Int.lt_trichotomy x.key y.key with hlt | heq | hgt
  · rw [Int.compare_eq_lt.2 hlt, Int.compare_eq_lt.2 (key_lt_iff.1 hlt)]
  · have hunits : x.signedUnits = y.signedUnits := by
      have hle := mt key_lt_iff.2 (Int.not_lt.2 (Int.le_of_eq heq.symm))
      have hge := mt key_lt_iff.2 (Int.not_lt.2 (Int.le_of_eq heq))
      omega
    rw [heq, hunits, Int.compare_eq_eq.2 rfl, Int.compare_eq_eq.2 rfl]
  · rw [Int.compare_eq_gt.2 hgt, Int.compare_eq_gt.2 (key_lt_iff.1 hgt)]

end TableQuery.Binary64
