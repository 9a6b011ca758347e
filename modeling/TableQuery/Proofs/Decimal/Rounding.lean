import Mathlib.Algebra.Group.Nat.Defs
import TableQuery.Decimal.Binary64

/-!
# Rounding is monotone

A greater quotient is never rounded to a smaller whole number, and a greater number never to a smaller
datum: among numbers of one exponent the fractions are rounded alike, and a number of a greater
exponent is rounded to at least the first datum with this exponent, which lies above what any number
of a smaller exponent can be rounded to.
-/

namespace TableQuery.Binary64

variable {m n den : Nat}

/-- A quotient is rounded down or up. -/
theorem roundQuotient_bounds (num den : Nat) :
    num / den ≤ roundQuotient num den ∧ roundQuotient num den ≤ num / den + 1 := by
  unfold roundQuotient
  dsimp only
  split <;> omega

/-- Rounding a quotient is monotone. -/
theorem roundQuotient_mono (h : m ≤ n) : roundQuotient m den ≤ roundQuotient n den := by
  rcases Nat.lt_or_eq_of_le (Nat.div_le_div_right (c := den) h) with hlt | heq
  · -- A smaller quotient is rounded to at most the greater one.
    have hm := (roundQuotient_bounds m den).2
    have hn := (roundQuotient_bounds n den).1
    omega
  · -- The same quotient is rounded up for the greater remainder if it is for the smaller one.
    have hrest : m % den ≤ n % den := by
      have hm := Nat.div_add_mod m den
      have hn := Nat.div_add_mod n den
      rw [heq] at hm
      omega
    unfold roundQuotient
    dsimp only
    rw [heq]
    split <;> split <;> omega

/-- The exponent at which a number of units is rounded leaves at most 53 bits. -/
theorem div_lt_of_log2 (scaled : Nat) : scaled / 2 ^ (scaled.log2 - 52) < 2 * fractionBound := by
  have hlog : scaled < 2 ^ (scaled.log2 + 1) := Nat.lt_log2_self
  refine Nat.div_lt_of_lt_mul (Nat.lt_of_lt_of_le hlog ?_)
  rw [show 2 * fractionBound = 2 ^ 53 from rfl, ← Nat.pow_add]
  exact Nat.pow_le_pow_right (by decide) (by omega)

/-- An exponent above the least one leaves at least 53 bits. -/
theorem le_div_of_log2 {scaled : Nat} (h : 52 < scaled.log2) :
    fractionBound ≤ scaled / 2 ^ (scaled.log2 - 52) := by
  have hscaled : scaled ≠ 0 := by
    rintro rfl
    simp at h
  rw [Nat.le_div_iff_mul_le (Nat.two_pow_pos _), show fractionBound = 2 ^ 52 from rfl, ← Nat.pow_add,
    Nat.add_sub_cancel' (Nat.le_of_lt h)]
  exact Nat.log2_self_le hscaled

/-- A greater number has no smaller exponent. -/
theorem log2_sub_mono (h : m ≤ n) : m.log2 - 52 ≤ n.log2 - 52 := by
  rcases Nat.eq_zero_or_pos m with rfl | hm
  · rw [Nat.log2_zero, Nat.zero_sub]
    exact Nat.zero_le _
  · have hlog : m.log2 ≤ n.log2 :=
      (Nat.le_log2 (by omega)).2 (Nat.le_trans (Nat.log2_self_le (by omega)) h)
    omega

/-- Rounding a number to a datum is monotone. -/
theorem nearestMagnitude_mono (h : m ≤ n) : nearestMagnitude m den ≤ nearestMagnitude n den := by
  have hscaled : m * unitsInOne ≤ n * unitsInOne := Nat.mul_le_mul_right _ h
  unfold nearestMagnitude
  generalize m * unitsInOne = small at hscaled ⊢
  generalize n * unitsInOne = great at hscaled ⊢
  dsimp only
  have hexponent : (small / den).log2 - 52 ≤ (great / den).log2 - 52 :=
    log2_sub_mono (Nat.div_le_div_right hscaled)
  refine Nat.le_min.2 ⟨Nat.le_trans (Nat.min_le_left _ _) ?_, Nat.min_le_right _ _⟩
  rcases Nat.lt_or_eq_of_le hexponent with hlt | heq
  · have hsmall := (roundQuotient_bounds small (den * 2 ^ ((small / den).log2 - 52))).2
    have hgreat := (roundQuotient_bounds great (den * 2 ^ ((great / den).log2 - 52))).1
    rw [← Nat.div_div_eq_div_mul] at hsmall hgreat
    have hbelow := div_lt_of_log2 (small / den)
    have hlog : 52 < (great / den).log2 := by omega
    have habove := le_div_of_log2 hlog
    calc ((small / den).log2 - 52) * fractionBound +
          roundQuotient small (den * 2 ^ ((small / den).log2 - 52))
      _ ≤ ((small / den).log2 - 52) * fractionBound + 2 * fractionBound := by omega
      _ = ((small / den).log2 - 52 + 1) * fractionBound + fractionBound := by
        rw [Nat.add_mul, Nat.one_mul]
        omega
      _ ≤ ((great / den).log2 - 52) * fractionBound + fractionBound :=
        Nat.add_le_add_right (Nat.mul_le_mul_right _ hlt) _
      _ ≤ ((great / den).log2 - 52) * fractionBound +
          roundQuotient great (den * 2 ^ ((great / den).log2 - 52)) := by omega
  · rw [heq]
    exact Nat.add_le_add_left (roundQuotient_mono hscaled) _

/-- An integer is rounded to a number. -/
theorem isNan_ofInt (n : Int) : (ofInt n).isNan = false :=
  decide_eq_false (Nat.not_lt.2 (Nat.min_le_right _ _))

/-- A greater integer is never rounded to a smaller number. -/
theorem key_ofInt_mono {a b : Int} (h : a ≤ b) : (ofInt a).key ≤ (ofInt b).key := by
  unfold key ofInt nearest
  simp only [decide_eq_true_eq]
  have hnegative (hb : b < 0) : nearestMagnitude b.natAbs 1 ≤ nearestMagnitude a.natAbs 1 :=
    nearestMagnitude_mono (by omega)
  have hpositive (ha : 0 ≤ a) : nearestMagnitude a.natAbs 1 ≤ nearestMagnitude b.natAbs 1 :=
    nearestMagnitude_mono (by omega)
  split <;> split <;> omega

end TableQuery.Binary64
