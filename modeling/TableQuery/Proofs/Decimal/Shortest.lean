import Mathlib.Algebra.Order.Field.Power
import Mathlib.Data.List.DropRight
import Mathlib.Tactic.Ring
import TableQuery.Proofs.Calendar.TextOrder
import TableQuery.Proofs.Decimal.Interval

/-!
# Seventeen digits suffice

The interval of a datum is wider than a step of the grid of seventeen digits, so on this grid one of
the two neighbours of the datum reads back. The search therefore finds digits, and what it finds reads
back as the datum.
-/

namespace TableQuery

namespace Decimal

/-- A number is less than the power of ten of the number of its digits. -/
theorem lt_pow_length_writeNat (n : ℕ) : n < 10 ^ (writeNat n).length :=
  (Nat.length_toDigits_le_iff (by decide) Nat.length_toDigits_pos).1 le_rfl

/-- A positive number is at least the power of ten of its leading digit. -/
theorem pow_length_writeNat_le {n : ℕ} (h : 0 < n) : 10 ^ ((writeNat n).length - 1) ≤ n := by
  rcases Nat.eq_zero_or_pos ((writeNat n).length - 1) with hone | hmore
  · rw [hone]
    exact h
  · by_contra hless
    have hle := (Nat.length_toDigits_le_iff (by decide) hmore).2 (Nat.lt_of_not_le hless)
    change (writeNat n).length ≤ (writeNat n).length - 1 at hle
    omega

end Decimal

namespace Binary64

/-! ## Grids of powers of ten -/

/-- A grid in reach on which something is found makes the search end on a grid with what it finds. -/
theorem onGrid_firstGrid {onGrid : ℤ → Option ℕ} {leading : ℤ} {fuel count k : ℕ} (hk : k < fuel)
    (h : ∃ n, onGrid (leading - (count + k : ℕ)) = some n) :
    onGrid (firstGrid onGrid leading fuel count).2 = some (firstGrid onGrid leading fuel count).1 := by
  -- With each grid that is searched in vain, the one in reach is one grid closer.
  induction fuel generalizing count k with
  | zero => omega
  | succ fuel ih =>
    unfold firstGrid
    dsimp only
    split
    next hfound => exact hfound
    next hnone =>
      cases k with
      | zero =>
        obtain ⟨n, hn⟩ := h
        rw [Nat.add_zero, hnone] at hn
        contradiction
      | succ k => exact ih (Nat.lt_of_succ_lt_succ hk) (Nat.succ_add_eq_add_succ count k ▸ h)

/-- One step of the grid of multiples of a power of ten, in quarter units. -/
def gridStep (exponent : ℤ) : ℚ := 10 ^ exponent * (4 * unitsInOne : ℕ)

/-- There are units in one. -/
theorem four_mul_unitsInOne_pos : 0 < 4 * unitsInOne := by decide +kernel

/-- A step of a grid as the quotient in which the grid is searched. -/
theorem gridStep_eq (exponent : ℤ) :
    gridStep exponent =
      (Nat.pow 10 exponent.toNat * (4 * unitsInOne) : ℕ) / (Nat.pow 10 (-exponent).toNat : ℕ) := by
  unfold gridStep
  generalize 4 * unitsInOne = one
  simp only [Nat.pow_eq]
  rcases exponent.eq_nat_or_neg with ⟨n, rfl | rfl⟩
  · simp
  · simp [div_eq_mul_inv, mul_comm]

/-- Greater powers of ten have greater steps. -/
theorem gridStep_add (exponent : ℤ) (k : ℕ) : gridStep (exponent + k) = 10 ^ k * gridStep exponent := by
  unfold gridStep
  rw [zpow_add₀ (by norm_num), zpow_natCast]
  ring

namespace ReadBack

variable {r : ReadBack} {tie : Tie} {exponent : ℤ} {n : ℕ}

/-- What is found on a grid reads back. -/
theorem within_of_onGrid (h : r.onGrid tie exponent = some n) : r.Within (n * gridStep exponent) := by
  have hcontains := List.find?_some h
  have hden : 0 < Nat.pow 10 (-exponent).toNat := Nat.pow_pos (by decide)
  have hwithin := within_of_contains hden hcontains
  rwa [Nat.cast_mul, mul_div_assoc, ← gridStep_eq] at hwithin

/-- Of the two neighbours of the middle on a grid that is finer than the interval, one reads back. -/
theorem contains_neighbour {scale den : ℕ} (hscale : 0 < scale) (hden : 0 < den)
    (hlow : r.low < r.middle) (hhigh : r.middle < r.high)
    (h : (scale : ℚ) / den < r.high - r.low) :
    r.contains (r.middle * den / scale * scale) den = true ∨
      r.contains ((r.middle * den / scale + 1) * scale) den = true := by
  have hpos : (0 : ℚ) < den := Nat.cast_pos.2 hden
  have hdown : r.middle * den / scale * scale ≤ r.middle * den := Nat.div_mul_le_self _ _
  have hup : r.middle * den < (r.middle * den / scale + 1) * scale := by
    rw [Nat.mul_comm _ scale]
    exact Nat.lt_mul_div_succ _ hscale
  generalize r.middle * den / scale = lower at hdown hup ⊢
  have hlower : ((lower * scale : ℕ) : ℚ) / den ≤ r.middle := (div_le_iff₀ hpos).2 (by exact_mod_cast hdown)
  have hupper : (r.middle : ℚ) < ((lower + 1) * scale : ℕ) / den :=
    (lt_div_iff₀ hpos).2 (by exact_mod_cast hup)
  have hstep : (((lower + 1) * scale : ℕ) : ℚ) / den = ((lower * scale : ℕ) : ℚ) / den + scale / den := by
    push_cast
    ring
  have hmiddleLow : (r.low : ℚ) < r.middle := Nat.cast_lt.2 hlow
  have hmiddleHigh : (r.middle : ℚ) < r.high := Nat.cast_lt.2 hhigh
  by_cases hreads : (r.low : ℚ) < ((lower * scale : ℕ) : ℚ) / den
  · exact Or.inl (contains_of_lt hden hreads (hlower.trans_lt hmiddleHigh))
  · exact Or.inr (contains_of_lt hden (hmiddleLow.trans hupper) (by linarith))

/-- On a grid that is finer than the interval, something is found. -/
theorem exists_onGrid (tie : Tie) (hlow : r.low < r.middle) (hhigh : r.middle < r.high)
    (h : gridStep exponent < r.high - r.low) : ∃ n, r.onGrid tie exponent = some n := by
  rw [gridStep_eq] at h
  have hscale : 0 < Nat.pow 10 exponent.toNat * (4 * unitsInOne) :=
    Nat.mul_pos (Nat.pow_pos (by decide)) four_mul_unitsInOne_pos
  have hden : 0 < Nat.pow 10 (-exponent).toNat := Nat.pow_pos (by decide)
  have hreads := contains_neighbour hscale hden hlow hhigh h
  rw [← Option.isSome_iff_exists, onGrid, List.find?_isSome]
  split
  all_goals
    simp only [List.mem_cons, List.not_mem_nil, or_false, exists_eq_or_imp, exists_eq_left]
  · exact hreads
  · exact hreads.symm

/-- The leading digit of a datum is where its exponent says. -/
theorem gridStep_leading_le (h : 0 < r.middle) : gridStep r.leading ≤ r.middle := by
  have hone := four_mul_unitsInOne_pos
  unfold leading gridStep
  generalize 4 * unitsInOne = one at hone ⊢
  by_cases hle : one ≤ r.middle
  · have hdigits := Decimal.pow_length_writeNat_le (Nat.div_pos hle hone)
    have hlength : 0 < (Decimal.writeNat (r.middle / one)).length := Nat.length_toDigits_pos
    rw [if_pos hle]
    generalize (Decimal.writeNat (r.middle / one)).length = length at hdigits hlength ⊢
    have hexponent : (length : ℤ) - 1 = (length - 1 : ℕ) := by omega
    have hwhole : 10 ^ (length - 1) * one ≤ r.middle :=
      (Nat.mul_le_mul_right one hdigits).trans (Nat.div_mul_le_self _ _)
    rw [hexponent, zpow_natCast]
    exact_mod_cast hwhole
  · have hdigits := Decimal.lt_pow_length_writeNat ((one - 1) / r.middle)
    rw [if_neg hle]
    generalize (Decimal.writeNat ((one - 1) / r.middle)).length = length at hdigits ⊢
    have hwhole : one ≤ 10 ^ length * r.middle := by
      have hless := (Nat.div_lt_iff_lt_mul h).1 hdigits
      omega
    rw [zpow_neg, zpow_natCast, inv_mul_le_iff₀ (by positivity)]
    exact_mod_cast hwhole

end ReadBack

/-! ## The search for the shortest digits -/

variable {x : Binary64} {m : ℕ}

/-- Greater magnitudes have no smaller steps. -/
theorem stepOf_mono : Monotone stepOf := fun _ _ h =>
  Nat.pow_le_pow_right (by decide) (Nat.sub_le_sub_right (Nat.div_le_div_right h) 1)

/-- A datum is at most twice as many steps as there are fractions. -/
theorem unitsOf_succ_le (m : ℕ) : unitsOf (m + 1) ≤ 2 * fractionBound * stepOf m := by
  have hfraction : m % fractionBound < fractionBound := Nat.mod_lt _ (by decide)
  rw [unitsOf_succ]
  unfold unitsOf stepOf
  split
  next hzero =>
    rw [hzero]
    change m % fractionBound + 1 ≤ 2 * fractionBound * 1
    omega
  next =>
    rw [← Nat.succ_mul]
    exact Nat.mul_le_mul_right _ (by omega)

/-- The interval of a datum has room for a step of the grid of seventeen digits. -/
theorem gridStep_lt_width (h : x.magnitude = m + 1) :
    gridStep (x.readBack.leading - (0 + 16 : ℕ)) < x.readBack.high - x.readBack.low := by
  obtain ⟨hlow, hmiddle, hhigh, -⟩ := readBack_eq h
  have hstep : 0 < stepOf m := Nat.two_pow_pos _
  have hnext : stepOf m ≤ stepOf (m + 1) := stepOf_mono (Nat.le_succ m)
  have hbelow := unitsOf_succ m
  have habove : unitsOf (m + 2) = unitsOf (m + 1) + stepOf (m + 1) := unitsOf_succ (m + 1)
  have hwidth : (x.readBack.low : ℚ) + 4 * stepOf m ≤ x.readBack.high := by
    rw [hlow, hhigh]
    exact_mod_cast (by omega)
  have hmiddleLt : (x.readBack.middle : ℚ) < 4 * 10 ^ 16 * stepOf m := by
    have hunits := unitsOf_succ_le m
    unfold fractionBound at hunits
    rw [hmiddle]
    exact_mod_cast (by omega)
  have hleading := ReadBack.gridStep_leading_le (r := x.readBack) (by omega)
  have hshift := gridStep_add (x.readBack.leading - (0 + 16 : ℕ)) 16
  rw [Nat.zero_add, sub_add_cancel] at hshift
  linarith

/-- What the search finds reads back. -/
theorem within_search (tie : Tie) (h : x.magnitude ≠ 0) :
    x.readBack.Within ((x.readBack.search tie 17 0).1 * gridStep (x.readBack.search tie 17 0).2) := by
  obtain ⟨m, hm⟩ := Nat.exists_eq_succ_of_ne_zero h
  obtain ⟨hlow, hmiddle, hhigh, -⟩ := readBack_eq hm
  have hbelow : unitsOf m < unitsOf (m + 1) := unitsOf_strictMono m.lt_succ_self
  have habove : unitsOf (m + 1) < unitsOf (m + 2) := unitsOf_strictMono (m + 1).lt_succ_self
  have hfinds := ReadBack.exists_onGrid tie (by omega) (by omega) (gridStep_lt_width hm)
  exact ReadBack.within_of_onGrid (onGrid_firstGrid (by decide) hfinds)

/-- Digits are those without the trailing zeros, and the zeros. -/
theorem exists_trailing (s : List Char) :
    ∃ k, s = (s.reverse.dropWhile (· = '0')).reverse ++ List.replicate k '0' := by
  have hsplit : s.rdropWhile (· = '0') ++ s.rtakeWhile (· = '0') = s :=
    List.rdropWhile_append_rtakeWhile
  have hzeros : ∀ c ∈ s.rtakeWhile (· = '0'), c = '0' := fun c hc => by
    simpa using List.mem_rtakeWhile_imp hc
  rw [List.eq_replicate_length.2 hzeros] at hsplit
  exact ⟨_, hsplit.symm⟩

/-- Zeros denote zero. -/
theorem digitsValue_replicate (k : ℕ) : Decimal.digitsValue (List.replicate k '0') = 0 := by
  rw [Decimal.digitsValue, Nat.ofDigitChars_replicate_zero, Nat.mul_zero]

/-- The shortest digits of a datum read back, whichever of two nearest decimals is taken. -/
theorem shortest_spec (tie : Tie) (h : x.magnitude ≠ 0) :
    (x.shortest tie).1 ≠ [] ∧ (∀ c ∈ (x.shortest tie).1, c.isDigit = true) ∧
      x.readBack.Within (Decimal.digitsValue (x.shortest tie).1 *
        gridStep ((x.shortest tie).2 - (x.shortest tie).1.length)) := by
  have hwithin := within_search tie h
  unfold shortest
  generalize x.readBack.search tie 17 0 = found at hwithin ⊢
  obtain ⟨digits, exponent⟩ := found
  dsimp only at hwithin ⊢
  obtain ⟨zeros, hzeros⟩ := exists_trailing (Decimal.writeNat digits)
  generalize ((Decimal.writeNat digits).reverse.dropWhile (· = '0')).reverse = shortest at hzeros ⊢
  have hvalue : digits = 10 ^ zeros * Decimal.digitsValue shortest := by
    have hwritten := Decimal.digitsValue_writeNat digits
    rwa [hzeros, Calendar.digitsValue_append, digitsValue_replicate, List.length_replicate,
      Nat.add_zero, eq_comm] at hwritten
  have hplaces : ((Decimal.writeNat digits).length : ℤ) + exponent - shortest.length =
      exponent + zeros := by
    rw [hzeros, List.length_append, List.length_replicate]
    omega
  have hsame : (Decimal.digitsValue shortest : ℚ) * gridStep (exponent + zeros) =
      digits * gridStep exponent := by
    rw [gridStep_add, hvalue]
    push_cast
    ring
  refine ⟨?_, ?_, ?_⟩
  · rintro rfl
    have hzero : digits = 0 := hvalue
    have hpos := pos_of_within h hwithin
    rw [hzero, Nat.cast_zero, zero_mul] at hpos
    exact lt_irrefl _ hpos
  · intro c hc
    refine Decimal.isDigit_of_mem_writeNat (n := digits) ?_
    rw [hzeros]
    exact List.mem_append_left _ hc
  · rw [hplaces, hsame]
    exact hwithin

end Binary64

end TableQuery
