import Mathlib.Algebra.Order.Field.Basic
import Mathlib.Data.Rat.Cast.Order
import Mathlib.Tactic.Linarith
import TableQuery.Decimal.Shortest
import TableQuery.Proofs.Decimal.Units

/-!
# Intervals of numbers that read back

The numbers that read back as a positive datum lie between the midpoints to its neighbours. The
interval of a datum ends where the next one begins, and of two neighbours only the even one includes
this end, so no number reads back as two data.
-/

namespace TableQuery.Binary64

/-- A number in quarter units lies in an interval. -/
def ReadBack.Within (r : ReadBack) (q : ℚ) : Prop :=
  (r.low < q ∨ r.closed = true ∧ q = r.low) ∧ (q < r.high ∨ r.closed = true ∧ q = r.high)

/-- What lies strictly between the ends lies in the interval. -/
theorem ReadBack.within_of_lt {r : ReadBack} {q : ℚ} (hlow : r.low < q) (hhigh : q < r.high) :
    r.Within q :=
  ⟨Or.inl hlow, Or.inl hhigh⟩

/-- What lies in the interval lies between its ends. -/
theorem ReadBack.Within.bounds {r : ReadBack} {q : ℚ} (h : r.Within q) : r.low ≤ q ∧ q ≤ r.high :=
  ⟨h.1.elim le_of_lt fun hend => hend.2.ge, h.2.elim le_of_lt fun hend => hend.2.le⟩

/-- A quotient that is contained is one in the interval. -/
theorem ReadBack.within_of_contains {r : ReadBack} {num den : ℕ} (hden : 0 < den)
    (h : r.contains num den = true) : r.Within (num / den) := by
  have hpos : (0 : ℚ) < den := Nat.cast_pos.2 hden
  unfold contains at h
  split at h
  next hclosed =>
    simp only [Bool.and_eq_true, decide_eq_true_eq] at h
    have hlow : (r.low : ℚ) ≤ num / den := (le_div_iff₀ hpos).2 (by exact_mod_cast h.1)
    have hhigh : (num : ℚ) / den ≤ r.high := (div_le_iff₀ hpos).2 (by exact_mod_cast h.2)
    exact ⟨hlow.lt_or_eq.imp_right fun heq => ⟨hclosed, heq.symm⟩,
      hhigh.lt_or_eq.imp_right fun heq => ⟨hclosed, heq⟩⟩
  next =>
    simp only [Bool.and_eq_true, decide_eq_true_eq] at h
    exact within_of_lt ((lt_div_iff₀ hpos).2 (by exact_mod_cast h.1))
      ((div_lt_iff₀ hpos).2 (by exact_mod_cast h.2))

/-- A quotient strictly between the ends is contained. -/
theorem ReadBack.contains_of_lt {r : ReadBack} {num den : ℕ} (hden : 0 < den)
    (hlow : (r.low : ℚ) < num / den) (hhigh : (num : ℚ) / den < r.high) :
    r.contains num den = true := by
  have hpos : (0 : ℚ) < den := Nat.cast_pos.2 hden
  have hbelow : r.low * den < num := by exact_mod_cast (lt_div_iff₀ hpos).1 hlow
  have habove : num < r.high * den := by exact_mod_cast (div_lt_iff₀ hpos).1 hhigh
  unfold contains
  split <;> simp only [Bool.and_eq_true, decide_eq_true_eq] <;> omega

variable {x y : Binary64} {m n : ℕ}

/-- The gap below a datum, twice in quarter units, is the step before it. -/
theorem gap_below (m : ℕ) :
    (if (m + 1) % fractionBound = 0 ∧ 1 < (m + 1) / fractionBound then stepOf (m + 1)
      else 2 * stepOf (m + 1)) = 2 * stepOf m := by
  unfold stepOf
  by_cases hzero : (m + 1) % fractionBound = 0
  · have hexponent : (m + 1) / fractionBound = m / fractionBound + 1 := by
      unfold fractionBound at hzero ⊢
      omega
    rw [hexponent]
    rcases Nat.eq_zero_or_pos (m / fractionBound) with hfirst | hlater
    · rw [hfirst, if_neg fun h => Nat.lt_irrefl 1 h.2]
    · rw [if_pos ⟨hzero, Nat.succ_lt_succ hlater⟩, Nat.add_sub_cancel, ← Nat.pow_succ',
        Nat.succ_eq_add_one, Nat.sub_add_cancel hlater]
  · have hexponent : (m + 1) / fractionBound = m / fractionBound := by
      unfold fractionBound at hzero ⊢
      omega
    rw [if_neg (fun h => hzero h.1), hexponent]

/-- The interval of a datum lies between the midpoints to its neighbours. -/
theorem readBack_eq (h : x.magnitude = m + 1) :
    x.readBack.low = 2 * (unitsOf m + unitsOf (m + 1)) ∧ x.readBack.middle = 4 * unitsOf (m + 1) ∧
      x.readBack.high = 2 * (unitsOf (m + 1) + unitsOf (m + 2)) ∧
      x.readBack.closed = decide ((m + 1) % 2 = 0) := by
  have hread : x.readBack = ⟨4 * unitsOf (m + 1) -
      (if (m + 1) % fractionBound = 0 ∧ 1 < (m + 1) / fractionBound then stepOf (m + 1)
        else 2 * stepOf (m + 1)),
      4 * unitsOf (m + 1), 4 * unitsOf (m + 1) + 2 * stepOf (m + 1), decide ((m + 1) % 2 = 0)⟩ := by
    rw [readBack, units_eq, h]
    rfl
  have hbelow := unitsOf_succ m
  have habove := unitsOf_succ (m + 1)
  rw [hread, gap_below]
  refine ⟨?_, rfl, ?_, rfl⟩
  · change 4 * unitsOf (m + 1) - 2 * stepOf m = _
    omega
  · change 4 * unitsOf (m + 1) + 2 * stepOf (m + 1) = 2 * (unitsOf (m + 1) + unitsOf (m + 1 + 1))
    omega

/-- Only positive numbers read back as a positive datum. -/
theorem pos_of_within (h : x.magnitude ≠ 0) {q : ℚ} (hq : x.readBack.Within q) : 0 < q := by
  obtain ⟨m, hm⟩ := Nat.exists_eq_succ_of_ne_zero h
  have hunits : unitsOf m < unitsOf (m + 1) := unitsOf_strictMono m.lt_succ_self
  have hlow : 0 < x.readBack.low := by
    rw [(readBack_eq hm).1]
    omega
  exact (Nat.cast_pos.2 hlow).trans_le hq.bounds.1

/-- No number reads back as two data. -/
theorem not_within_of_lt (hx : x.magnitude = m + 1) (hy : y.magnitude = n + 1) (h : m < n) {q : ℚ}
    (hqx : x.readBack.Within q) : ¬ y.readBack.Within q := by
  intro hqy
  obtain ⟨-, -, hhigh, hxclosed⟩ := readBack_eq hx
  obtain ⟨hlow, -, -, hyclosed⟩ := readBack_eq hy
  have hunits : unitsOf (m + 1) ≤ unitsOf n := unitsOf_strictMono.monotone h
  have hnext : unitsOf (m + 2) ≤ unitsOf (n + 1) := unitsOf_strictMono.monotone (by omega)
  have hends : (x.readBack.high : ℚ) ≤ y.readBack.low := by
    rw [hhigh, hlow]
    exact_mod_cast (by omega)
  -- The number can only be the common end of both intervals, which includes it in neither or one.
  have hxend : x.readBack.closed = true :=
    (hqx.2.resolve_left (not_lt.2 (hends.trans hqy.bounds.1))).1
  have hyend : y.readBack.closed = true :=
    (hqy.1.resolve_left (not_lt.2 (hqx.bounds.2.trans hends))).1
  have hsame : x.readBack.high = y.readBack.low := by
    have hge : (y.readBack.low : ℚ) ≤ x.readBack.high := hqy.bounds.1.trans hqx.bounds.2
    exact_mod_cast le_antisymm hends hge
  rw [hhigh, hlow] at hsame
  have hneighbours : m + 1 = n := unitsOf_strictMono.injective (by omega)
  rw [hxclosed, decide_eq_true_eq] at hxend
  rw [hyclosed, decide_eq_true_eq] at hyend
  omega

/-- Positive data that a number reads back as have the same magnitude. -/
theorem magnitude_eq_of_within (hx : x.magnitude ≠ 0) (hy : y.magnitude ≠ 0) {q : ℚ}
    (hqx : x.readBack.Within q) (hqy : y.readBack.Within q) : x.magnitude = y.magnitude := by
  obtain ⟨m, hm⟩ := Nat.exists_eq_succ_of_ne_zero hx
  obtain ⟨n, hn⟩ := Nat.exists_eq_succ_of_ne_zero hy
  rcases Nat.lt_trichotomy m n with hlt | rfl | hgt
  · exact absurd hqy (not_within_of_lt hm hn hlt hqx)
  · rw [hm, hn]
  · exact absurd hqx (not_within_of_lt hn hm hgt hqy)

end TableQuery.Binary64
