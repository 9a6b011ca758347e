import TableQuery.Proofs.Decimal.Rounding
import TableQuery.Proofs.Value.Comparison

/-!
# Transitivity of comparing values

Values of any types, infinities and NaNs included, are compared as the mirrored way around, and coming
before is transitive. An integer is compared with a floating-point number after rounding, so two
different integers can both equal one such number: equality is transitive up to this case, and so is
coming before after being equal.
-/

namespace TableQuery

open Std

namespace Binary64

/-- Data are ordered by their signed magnitudes when neither is a NaN. -/
theorem compare?_eq_some_iff {x y : Binary64} {order : Ordering} :
    x.compare? y = some order ↔
      x.isNan = false ∧ y.isNan = false ∧ compare x.key y.key = order := by
  unfold compare?
  cases x.isNan <;> cases y.isNan <;> simp

end Binary64

namespace Value

variable {a b c : Value} {n m : Int64}

/-- A greater integer is rounded to no smaller number. -/
theorem key_rounded_mono (h : n.toInt ≤ m.toInt) : (rounded n).key ≤ (rounded m).key :=
  Binary64.key_ofInt_mono h

/-- An integer is rounded to a number. -/
theorem isNan_rounded (n : Int64) : (rounded n).isNan = false := Binary64.isNan_ofInt n.toInt

-- In the three proofs below, values that are compared are of one type or numbers of both types. In one
-- type the order is transitive; where an integer meets a floating-point number, the signed magnitudes
-- decide, and between two integers rounding keeps them in order.

/-- Coming before is transitive. -/
theorem compare?_lt_trans (hab : a.compare? b = some .lt) (hbc : b.compare? c = some .lt) :
    a.compare? c = some .lt := by
  cases a <;> cases b <;> first | contradiction | skip
  all_goals cases c <;> first | contradiction | skip
  all_goals simp only [compare?, Binary64.compare?_eq_some_iff, isNan_rounded, Option.some.injEq,
    Int.compare_eq_lt, true_and] at hab hbc ⊢
  all_goals first | exact TransCmp.lt_trans hab hbc | skip
  case integer.integer.float n m x =>
    have hmono : (rounded n).key ≤ (rounded m).key := key_rounded_mono (Int.le_of_lt hab)
    exact ⟨hbc.1, by omega⟩
  case integer.float.integer n x m =>
    refine Int.not_le.1 fun hle => ?_
    have hmono : (rounded m).key ≤ (rounded n).key := key_rounded_mono hle
    omega
  case float.integer.integer x n m =>
    have hmono : (rounded n).key ≤ (rounded m).key := key_rounded_mono (Int.le_of_lt hbc)
    exact ⟨hab.1, by omega⟩
  all_goals grind

/-- What is equal to something that comes before a third value comes before this too, unless it is the
floating-point number to which both others, being integers, are rounded. -/
theorem compare?_lt_of_eq_of_lt (hab : a.compare? b = some .eq) (hbc : b.compare? c = some .lt) :
    a.compare? c = some .lt ∨ ∃ x n m,
      a = float x ∧ b = integer n ∧ c = integer m ∧ a.compare? c = some .eq := by
  cases a <;> cases b <;> first | contradiction | skip
  all_goals cases c <;> first | contradiction | skip
  all_goals simp only [compare?, Binary64.compare?_eq_some_iff, isNan_rounded, Option.some.injEq,
    Int.compare_eq_lt, Int.compare_eq_eq, true_and, reduceCtorEq, false_and, exists_false, or_false,
    exists_and_left, float.injEq, integer.injEq, exists_eq_left'] at hab hbc ⊢
  all_goals first | exact TransCmp.lt_of_eq_of_lt hab hbc | skip
  case integer.integer.float n m x => exact Int64.toInt_inj.1 hab ▸ hbc
  case integer.float.integer n x m =>
    refine Int.not_le.1 fun hle => ?_
    have hmono : (rounded m).key ≤ (rounded n).key := key_rounded_mono hle
    omega
  case float.integer.integer x n m =>
    have hmono : (rounded n).key ≤ (rounded m).key := key_rounded_mono (Int.le_of_lt hbc)
    rcases Int.lt_or_eq_of_le hmono with hlt | heq
    · exact Or.inl ⟨hab.1, by omega⟩
    · exact Or.inr ⟨hab.1, by omega⟩
  all_goals grind

/-- Equality is transitive, unless two different integers are rounded to one floating-point number. -/
theorem compare?_eq_trans (hab : a.compare? b = some .eq) (hbc : b.compare? c = some .eq) :
    a.compare? c = some .eq ∨ ∃ n x m, a = integer n ∧ b = float x ∧ c = integer m ∧ n ≠ m := by
  cases a <;> cases b <;> first | contradiction | skip
  all_goals cases c <;> first | contradiction | skip
  all_goals simp only [compare?, Binary64.compare?_eq_some_iff, isNan_rounded, Option.some.injEq,
    Int.compare_eq_eq, true_and, reduceCtorEq, false_and, exists_false, or_false,
    exists_and_left, float.injEq, integer.injEq, exists_eq_left'] at hab hbc ⊢
  all_goals first | exact TransCmp.eq_trans hab hbc | skip
  case integer.integer.float n m x => exact Int64.toInt_inj.1 hab ▸ hbc
  case integer.float.integer n x m =>
    by_cases hsame : n = m
    · exact Or.inl (congrArg Int64.toInt hsame)
    · exact Or.inr hsame
  case float.integer.integer x n m => exact Int64.toInt_inj.1 hbc ▸ hab
  all_goals grind

/-- Values are equal when they compare as equal, and are compared as the mirrored way around. Coming
before is transitive. So is equality, exactly unless two different integers stand around one
floating-point number; and what equals something that comes before a third value comes before this too,
exactly unless it is a floating-point number that equals both of two integers. -/
theorem compare?_laws (a b c : Value) :
    (a.equals b = true ↔ a.compare? b = some .eq) ∧
    (b.compare? a = (a.compare? b).map Ordering.swap ∧ (b.compare? a = none ↔ a.compare? b = none)) ∧
    (a.equals b = true → b.equals c = true → (a.equals c = true ↔
      ¬ ∃ n x m, a = integer n ∧ b = float x ∧ c = integer m ∧ n ≠ m)) ∧
    (a.compare? b = some .lt → b.compare? c = some .lt → a.compare? c = some .lt) ∧
    (a.equals b = true → b.compare? c = some .lt → (a.compare? c = some .lt ↔
      ¬ ∃ x n m, a = float x ∧ b = integer n ∧ c = integer m ∧ a.equals c = true)) := by
  have hequals (v w : Value) : v.equals w = true ↔ v.compare? w = some .eq := decide_eq_true_iff
  have hswap := compare?_swap a b
  refine ⟨hequals a b, ⟨hswap, by rw [hswap, Option.map_eq_none_iff]⟩, fun hab hbc => ?_,
    compare?_lt_trans, fun hab hbc => ?_⟩
  · rw [hequals] at hab hbc ⊢
    constructor
    · rintro heq ⟨n, x, m, rfl, rfl, rfl, hne⟩
      rw [compare?, Option.some.injEq, Int.compare_eq_eq, Int64.toInt_inj] at heq
      exact hne heq
    · exact (compare?_eq_trans hab hbc).resolve_right
  · rw [hequals] at hab
    constructor
    · rintro hlt ⟨x, n, m, _, _, _, heq⟩
      rw [hequals, hlt] at heq
      contradiction
    · intro hnone
      refine (compare?_lt_of_eq_of_lt hab hbc).resolve_right ?_
      rintro ⟨x, n, m, ha, hb, hc, heq⟩
      exact hnone ⟨x, n, m, ha, hb, hc, (hequals a c).2 heq⟩

/-- Two is two as a number of either type, and lies between one and three. -/
theorem compare?_laws_two :
    let two : Value := float (.ofBits 0x4000000000000000)
    ((integer 2).equals two = true ∧ two.equals (integer 2) = true ∧
      (integer 2).equals (integer 2) = true) ∧
    ((integer 1).compare? two = some .lt ∧ two.compare? (integer 3) = some .lt ∧
      (integer 1).compare? (integer 3) = some .lt) ∧
    (two.equals (integer 2) = true ∧ (integer 2).compare? (integer 3) = some .lt ∧
      two.compare? (integer 3) = some .lt) := by
  intro two
  have hleft : (integer 2).equals two = true := by decide +kernel
  have hright : two.equals (integer 2) = true := by decide +kernel
  have hbefore : (integer 1).compare? two = some .lt := by decide +kernel
  have hafter : two.compare? (integer 3) = some .lt := by decide +kernel
  have hnext : (integer 2).compare? (integer 3) = some .lt := by decide +kernel
  obtain ⟨_, _, hsame, _, _⟩ := compare?_laws (integer 2) two (integer 2)
  obtain ⟨_, _, _, htrans, _⟩ := compare?_laws (integer 1) two (integer 3)
  obtain ⟨_, _, _, _, hmixed⟩ := compare?_laws two (integer 2) (integer 3)
  refine ⟨⟨hleft, hright, (hsame hleft hright).2 ?_⟩, ⟨hbefore, hafter, htrans hbefore hafter⟩,
    hright, hnext, (hmixed hright hnext).2 ?_⟩
  · rintro ⟨n, x, m, hn, _, hm, hne⟩
    exact hne (integer.inj (hn.symm.trans hm))
  · rintro ⟨x, n, m, _, _, _, heq⟩
    exact absurd heq (by decide +kernel)

/-- Two neighbouring integers above the last one that has all neighbours among the floating-point
numbers both equal one of these, and so equality and order do not pass through it. -/
theorem not_transitive_of_rounded :
    let even : Value := integer 9007199254740992
    let odd : Value := integer 9007199254740993
    let number : Value := float (.ofBits 0x4340000000000000)
    (even.equals number = true ∧ number.equals odd = true ∧ even.equals odd = false) ∧
      number.equals even = true ∧ even.compare? odd = some .lt ∧ number.compare? odd ≠ some .lt := by
  decide +kernel

end Value

end TableQuery
