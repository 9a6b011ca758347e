import TableQuery.Proofs.Query.Typing
import TableQuery.Sql.Evaluation

/-!
# Junctions of conditions

The expression of a condition joins those of its leaves. Nothing is negated above a leaf, so whether
the expression is true depends only on which leaves are: an unknown leaf counts as a false one.
-/

namespace TableQuery.Sql

variable {table : Table} {row : Row} {stored : StoredRow}

/-! ## Junctions -/

/-- A conjunction is true when both sides are. -/
theorem and?_eq_true_iff {a b : Option Bool} :
    and? a b = some true ↔ a = some true ∧ b = some true := by
  rcases a with _ | _ | _ <;> rcases b with _ | _ | _ <;> decide

/-- A disjunction is true when a side is. -/
theorem or?_eq_true_iff {a b : Option Bool} :
    or? a b = some true ↔ a = some true ∨ b = some true := by
  rcases a with _ | _ | _ <;> rcases b with _ | _ | _ <;> decide

namespace Condition

/-- Joined expressions are true when each of them is. -/
theorem eval_joinAll_and (expressions : List Expression) :
    (joinAll .and expressions).eval stored = some true ↔
      ∀ e ∈ expressions, e.eval stored = some true := by
  cases expressions with
  | nil => simp [joinAll, Expression.eval]
  | cons first rest =>
    rw [joinAll]
    induction rest generalizing first with
    | nil => simp
    | cons second rest ih =>
      rw [List.foldl_cons, ih]
      simp only [List.forall_mem_cons, Expression.eval, and?_eq_true_iff, and_assoc]

/-- Alternatives are true when one of them is. -/
theorem eval_joinAll_or (expressions : List Expression) :
    (joinAll .or expressions).eval stored = some true ↔
      ∃ e ∈ expressions, e.eval stored = some true := by
  cases expressions with
  | nil => simp [joinAll, Expression.eval]
  | cons first rest =>
    rw [joinAll]
    induction rest generalizing first with
    | nil => simp
    | cons second rest ih =>
      rw [List.foldl_cons, ih]
      simp only [List.mem_cons, exists_eq_or_imp, Expression.eval, or?_eq_true_iff, or_assoc]

/-- Replacing a group with its only member leaves the expression as it is. -/
theorem expression_unwrap (c : Condition) : c.unwrap.expression = c.expression := by
  unfold unwrap
  split
  next junction only => rfl
  next => rfl

/-- The expressions of the members of a group are those of the parts. -/
theorem expressions_ofParts (parts : List Predicate) :
    expressions (ofParts parts) = parts.map Expression.ofPredicate := by
  induction parts with
  | nil => rfl
  | cons part rest ih =>
    rw [ofParts, expressions, expression_unwrap, ih]
    rfl

end Condition

/-- The expression of a conjunction joins those of its parts. -/
theorem ofPredicate_and (parts : List Predicate) :
    Expression.ofPredicate (.and parts) =
      Condition.joinAll .and (parts.map Expression.ofPredicate) := by
  rw [← Condition.expressions_ofParts]
  rfl

/-- The expression of a disjunction joins those of its parts. -/
theorem ofPredicate_or (parts : List Predicate) :
    Expression.ofPredicate (.or parts) =
      Condition.joinAll .or (parts.map Expression.ofPredicate) := by
  rw [← Condition.expressions_ofParts]
  rfl

/-! ## Trees -/

/-- An expression is true of a stored row exactly when its condition holds of the row, if this is so
for each leaf. -/
theorem eval_of_leaves (p : Predicate)
    (h : ∀ name leaf, p.Leaf name leaf →
      ((Expression.ofPredicate leaf).eval stored = some true ↔ leaf.holds table row = true)) :
    (Expression.ofPredicate p).eval stored = some true ↔ p.holds table row = true := by
  match p with
  | .always => exact iff_of_true rfl rfl
  | .and parts =>
    have hparts : ∀ part ∈ parts, (Expression.ofPredicate part).eval stored = some true ↔
        part.holds table row = true :=
      fun part hpart => eval_of_leaves part fun name leaf hleaf => h name leaf (.and hpart hleaf)
    rw [ofPredicate_and, Condition.eval_joinAll_and, List.forall_mem_map, Predicate.holds,
      Predicate.holdsAll_eq_all, List.all_eq_true]
    exact forall₂_congr hparts
  | .or parts =>
    have hparts : ∀ part ∈ parts, (Expression.ofPredicate part).eval stored = some true ↔
        part.holds table row = true :=
      fun part hpart => eval_of_leaves part fun name leaf hleaf => h name leaf (.or hpart hleaf)
    rw [ofPredicate_or, Condition.eval_joinAll_or, Predicate.holds, Predicate.holdsAny_eq_any,
      List.any_eq_true]
    constructor
    · intro h
      obtain ⟨e, he, htrue⟩ := h
      obtain ⟨part, hpart, rfl⟩ := List.mem_map.1 he
      exact ⟨part, hpart, (hparts part hpart).1 htrue⟩
    · intro h
      obtain ⟨part, hpart, hholds⟩ := h
      exact ⟨_, List.mem_map_of_mem hpart, (hparts part hpart).2 hholds⟩
  | .compare name operator v => exact h name _ (.self (.compare name operator v))
  | .membership name values negated => exact h name _ (.self (.membership name values negated))
  | .text name mode wanted => exact h name _ (.self (.text name mode wanted))
termination_by p

end TableQuery.Sql
