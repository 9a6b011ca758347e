import Mathlib.Data.List.Basic
import TableQuery.Proofs.Sql.Junctions
import TableQuery.Sql.Text

/-!
# Statements without their values

The text of a statement with placeholders depends on the shape of its predicate alone: on the tree with
its columns, operators, modes and numbers of values, and not on the values. Every part of a statement
that could show a value is blanked here, and blanking before a statement is written is blanking what is
written. The values of a predicate are bound, all of them and in order, and so are the limit and the
offset.
-/

namespace TableQuery

namespace Predicate

mutual

/-- A predicate with an empty text in place of each of its values. -/
def shape : Predicate → Predicate
  | always => always
  | and parts => and (shapes parts)
  | or parts => or (shapes parts)
  | compare column operator _ => compare column operator (.text "")
  | membership column values negated => membership column (values.map fun _ => .text "") negated
  | text column mode _ => text column mode ""

/-- The shapes of parts. -/
def shapes : List Predicate → List Predicate
  | [] => []
  | part :: rest => shape part :: shapes rest

end

mutual

/-- The values of a predicate, from left to right. -/
def values : Predicate → List Value
  | always => []
  | and parts => valuesOfAll parts
  | or parts => valuesOfAll parts
  | compare _ _ v => [v]
  | membership _ values _ => values
  | text _ _ wanted => [.text wanted]

/-- The values of parts. -/
def valuesOfAll : List Predicate → List Value
  | [] => []
  | part :: rest => values part ++ valuesOfAll rest

end

/-- Each part has its own shape. -/
theorem shapes_eq_map (parts : List Predicate) : shapes parts = parts.map shape := by
  induction parts with
  | nil => rfl
  | cons part rest ih => rw [shapes, ih, List.map_cons]

/-- Each part has its own values. -/
theorem valuesOfAll_eq_flatMap (parts : List Predicate) : valuesOfAll parts = parts.flatMap values := by
  induction parts with
  | nil => rfl
  | cons part rest ih => rw [valuesOfAll, ih, List.flatMap_cons]

/-- Whether a predicate is the one that always holds is seen from its shape. -/
theorem isAlways_shape (p : Predicate) : p.shape.isAlways = p.isAlways := by
  cases p <;> rfl

end Predicate

namespace Sql

variable {d : Dialect}

/-! ## Blanks -/

/-- A bound value without its content; the small numbers of the statement itself stay. -/
def Bound.blank : Bound → Bound
  | number n => number n
  | word _ => word 0
  | value _ => value (.text "")

/-- A piece without the value in its hole. -/
def Piece.blank : Piece → Piece
  | text s => text s
  | hole b => hole b.blank

/-- A term without its values. -/
def Term.blank : Term → Term
  | column name => column name
  | bound b => bound b.blank
  | lower t => lower t.blank
  | position within wanted => position within.blank wanted.blank

/-- An expression without its values. -/
def Expression.blank : Expression → Expression
  | constant truth => constant truth
  | compare op left right => compare op left.blank right.blank
  | isIn t values negated => isIn t.blank (values.map Bound.blank) negated
  | join junction left right => join junction left.blank right.blank

/-- A statement without its values. -/
def Statement.blank (s : Statement) : Statement :=
  { s with
    condition := s.condition.map Expression.blank
    limit := s.limit.map fun _ => 0
    offset := s.offset.map fun _ => 0 }

/-- The pieces of a blanked term are blanked pieces. -/
theorem Term.pieces_blank (t : Term) : t.blank.pieces d = (t.pieces d).map Piece.blank := by
  induction t with
  | column name => rfl
  | bound b => rfl
  | lower t ih => simp [blank, pieces, ih, Piece.blank]
  | position within wanted ihwithin ihwanted =>
    simp [blank, pieces, ihwithin, ihwanted, Piece.blank]

/-- Blanking goes through separated pieces. -/
theorem map_blank_separate (separator : String) (parts : List (List Piece)) :
    (separate separator parts).map Piece.blank =
      separate separator (parts.map (List.map Piece.blank)) := by
  induction parts with
  | nil => rfl
  | cons first rest ih =>
    cases rest with
    | nil => rfl
    | cons second rest =>
      rw [List.map_cons] at ih
      simp [separate, ih, Piece.blank]

namespace Expression

/-- Whether parentheses are needed does not depend on values. -/
theorem needsParentheses_blank (outer : Junction) (isLeft : Bool) (e : Expression) :
    needsParentheses outer isLeft e.blank = needsParentheses outer isLeft e := by
  cases e <;> rfl

/-- Blanking goes through parentheses. -/
theorem map_blank_enclose (needed : Bool) (written : List Piece) :
    (enclose needed written).map Piece.blank = enclose needed (written.map Piece.blank) := by
  cases needed with
  | false => rfl
  | true => simp [enclose, Piece.blank]

/-- The pieces of a blanked expression are blanked pieces. -/
theorem pieces_blank (e : Expression) : e.blank.pieces d = (e.pieces d).map Piece.blank := by
  induction e with
  | constant truth => rfl
  | compare op left right => simp [blank, pieces, Term.pieces_blank, Piece.blank]
  | isIn t values negated =>
    have hholes : (values.map Bound.blank).map (fun v => [Piece.hole v]) =
        (values.map fun v => [Piece.hole v]).map (List.map Piece.blank) := by
      simp [Piece.blank]
    simp only [blank, pieces, hholes, ← map_blank_separate, Term.pieces_blank]
    simp [Piece.blank]
  | join junction left right ihleft ihright =>
    simp only [blank, pieces, needsParentheses_blank, ihleft, ihright, ← map_blank_enclose]
    simp [Piece.blank]

end Expression

/-- The pieces of a blanked statement are blanked pieces. -/
theorem Statement.pieces_blank (s : Statement) : s.blank.pieces d = (s.pieces d).map Piece.blank := by
  have houtput (output : Output) : (outputPieces d output).map Piece.blank = outputPieces d output := by
    cases output with
    | count => rfl
    | columns names => simp [outputPieces, map_blank_separate, Function.comp_def, Piece.blank]
  have horder (keys : List SortKey) : (orderPieces d keys).map Piece.blank = orderPieces d keys := by
    cases keys with
    | nil => rfl
    | cons key keys => simp [orderPieces, map_blank_separate, Function.comp_def, Piece.blank]
  have hcondition : conditionPieces d (s.condition.map Expression.blank) =
      (conditionPieces d s.condition).map Piece.blank := by
    cases s.condition with
    | none => rfl
    | some e => simp [conditionPieces, Expression.pieces_blank, Piece.blank]
  have hword (word : String) (n : Option Nat) :
      wordPieces word (n.map fun _ => 0) = (wordPieces word n).map Piece.blank := by
    cases n <;> rfl
  simp [pieces, blank, houtput, horder, hcondition, hword, Piece.blank]

/-- Placeholders are the same for all values. -/
theorem placeholderTexts_map_blank (next : Nat) (written : List Piece) :
    placeholderTexts d next (written.map Piece.blank) = placeholderTexts d next written := by
  induction written generalizing next with
  | nil => rfl
  | cons piece rest ih => cases piece <;> simp [placeholderTexts, Piece.blank, ih]

/-- A statement has the text with placeholders that it has without its values. -/
theorem Statement.placeholderText_blank (s : Statement) :
    s.blank.placeholderText d = s.placeholderText d := by
  rw [placeholderText, placeholderText, pieces_blank, placeholderTexts_map_blank]

/-! ## Conditions of one shape -/

namespace Condition

/-- Joining blanked expressions is blanking the joined ones. -/
theorem joinAll_blank (junction : Junction) (expressions : List Expression) :
    joinAll junction (expressions.map Expression.blank) = (joinAll junction expressions).blank := by
  cases expressions with
  | nil => rfl
  | cons first rest =>
    simp only [List.map_cons, joinAll]
    induction rest generalizing first with
    | nil => rfl
    | cons second rest ih =>
      rw [List.map_cons, List.foldl_cons, List.foldl_cons, ← ih]
      rfl

/-- The condition of a membership is blanked by blanking its values. -/
theorem ofMembership_blank (column : String) (values : List Value) (negated : Bool) :
    ofMembership column (values.map fun _ => .text "") negated =
      (ofMembership column values negated).blank := by
  match values with
  | [] => rfl
  | [_] => rfl
  | _ :: _ :: _ =>
    simp only [ofMembership, Expression.blank, Term.blank, List.map_cons, List.map_map]
    rfl

/-- The condition of a text match is blanked by blanking the text. -/
theorem ofText_blank (column : String) (mode : MatchMode) (wanted : String) :
    ofText column mode "" = (ofText column mode wanted).blank := by
  cases mode <;> rfl

end Condition

/-- The expression of the shape of a predicate is that of the predicate without its values. -/
theorem ofPredicate_shape (p : Predicate) :
    Expression.ofPredicate p.shape = (Expression.ofPredicate p).blank := by
  match p with
  | .always => rfl
  | .and parts =>
    have hparts : ∀ part ∈ parts, Expression.ofPredicate part.shape =
        (Expression.ofPredicate part).blank := fun part _ => ofPredicate_shape part
    rw [Predicate.shape, Predicate.shapes_eq_map, ofPredicate_and, ofPredicate_and,
      ← Condition.joinAll_blank, List.map_map, List.map_map]
    exact congrArg _ (List.map_congr_left hparts)
  | .or parts =>
    have hparts : ∀ part ∈ parts, Expression.ofPredicate part.shape =
        (Expression.ofPredicate part).blank := fun part _ => ofPredicate_shape part
    rw [Predicate.shape, Predicate.shapes_eq_map, ofPredicate_or, ofPredicate_or,
      ← Condition.joinAll_blank, List.map_map, List.map_map]
    exact congrArg _ (List.map_congr_left hparts)
  | .compare column operator v => rfl
  | .membership column values negated => exact Condition.ofMembership_blank column values negated
  | .text column mode wanted => exact Condition.ofText_blank column mode wanted
termination_by p

namespace Statement

/-- Predicates of one shape have conditions that differ in values only. -/
theorem blank_condition?_of_shape_eq {p q : Predicate} (h : p.shape = q.shape) :
    (condition? p).map Expression.blank = (condition? q).map Expression.blank := by
  have hblank (p : Predicate) : (condition? p).map Expression.blank = condition? p.shape := by
    unfold condition?
    rw [Predicate.isAlways_shape, ofPredicate_shape]
    split <;> rfl
  rw [hblank, hblank, h]

/-- Windows that agree on whether they have a limit and an offset lead to limits, and to offsets, that
differ in their numbers only. -/
theorem blank_window_eq {v w : Window} (hlimit : v.limit.isSome = w.limit.isSome)
    (hoffset : v.offset = 0 ↔ w.offset = 0) :
    ((limit? v).map fun _ => 0) = ((limit? w).map fun _ => 0) ∧
      ((offset? v).map fun _ => 0) = ((offset? w).map fun _ => 0) := by
  have hpos : 0 < v.offset ↔ 0 < w.offset := by omega
  constructor
  · unfold limit?
    cases hv : v.limit with
    | none =>
      have hw : w.limit = none := by simpa [hv] using hlimit.symm
      simp only [hw, hpos]
    | some n =>
      obtain ⟨m, hw⟩ : ∃ m, w.limit = some m := by simpa [hv, Option.isSome_iff_exists] using hlimit.symm
      rw [hw]
      rfl
  · simp only [offset?, hpos]
    split <;> rfl

end Statement

/-! ## Bound values -/

/-- Whether a bound value comes from the request, and not from the statement itself. -/
def Bound.isGiven : Bound → Bool
  | number _ => false
  | word _ | value _ => true

/-- The bound values of a term. -/
def Term.bounds : Term → List Bound
  | column _ => []
  | bound b => [b]
  | lower t => t.bounds
  | position within wanted => within.bounds ++ wanted.bounds

/-- The bound values of an expression. -/
def Expression.bounds : Expression → List Bound
  | constant _ => []
  | compare _ left right => left.bounds ++ right.bounds
  | isIn t values _ => t.bounds ++ values
  | join _ left right => left.bounds ++ right.bounds

/-- The values bound by pieces one after the other. -/
theorem boundValues_append (first second : List Piece) :
    boundValues (first ++ second) = boundValues first ++ boundValues second := by
  induction first with
  | nil => rfl
  | cons piece rest ih => cases piece <;> simp [boundValues, ih]

/-- Separators bind nothing. -/
theorem boundValues_separate (separator : String) (parts : List (List Piece)) :
    boundValues (separate separator parts) = parts.flatMap boundValues := by
  induction parts with
  | nil => rfl
  | cons first rest ih =>
    cases rest with
    | nil => simp [separate]
    | cons second rest =>
      have hsplit : separate separator (first :: second :: rest) =
          first ++ .text separator :: separate separator (second :: rest) := rfl
      rw [hsplit, boundValues_append, boundValues, ih]
      rfl

/-- A written term binds its values. -/
theorem Term.boundValues_pieces (t : Term) : boundValues (t.pieces d) = t.bounds := by
  induction t with
  | column name => rfl
  | bound b => rfl
  | lower t ih => simp [pieces, boundValues, boundValues_append, ih, bounds]
  | position within wanted ihwithin ihwanted =>
    simp [pieces, boundValues, boundValues_append, ihwithin, ihwanted, bounds]

namespace Expression

/-- Parentheses bind nothing. -/
theorem boundValues_enclose (needed : Bool) (written : List Piece) :
    boundValues (enclose needed written) = boundValues written := by
  cases needed with
  | false => rfl
  | true => simp [enclose, boundValues, boundValues_append]

/-- A written expression binds its values. -/
theorem boundValues_pieces (e : Expression) : boundValues (e.pieces d) = e.bounds := by
  induction e with
  | constant truth => rfl
  | compare op left right =>
    simp [pieces, boundValues, boundValues_append, Term.boundValues_pieces, bounds]
  | isIn t values negated =>
    have hholes : (values.map fun v => [Piece.hole v]).flatMap boundValues = values := by
      simp [List.flatMap_map, boundValues]
    simp [pieces, boundValues, boundValues_append, boundValues_separate, hholes,
      Term.boundValues_pieces, bounds]
  | join junction left right ihleft ihright =>
    simp [pieces, boundValues, boundValues_append, boundValues_enclose, ihleft, ihright, bounds]

end Expression

/-- A written statement binds the values of its condition, then its limit, then its offset. -/
theorem Statement.boundValues_pieces (s : Statement) :
    boundValues (s.pieces d) = s.condition.toList.flatMap Expression.bounds ++
      s.limit.toList.map .word ++ s.offset.toList.map .word := by
  have houtput (output : Output) : boundValues (outputPieces d output) = [] := by
    cases output with
    | count => rfl
    | columns names => simp [outputPieces, boundValues_separate, List.flatMap_map, boundValues]
  have horder (keys : List SortKey) : boundValues (orderPieces d keys) = [] := by
    cases keys with
    | nil => rfl
    | cons key keys => simp [orderPieces, boundValues, boundValues_separate, List.flatMap_map]
  have hcondition : boundValues (conditionPieces d s.condition) =
      s.condition.toList.flatMap Expression.bounds := by
    cases s.condition with
    | none => rfl
    | some e => simp [conditionPieces, boundValues, Expression.boundValues_pieces]
  have hword (word : String) (n : Option Nat) :
      boundValues (wordPieces word n) = n.toList.map .word := by
    cases n <;> rfl
  simp [pieces, boundValues, boundValues_append, houtput, horder, hcondition, hword]

/-- Joined expressions bind their values in order. -/
theorem Condition.bounds_joinAll (junction : Junction) (expressions : List Expression) :
    (joinAll junction expressions).bounds = expressions.flatMap Expression.bounds := by
  cases expressions with
  | nil => rfl
  | cons first rest =>
    simp only [joinAll]
    induction rest generalizing first with
    | nil => simp
    | cons second rest ih =>
      rw [List.foldl_cons, ih]
      simp [Expression.bounds]

/-- The condition of a membership binds the values that it lists. -/
theorem Condition.filter_bounds_ofMembership (column : String) (values : List Value)
    (negated : Bool) :
    (ofMembership column values negated).bounds.filter Bound.isGiven = values.map .value := by
  match values with
  | [] => rfl
  | [_] => rfl
  | _ :: _ :: _ => simp [ofMembership, Expression.bounds, Term.bounds, Bound.isGiven]

/-- The expression of a predicate binds its values in order. -/
theorem filter_bounds_ofPredicate (p : Predicate) :
    (Expression.ofPredicate p).bounds.filter Bound.isGiven = p.values.map .value := by
  match p with
  | .always => rfl
  | .and parts =>
    have hparts : ∀ part ∈ parts, (Expression.ofPredicate part).bounds.filter Bound.isGiven =
        part.values.map .value := fun part _ => filter_bounds_ofPredicate part
    rw [ofPredicate_and, Condition.bounds_joinAll, List.flatMap_map, List.filter_flatMap,
      Predicate.values, Predicate.valuesOfAll_eq_flatMap, List.map_flatMap]
    exact List.flatMap_congr hparts
  | .or parts =>
    have hparts : ∀ part ∈ parts, (Expression.ofPredicate part).bounds.filter Bound.isGiven =
        part.values.map .value := fun part _ => filter_bounds_ofPredicate part
    rw [ofPredicate_or, Condition.bounds_joinAll, List.flatMap_map, List.filter_flatMap,
      Predicate.values, Predicate.valuesOfAll_eq_flatMap, List.map_flatMap]
    exact List.flatMap_congr hparts
  | .compare column operator v => rfl
  | .membership column values negated =>
    exact Condition.filter_bounds_ofMembership column values negated
  | .text column mode wanted => cases mode <;> rfl
termination_by p

namespace Statement

/-- The condition of a statement binds the values of its predicate. -/
theorem filter_bounds_condition? (p : Predicate) :
    ((condition? p).toList.flatMap Expression.bounds).filter Bound.isGiven = p.values.map .value := by
  unfold condition?
  split
  next halways =>
    cases p with
    | always => rfl
    | _ => contradiction
  next => simpa using filter_bounds_ofPredicate p

/-- Predicates of one shape, inside windows that agree on whether they have a limit and an offset, have
the same texts with placeholders in every dialect. What the request gives is bound: the values of the
predicate in order, then the limit, then the offset. -/
theorem placeholderText_eq_of_shape_eq (d : Dialect) (table : Table) (order : List SortKey)
    {p q : Predicate} {v w : Window} (hshape : p.shape = q.shape)
    (hlimit : v.limit.isSome = w.limit.isSome) (hoffset : v.offset = 0 ↔ w.offset = 0) :
    (ofQuery table ⟨p, order, v⟩).placeholderText d =
        (ofQuery table ⟨q, order, w⟩).placeholderText d ∧
      (ofCount table p).placeholderText d = (ofCount table q).placeholderText d ∧
      (boundValues ((ofQuery table ⟨p, order, v⟩).pieces d)).filter Bound.isGiven =
        p.values.map .value ++ (limit? v).toList.map .word ++ (offset? v).toList.map .word ∧
      (boundValues ((ofCount table p).pieces d)).filter Bound.isGiven = p.values.map .value := by
  have hcondition := blank_condition?_of_shape_eq hshape
  obtain ⟨hlimits, hoffsets⟩ := blank_window_eq hlimit hoffset
  have hwords (n : Option Nat) :
      (n.toList.map Bound.word).filter Bound.isGiven = n.toList.map .word := by
    cases n <;> rfl
  refine ⟨?_, ?_, ?_, ?_⟩
  · rw [← placeholderText_blank, ← placeholderText_blank (ofQuery table ⟨q, order, w⟩)]
    simp only [blank, ofQuery, hcondition, hlimits, hoffsets]
  · rw [← placeholderText_blank, ← placeholderText_blank (ofCount table q)]
    simp only [blank, ofCount, hcondition]
  · rw [boundValues_pieces, List.filter_append, List.filter_append]
    simp only [ofQuery, filter_bounds_condition?, hwords]
  · rw [boundValues_pieces, List.filter_append, List.filter_append]
    simp only [ofCount, filter_bounds_condition?, hwords]
    simp

/-- Authors found by a harmless name, and by one that would end its string and open a comment: the text
is the same, and the dangerous name is among the bound values. -/
theorem placeholderText_hostile :
    let named (name : String) (first second : Int64) (born : Date) : Predicate :=
      .and [.or [.text "name" .contains name, .text "name" .folded name],
        .membership "id" [.integer first, .integer second] true, .compare "born" .less (.date born)]
    let harmless := named "ada" 1 2 ⟨1900, 1, 1, by decide⟩
    let hostile := named "x\x27 OR 1 = 1 --" 0 (-1) ⟨-5, 2, 28, by decide⟩
    let order : List SortKey := [⟨"name", .descending⟩]
    (ofQuery Registry.author ⟨harmless, order, ⟨some 5, 3⟩⟩).placeholderText .postgres =
        (ofQuery Registry.author ⟨hostile, order, ⟨some 0, 70⟩⟩).placeholderText .postgres ∧
      Bound.value (.text "x\x27 OR 1 = 1 --") ∈
        boundValues ((ofQuery Registry.author ⟨hostile, order, ⟨some 0, 70⟩⟩).pieces .postgres) := by
  intro named harmless hostile order
  have hsame := placeholderText_eq_of_shape_eq .postgres Registry.author order
    (p := hostile) (q := harmless) (v := ⟨some 0, 70⟩) (w := ⟨some 5, 3⟩) rfl rfl (by decide)
  obtain ⟨htext, _, hvalues, _⟩ := hsame
  refine ⟨htext.symm, List.mem_of_mem_filter (p := Bound.isGiven) ?_⟩
  rw [hvalues]
  decide

end Statement

end Sql

end TableQuery
