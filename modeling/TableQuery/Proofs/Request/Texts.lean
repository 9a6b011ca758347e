import Mathlib.Data.List.Forall2
import TableQuery.Request.Decode

/-!
# The texts of a request

What the single texts of a request may be: the literal of an operator, a whole number of 64 bits, an
entry of an order. Each reader accepts exactly the texts that are described here, and gives what they
stand for.
-/

namespace TableQuery

/-! ## Literals -/

/-- A search for a literal that finds the literal of everything finds nothing else. -/
theorem find?_literal_eq_some_iff {α : Type} {literal : α → String} {all : List α}
    (hall : ∀ a, (all.find? fun b => literal b = literal a) = some a) {text : String} {a : α} :
    (all.find? fun b => literal b = text) = some a ↔ literal a = text := by
  refine ⟨fun h => ?_, fun h => h ▸ hall a⟩
  simpa only [decide_eq_true_eq] using List.find?_some h

/-- A range operator is found by its literal only. -/
theorem RangeOperator.ofLiteral?_eq_some_iff {text : String} {op : RangeOperator} :
    ofLiteral? text = some op ↔ op.literal = text :=
  find?_literal_eq_some_iff ofLiteral?_literal

/-- A list operator is found by its literal only. -/
theorem ListOperator.ofLiteral?_eq_some_iff {text : String} {op : ListOperator} :
    ofLiteral? text = some op ↔ op.literal = text :=
  find?_literal_eq_some_iff ofLiteral?_literal

/-- A matching mode is found by its literal only. -/
theorem MatchMode.ofLiteral?_eq_some_iff {text : String} {mode : MatchMode} :
    ofLiteral? text = some mode ↔ mode.literal = text :=
  find?_literal_eq_some_iff ofLiteral?_literal

/-- A direction is found by its literal only. -/
theorem Direction.ofLiteral?_eq_some_iff {text : String} {d : Direction} :
    ofLiteral? text = some d ↔ d.literal = text :=
  find?_literal_eq_some_iff fun d => by cases d <;> decide

/-! ## Whole numbers -/

/-- A text denotes a number of 64 bits: digits, perhaps after a plus sign, between blanks. -/
def Decimal.Denotes (raw : String) (n : Nat) : Prop :=
  ∃ digits, (Text.trimBlanks raw.toList = digits ∨ Text.trimBlanks raw.toList = '+' :: digits) ∧
    digits ≠ [] ∧ (∀ c ∈ digits, c.isDigit = true) ∧ digitsValue digits = n ∧ n < wordBound

namespace Decimal

/-- A run of digits is read as its value. -/
theorem readDigits?_eq_some_iff {s : List Char} {n : Nat} :
    readDigits? s = some n ↔ s ≠ [] ∧ (∀ c ∈ s, c.isDigit = true) ∧ digitsValue s = n := by
  simp only [readDigits?, Option.ite_none_right_eq_some, Option.some.injEq, List.all_eq_true,
    and_assoc]

/-- A number may have a plus sign in front. -/
theorem readNat?_eq_some_iff {s : List Char} {n : Nat} :
    readNat? s = some n ↔ ∃ digits, (s = digits ∨ s = '+' :: digits) ∧ digits ≠ [] ∧
      (∀ c ∈ digits, c.isDigit = true) ∧ digitsValue digits = n := by
  unfold readNat?
  split
  next rest =>
    rw [readDigits?_eq_some_iff]
    constructor
    · intro h
      exact ⟨rest, Or.inr rfl, h⟩
    · intro h
      obtain ⟨digits, rfl | hrest, hne, hdigits, hvalue⟩ := h
      · exact absurd (hdigits '+' List.mem_cons_self) (by decide)
      · obtain rfl := (List.cons.inj hrest).2
        exact ⟨hne, hdigits, hvalue⟩
  next hsign =>
    rw [readDigits?_eq_some_iff]
    constructor
    · intro h
      exact ⟨s, Or.inl rfl, h⟩
    · intro h
      obtain ⟨digits, rfl | hplus, h⟩ := h
      · exact h
      · exact absurd hplus (hsign digits)

/-- A number of 64 bits is read from exactly the texts that denote one. -/
theorem readWord?_eq_some_iff {raw : String} {n : Nat} :
    readWord? (Text.trimBlanks raw.toList) = some n ↔ Denotes raw n := by
  simp only [readWord?, Option.filter_eq_some_iff, readNat?_eq_some_iff, decide_eq_true_eq, Denotes]
  constructor
  · intro h
    obtain ⟨⟨digits, hs, hne, hdigits, hvalue⟩, hn⟩ := h
    exact ⟨digits, hs, hne, hdigits, hvalue, hn⟩
  · intro h
    obtain ⟨digits, hs, hne, hdigits, hvalue, hn⟩ := h
    exact ⟨⟨digits, hs, hne, hdigits, hvalue⟩, hn⟩

end Decimal

/-- A window parameter is read as the number that it denotes. -/
theorem Window.readNatural_eq_ok_iff {parameter raw : String} {n : Nat} :
    readNatural parameter raw = .ok n ↔ Decimal.Denotes raw n := by
  rw [← Decimal.readWord?_eq_some_iff, readNatural]
  cases Decimal.readWord? (Text.trimBlanks raw.toList) <;> simp

/-! ## Entries of an order -/

namespace Text

variable {mark : Char} {s before after : List Char}

/-- A text is cut at its first mark. -/
theorem cut_eq_some_iff : cut mark s = some (before, after) ↔
    s = before ++ mark :: after ∧ mark ∉ before := by
  refine ⟨eq_of_cut, fun h => ?_⟩
  obtain ⟨rfl, hbefore⟩ := h
  induction before with
  | nil => simp [cut]
  | cons c rest ih =>
    rw [List.mem_cons, not_or] at hbefore
    rw [List.cons_append, cut, if_neg (Ne.symm hbefore.1), ih hbefore.2]
    rfl

/-- A text is cut at its last mark. -/
theorem cutLast_eq_some_iff : cutLast mark s = some (before, after) ↔
    s = before ++ mark :: after ∧ mark ∉ after := by
  have hreverse : s = before ++ mark :: after ↔
      s.reverse = after.reverse ++ mark :: before.reverse := by
    refine ⟨fun h => by simp [h], fun h => ?_⟩
    simpa using congrArg List.reverse h
  have hmem : mark ∉ after ↔ mark ∉ after.reverse := by rw [List.mem_reverse]
  rw [hreverse, hmem, ← cut_eq_some_iff, cutLast]
  cases cut mark s.reverse with
  | none => simp
  | some parts =>
    obtain ⟨first, second⟩ := parts
    simp only [Option.map_some, Option.some.injEq, Prod.mk.injEq, List.reverse_eq_iff]
    exact and_comm

/-- There is no last mark exactly when there is no mark. -/
theorem cutLast_eq_none_iff : cutLast mark s = none ↔ mark ∉ s := by
  rw [cutLast, Option.map_eq_none_iff, cut_eq_none_iff, List.mem_reverse]

end Text

namespace SortKey

/-- An entry stands for a key: the name of a column, which then is sorted by in ascending direction,
or a name, a colon and the literal of a direction. Blanks around the name are dropped, and the name
is not empty. -/
inductive Reads : String → SortKey → Prop
  | bare {entry : String} {name : List Char} (hentry : ':' ∉ entry.toList)
      (hname : Text.trimBlanks entry.toList = name) (hne : name ≠ []) :
      Reads entry ⟨String.ofList name, .ascending⟩
  | directed {entry : String} {column name : List Char} (d : Direction)
      (hentry : entry.toList = column ++ ':' :: d.literal.toList)
      (hname : Text.trimBlanks column = name) (hne : name ≠ []) :
      Reads entry ⟨String.ofList name, d⟩

variable {entry : String} {entries : List String} {key : SortKey} {keys : List SortKey}

/-- No direction has a colon in its literal. -/
theorem colon_notMem_literal (d : Direction) : ':' ∉ d.literal.toList := by
  cases d <;> decide

/-- An entry without a colon stands for an ascending key. -/
theorem reads_iff_of_notMem (h : ':' ∉ entry.toList) : Reads entry key ↔
    Text.trimBlanks entry.toList ≠ [] ∧
      ⟨String.ofList (Text.trimBlanks entry.toList), .ascending⟩ = key := by
  constructor
  · intro hreads
    cases hreads with
    | bare _ hname hne => exact ⟨hname ▸ hne, by rw [hname]⟩
    | directed d hentry => exact absurd (hentry ▸ by simp) h
  · intro ⟨hne, hkey⟩
    exact hkey ▸ .bare h rfl hne

/-- An entry with a colon stands for a key in the direction that is named after its last colon. -/
theorem reads_iff_of_cutLast {name literal : List Char}
    (h : Text.cutLast ':' entry.toList = some (name, literal)) : Reads entry key ↔
      ∃ d, Direction.ofLiteral? (String.ofList literal) = some d ∧ Text.trimBlanks name ≠ [] ∧
        ⟨String.ofList (Text.trimBlanks name), d⟩ = key := by
  obtain ⟨hentry, hcolon⟩ := Text.cutLast_eq_some_iff.1 h
  constructor
  · intro hreads
    cases hreads with
    | bare hnone => exact absurd (hentry ▸ by simp) hnone
    | directed d hother htrim hne =>
      have hsame := Text.cutLast_eq_some_iff.2 ⟨hother, colon_notMem_literal d⟩
      rw [h, Option.some.injEq, Prod.mk.injEq] at hsame
      obtain ⟨rfl, rfl⟩ := hsame
      refine ⟨d, ?_, htrim ▸ hne, by rw [htrim]⟩
      rw [String.ofList_toList, Direction.ofLiteral?_eq_some_iff]
  · intro ⟨d, hd, hne, hkey⟩
    have hliteral : d.literal.toList = literal := by
      rw [Direction.ofLiteral?_eq_some_iff.1 hd, String.toList_ofList]
    exact hkey ▸ .directed d (hliteral ▸ hentry) rfl hne

/-- An entry is read as the key that it stands for. -/
theorem read_eq_ok_iff : read entry = .ok key ↔ Reads entry key := by
  unfold read
  split
  next hnone =>
    rw [reads_iff_of_notMem (Text.cutLast_eq_none_iff.1 hnone)]
    cases hname : Text.trimBlanks entry.toList <;> simp [bind, Except.bind, hname]
  next name literal hsome =>
    rw [reads_iff_of_cutLast hsome]
    cases hd : Direction.ofLiteral? (String.ofList literal) with
    | none => simp [bind, Except.bind]
    | some d => cases hname : Text.trimBlanks name <;> simp [bind, Except.bind, hname]

/-- Entries are read as the keys that they stand for, if these sort by columns that are pairwise
distinct and have not been seen. -/
theorem readAfter_eq_ok_iff {seen : List String} : readAfter seen entries = .ok keys ↔
    List.Forall₂ Reads entries keys ∧ (keys.map column).Nodup ∧ ∀ key ∈ keys, key.column ∉ seen := by
  constructor
  · intro h
    refine ⟨?_, nodup_of_readAfter h⟩
    induction entries generalizing seen keys with
    | nil =>
      cases h
      exact .nil
    | cons entry rest ih =>
      obtain ⟨key, hkey, h⟩ := Failure.bind_eq_ok_iff.1 h
      split at h
      next => contradiction
      next =>
        obtain ⟨more, hmore, h⟩ := Failure.bind_eq_ok_iff.1 h
        cases h
        exact .cons (read_eq_ok_iff.1 hkey) (ih hmore)
  · intro h
    obtain ⟨hreads, hnodup, hfresh⟩ := h
    induction hreads generalizing seen with
    | nil => rfl
    | cons hread _ ih =>
      rw [List.map_cons, List.nodup_cons] at hnodup
      rw [List.forall_mem_cons] at hfresh
      refine Failure.bind_eq_ok_iff.2 ⟨_, read_eq_ok_iff.2 hread, ?_⟩
      rw [if_neg hfresh.1]
      refine Failure.bind_eq_ok_iff.2 ⟨_, ih hnodup.2 fun key hkey => ?_, rfl⟩
      rw [List.mem_cons, not_or]
      exact ⟨fun heq => hnodup.1 (heq ▸ List.mem_map_of_mem hkey), hfresh.2 key hkey⟩

/-- An order is read from entries that stand for keys of pairwise distinct columns. -/
theorem readAll_eq_ok_iff : readAll entries = .ok keys ↔
    List.Forall₂ Reads entries keys ∧ (keys.map column).Nodup := by
  simp only [readAll, readAfter_eq_ok_iff, List.not_mem_nil, not_false_eq_true, implies_true, and_true]

/-- The key that an entry stands for is among those that are read. -/
theorem mem_of_readAll (h : readAll entries = .ok keys) (hentry : entry ∈ entries)
    (hreads : Reads entry key) : key ∈ keys := by
  have hall := (readAll_eq_ok_iff.1 h).1
  clear h
  induction hall with
  | nil => contradiction
  | cons hfirst _ ih =>
    rcases List.mem_cons.1 hentry with rfl | hentry
    · rw [← read_eq_ok_iff] at hfirst hreads
      rw [Except.ok.inj (hreads.symm.trans hfirst)]
      exact List.mem_cons_self
    · exact List.mem_cons_of_mem _ (ih hentry)

end SortKey

end TableQuery
