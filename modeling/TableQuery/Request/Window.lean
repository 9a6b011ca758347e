import TableQuery.Failure
import TableQuery.Settings
import TableQuery.Text.Blank

/-!
# Windows

The part of a listing that is returned: skip `offset` rows, then take at most `limit`. A requested
limit may not exceed the configured maximum; without one the configured default applies, cut to
the maximum. The size of a page is reported in a header of a configured name.
-/

namespace TableQuery

/-- A window of a sequence; without a limit it has no end. -/
structure Window where
  limit : Option Nat := none
  offset : Nat := 0
  deriving DecidableEq

namespace Window

/-- The whole sequence. -/
def unbounded : Window := ⟨none, 0⟩

/-- The first element. -/
def first : Window := ⟨some 1, 0⟩

/-- Whether the window is empty whatever the sequence. -/
def isEmptyPage (w : Window) : Bool := w.limit = some 0

/-- The part of a sequence inside the window. -/
def apply {α : Type} (w : Window) (items : List α) : List α :=
  match w.limit with
  | none => items.drop w.offset
  | some limit => (items.drop w.offset).take limit

/-- Read the text of a window parameter: a natural number below `2 ^ 64`. -/
def readNatural (parameter raw : String) : Except Failure Nat :=
  match Decimal.readWord? (Text.trimBlanks raw.toList) with
  | some n => .ok n
  | none => .error (.plan (.notNatural parameter raw))

/-- The limit of a listing that asks for none. -/
def fallbackLimit (settings : Settings) : Option Nat :=
  match settings.defaultLimit, settings.maxLimit with
  | some default, some maximum => some (min default maximum)
  | some default, none => some default
  | none, maximum => maximum

/-- Read a requested limit, or fall back on the configured one. -/
def readLimit (settings : Settings) : Option String → Except Failure (Option Nat)
  | none => .ok (fallbackLimit settings)
  | some raw => do
    let limit ← readNatural "limit" raw
    match settings.maxLimit with
    | none => .ok (some limit)
    | some maximum =>
      if maximum < limit then .error (.plan (.limitExceeded maximum limit)) else .ok (some limit)

/-- Read a requested offset; it is 0 unless given. -/
def readOffset : Option String → Except Failure Nat
  | none => .ok 0
  | some raw => readNatural "offset" raw

/-- Read a requested window. -/
def read (settings : Settings) (limit offset : Option String) : Except Failure Window := do
  let limit ← readLimit settings limit
  let offset ← readOffset offset
  .ok ⟨limit, offset⟩

/-- A window never holds more than its limit, and no more than what follows its offset. -/
theorem length_apply {α : Type} (w : Window) (items : List α) :
    (w.apply items).length =
      match w.limit with
      | none => items.length - w.offset
      | some limit => min limit (items.length - w.offset) := by
  unfold apply
  cases w.limit <;> simp [List.length_take, List.length_drop]

/-- The window of changed items holds the changed items of the window. -/
theorem apply_map {α β : Type} (w : Window) (f : α → β) (items : List α) :
    w.apply (items.map f) = (w.apply items).map f := by
  unfold apply
  cases w.limit with
  | none => rw [List.map_drop]
  | some limit => rw [List.map_take, List.map_drop]

/-- What a window holds is among the items. -/
theorem mem_of_mem_apply {α : Type} {w : Window} {items : List α} {a : α} (h : a ∈ w.apply items) :
    a ∈ items := by
  unfold apply at h
  split at h
  · exact List.mem_of_mem_drop h
  · exact List.mem_of_mem_drop (List.mem_of_mem_take h)

/-- A window holds, from its first place on, what stands from its offset on, up to its limit. -/
theorem getElem?_apply {α : Type} (w : Window) (items : List α) (i : Nat) :
    (w.apply items)[i]? = if w.limit.all (i < ·) then items[w.offset + i]? else none := by
  unfold apply
  cases w.limit with
  | none => rw [Option.all_none, if_pos rfl, List.getElem?_drop]
  | some limit =>
    rw [Option.all_some, List.getElem?_take, List.getElem?_drop]
    simp only [decide_eq_true_eq]

end Window

namespace Header

/-- The characters of a header name besides letters and digits. -/
def tokenMarks : List Char :=
  ['!', '#', '$', '%', '&', '\x27', '*', '+', '-', '.', '^', '_', '\x60', '|', '~']

/-- Whether a character may stand in a header name. -/
def isTokenChar (c : Char) : Bool := c.isAlphanum || tokenMarks.contains c

/-- The greatest length of a header name. -/
def maxLength : Nat := 65535

/-- A header name in lower case, when it is one. -/
def name? (name : String) : Option String :=
  let chars := name.toList
  if chars ≠ [] ∧ chars.length ≤ maxLength ∧ chars.all isTokenChar then some (Text.foldCase name)
  else none

/-- The header that reports the size of a page. -/
def count (name : String) (returned : Nat) : Except Failure (String × String) :=
  match name? name with
  | some name => .ok (name, String.ofList (Decimal.writeNat returned))
  | none => .error (.internal .invalidHeader)

end Header

end TableQuery
