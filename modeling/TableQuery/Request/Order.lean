import TableQuery.Failure
import TableQuery.Schema.Table
import TableQuery.Text.Blank
import TableQuery.Text.Split

/-!
# Sort keys

An entry of a requested order is a column, alone or with `:ASC` or `:DESC` after it. A request sorts
by a column at most once. Resolving an order checks its columns and adds the columns of the primary
key as a tiebreak, unless there is nothing to break.
-/

namespace TableQuery

/-- The direction of a sort key. -/
inductive Direction where
  | ascending
  | descending
  deriving DecidableEq

namespace Direction

/-- The literal of a direction. -/
def literal : Direction → String
  | ascending => "ASC"
  | descending => "DESC"

/-- The direction with a given literal; the case matters. -/
def ofLiteral? (literal : String) : Option Direction :=
  [ascending, descending].find? fun d => d.literal = literal

/-- An order of two values read in a direction. -/
def apply : Direction → Ordering → Ordering
  | ascending, order => order
  | descending, order => order.swap

end Direction

/-- A column to sort by. -/
structure SortKey where
  column : String
  direction : Direction := .ascending
  deriving DecidableEq

namespace SortKey

/-- Read one entry. The last colon ends the column; blanks around the column are dropped. -/
def read (entry : String) : Except Failure SortKey := do
  let (column, direction) ←
    match Text.cutLast ':' entry.toList with
    | none => .ok (entry.toList, .ascending)
    | some (column, literal) =>
      match Direction.ofLiteral? (String.ofList literal) with
      | some direction => .ok (column, direction)
      | none => .error (.plan (.sortDirection (String.ofList literal) entry))
  match Text.trimBlanks column with
  | [] => .error (.plan (.sortColumnMissing entry))
  | column => .ok ⟨String.ofList column, direction⟩

/-- Read entries after keys of the columns in `seen`; no column occurs twice. -/
def readAfter (seen : List String) : List String → Except Failure (List SortKey)
  | [] => .ok []
  | entry :: rest => do
    let key ← read entry
    if key.column ∈ seen then .error (.plan (.sortColumnRepeated key.column))
    else
      let keys ← readAfter (key.column :: seen) rest
      .ok (key :: keys)

/-- Read all entries of a requested order. -/
def readAll (entries : List String) : Except Failure (List SortKey) := readAfter [] entries

/-- Add an ascending key for each column that is not sorted by yet. -/
def extend (keys : List SortKey) (columns : List String) : List SortKey :=
  columns.foldl (fun keys column =>
    if column ∈ keys.map SortKey.column then keys else keys ++ [⟨column, .ascending⟩]) keys

/-- Check the columns of an order, and complete it by the primary key when it has any key. -/
def resolve (table : Table) (keys : List SortKey) : Except Failure (List SortKey) :=
  match keys.find? fun key => (table.column? key.column).isNone with
  | some key => .error (.plan (.sortColumnUnknown key.column table.name))
  | none => .ok (if keys = [] then [] else extend keys table.primaryKey)

/-- Read keys sort by pairwise distinct columns, none of them in `seen`. -/
theorem nodup_of_readAfter {seen entries : List String} {keys : List SortKey}
    (h : readAfter seen entries = .ok keys) :
    (keys.map SortKey.column).Nodup ∧ ∀ key ∈ keys, key.column ∉ seen := by
  induction entries generalizing seen keys with
  | nil =>
    simp only [readAfter, Except.ok.injEq] at h
    simp [← h]
  | cons entry rest ih =>
    simp only [readAfter, bind, Except.bind] at h
    split at h
    · simp at h
    next key _ =>
      split at h
      · simp at h
      next hseen =>
        split at h
        · simp at h
        next more hmore =>
          simp only [Except.ok.injEq] at h
          obtain ⟨hnodup, hfresh⟩ := ih hmore
          subst h
          refine ⟨?_, ?_⟩
          · simp only [List.map_cons, List.nodup_cons, List.mem_map, not_exists, not_and]
            exact ⟨fun k hk heq => hfresh k hk (by simp [heq]), hnodup⟩
          · intro k hk
            rcases List.mem_cons.1 hk with rfl | hk
            · exact hseen
            · exact fun hmem => hfresh k hk (List.mem_cons_of_mem _ hmem)

end SortKey

end TableQuery
