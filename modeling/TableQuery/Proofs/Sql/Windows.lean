import TableQuery.Proofs.Request.Grammar
import TableQuery.Sql.Database

/-!
# Windows of statements

A window becomes a limit and an offset of a statement. An offset has a limit with it, and on a table
that databases can number both cut out the rows of the window. The numbers of a statement are those of
the request: a database takes them exactly when the limit that applies and the offset are no greater
than the greatest limit.
-/

namespace TableQuery

open Sql.Statement (greatestLimit)

/-- A text denotes at most one number. -/
theorem Decimal.Denotes.unique {raw : String} {n m : Nat} (hn : Denotes raw n) (hm : Denotes raw m) :
    n = m := by
  rw [← readWord?_eq_some_iff] at hn hm
  exact Option.some.inj (hn.symm.trans hm)

/-- What is bounded of the number that a text denotes is bounded of all that it denotes. -/
theorem Decimal.Denotes.forall_le_iff {raw : String} {n bound : Nat} (h : Denotes raw n) :
    (∀ m, Denotes raw m → m ≤ bound) ↔ n ≤ bound :=
  ⟨fun hall => hall n h, fun hle _ hm => h.unique hm ▸ hle⟩

namespace Window

variable {settings : Settings} {limit offset : Option String} {w : Window}

/-- A window whose numbers a statement can hold. -/
structure InRange (w : Window) : Prop where
  limit_le : ∀ limit ∈ w.limit, limit ≤ greatestLimit
  offset_le : w.offset ≤ greatestLimit

/-- Texts that ask for numbers which a statement can hold: those that they denote, and the configured
limit where none is given. -/
structure AsksInRange (settings : Settings) (limit offset : Option String) : Prop where
  limit_le : ∀ raw ∈ limit, ∀ n, Decimal.Denotes raw n → n ≤ greatestLimit
  fallback_le : limit = none → ∀ n ∈ fallbackLimit settings, n ≤ greatestLimit
  offset_le : ∀ raw ∈ offset, ∀ n, Decimal.Denotes raw n → n ≤ greatestLimit

/-- The limit that is read can be held exactly when the given one, or else the configured one, can. -/
theorem limit_le_iff_of_readLimit {found : Option Nat} (h : readLimit settings limit = .ok found) :
    (∀ n ∈ found, n ≤ greatestLimit) ↔
      (∀ raw ∈ limit, ∀ n, Decimal.Denotes raw n → n ≤ greatestLimit) ∧
        (limit = none → ∀ n ∈ fallbackLimit settings, n ≤ greatestLimit) := by
  rw [readLimit_eq_ok_iff, ← fallbackLimit_eq] at h
  rcases h with ⟨raw, n, rfl, hdenotes, _, rfl⟩ | ⟨rfl, rfl⟩
  · simp [hdenotes.forall_le_iff]
  · simp

/-- The offset that is read can be held exactly when the given one can. -/
theorem offset_le_iff_of_readOffset {found : Nat} (h : readOffset offset = .ok found) :
    found ≤ greatestLimit ↔ ∀ raw ∈ offset, ∀ n, Decimal.Denotes raw n → n ≤ greatestLimit := by
  rcases readOffset_eq_ok_iff.1 h with ⟨raw, rfl, hdenotes⟩ | ⟨rfl, rfl⟩
  · simp [hdenotes.forall_le_iff]
  · simp

/-- A statement can hold the numbers of a window that is read exactly when the texts ask for such. -/
theorem inRange_iff_of_read (h : read settings limit offset = .ok w) :
    w.InRange ↔ AsksInRange settings limit offset := by
  simp only [read, Failure.bind_eq_ok_iff, Except.ok.injEq] at h
  obtain ⟨foundLimit, hlimit, foundOffset, hoffset, rfl⟩ := h
  have hlimit := limit_le_iff_of_readLimit hlimit
  have hoffset := offset_le_iff_of_readOffset hoffset
  constructor
  · intro hrange
    obtain ⟨hgiven, hfallback⟩ := hlimit.1 hrange.limit_le
    exact ⟨hgiven, hfallback, hoffset.1 hrange.offset_le⟩
  · intro hasks
    exact ⟨hlimit.2 ⟨hasks.limit_le, hasks.fallback_le⟩, hoffset.2 hasks.offset_le⟩

end Window

namespace Sql.Statement

variable {table : Table} {query : SelectQuery}

/-- The window that a statement cuts. -/
def window (s : Statement) : Window := ⟨s.limit, s.offset.getD 0⟩

/-- Rows are cut to the window of the statement. -/
theorem cut_eq_apply (s : Statement) (sorted : List StoredRow) :
    s.cut sorted = s.window.apply sorted := by
  unfold cut Window.apply window
  cases s.limit <;> rfl

/-- A statement with numbers that databases take. -/
structure Bounded (s : Statement) : Prop where
  limit_le : ∀ limit ∈ s.limit, limit ≤ greatestLimit
  offset_le : ∀ offset ∈ s.offset, offset ≤ greatestLimit

/-- Leaving out the offset 0 is starting at 0. -/
theorem getD_offset? (w : Window) : (offset? w).getD 0 = w.offset := by
  unfold offset?
  split
  next => rfl
  next hzero => exact (Nat.eq_zero_of_not_pos hzero).symm

/-- The limit of a statement is that of its window, or the greatest one where there is an offset. -/
theorem mem_limit?_iff {w : Window} {n : Nat} : n ∈ limit? w ↔
    n ∈ w.limit ∨ w.limit = none ∧ 0 < w.offset ∧ n = greatestLimit := by
  unfold limit?
  cases w.limit with
  | some limit => simp
  | none => simp [eq_comm]

/-- A statement has an offset only together with a limit. -/
theorem isSome_limit_of_isSome_offset (h : (ofQuery table query).offset.isSome) :
    (ofQuery table query).limit.isSome := by
  have hpos : 0 < query.window.offset := by
    by_contra hzero
    simp [ofQuery, offset?, hzero] at h
  change (limit? query.window).isSome
  unfold limit?
  cases query.window.limit with
  | some limit => rfl
  | none => rw [if_pos hpos]; rfl

/-- The numbers of a statement are bounded exactly when those of its window are. -/
theorem bounded_ofQuery_iff : (ofQuery table query).Bounded ↔ query.window.InRange := by
  constructor
  · intro h
    refine ⟨fun limit hlimit => h.limit_le limit (mem_limit?_iff.2 (Or.inl hlimit)), ?_⟩
    rw [← getD_offset?]
    cases hoffset : offset? query.window with
    | none => exact Nat.zero_le _
    | some offset => exact h.offset_le offset hoffset
  · intro h
    constructor
    · intro limit hlimit
      rcases mem_limit?_iff.1 hlimit with hlimit | ⟨_, _, rfl⟩
      · exact h.limit_le limit hlimit
      · exact Nat.le_refl _
    · intro offset hoffset
      have hsame : offset = query.window.offset := by
        rw [← getD_offset?, show offset? query.window = some offset from hoffset, Option.getD_some]
      exact hsame ▸ h.offset_le

/-- On no more rows than the greatest limit, the window of a statement holds what the window of the
query does. -/
theorem apply_window_ofQuery {α : Type} {items : List α} (h : items.length ≤ greatestLimit) :
    (ofQuery table query).window.apply items = query.window.apply items := by
  unfold window ofQuery limit? Window.apply
  simp only [getD_offset?]
  cases query.window.limit with
  | some limit => rfl
  | none =>
    by_cases hpos : 0 < query.window.offset
    · simp only [if_pos hpos]
      refine List.take_of_length_le ?_
      rw [List.length_drop]
      omega
    · simp only [if_neg hpos]

/-- The statement for a window that is read has an offset only together with a limit, and cuts the rows
of the window out of every table of at most the greatest limit of rows. Its numbers are bounded exactly
when the texts and the configured limit ask for bounded ones. -/
theorem window_of_read {settings : Settings} {limit offset : Option String} {w : Window}
    (h : Window.read settings limit offset = .ok w) (table : Table) (p : Predicate)
    (order : List SortKey) :
    let s := ofQuery table ⟨p, order, w⟩
    (s.Bounded ↔ Window.AsksInRange settings limit offset) ∧
    (s.offset.isSome → s.limit.isSome) ∧
    (∀ sorted, s.cut sorted = s.window.apply sorted) ∧
    ∀ (α : Type) (items : List α), items.length ≤ greatestLimit →
      s.window.apply items = w.apply items := by
  intro s
  refine ⟨?_, isSome_limit_of_isSome_offset, s.cut_eq_apply, fun α items hitems => ?_⟩
  · rw [← Window.inRange_iff_of_read h]
    exact bounded_ofQuery_iff
  · exact apply_window_ofQuery hitems

/-- The greatest limit that can be asked for, from the third author on. -/
theorem window_of_read_third :
    let w : Window := ⟨some 9223372036854775807, 2⟩
    let s := ofQuery Registry.author ⟨.always, [⟨"id", .ascending⟩], w⟩
    Window.read {} (some " +9223372036854775807") (some "2") = .ok w ∧
      (s.Bounded ↔ Window.AsksInRange {} (some " +9223372036854775807") (some "2")) ∧
      (s.offset.isSome ∧ s.limit.isSome) ∧
      [10, 20, 30, 40].length ≤ greatestLimit ∧ s.window.apply [10, 20, 30, 40] = [30, 40] := by
  intro w s
  have hread : Window.read {} (some " +9223372036854775807") (some "2") = .ok w := by decide
  have hlength : [10, 20, 30, 40].length ≤ greatestLimit := by decide
  obtain ⟨hbounded, hlimit, _, hcut⟩ :=
    window_of_read hread Registry.author .always [⟨"id", .ascending⟩]
  exact ⟨hread, hbounded, ⟨rfl, hlimit rfl⟩, hlength, hcut Nat _ hlength⟩

/-- The least number above the greatest limit is read as a limit and as an offset, and stands in the
statement as it was given. -/
theorem not_bounded_of_read :
    (∃ w, Window.read {} (some "9223372036854775808") none = .ok w ∧
      ¬ (ofQuery Registry.author ⟨.always, [], w⟩).Bounded) ∧
    ∃ w, Window.read {} none (some "9223372036854775808") = .ok w ∧
      ¬ (ofQuery Registry.author ⟨.always, [], w⟩).Bounded := by
  have hgreater : ¬ 9223372036854775808 ≤ greatestLimit := by decide
  constructor
  · exact ⟨⟨some 9223372036854775808, 0⟩, by decide, fun h => hgreater (h.limit_le _ rfl)⟩
  · exact ⟨⟨none, 9223372036854775808⟩, by decide, fun h => hgreater (h.offset_le _ rfl)⟩

end Sql.Statement

end TableQuery
