/-!
# Cutting a text at a character

Cutting once, at the first or at the last occurrence, and the test for a contiguous part. Cutting
at every occurrence is `List.splitOn`.
-/

namespace TableQuery.Text

/-- The parts before and after the first `mark`, when there is one. -/
def cut (mark : Char) : List Char → Option (List Char × List Char)
  | [] => none
  | c :: rest =>
    if c = mark then some ([], rest) else (cut mark rest).map fun parts => (c :: parts.1, parts.2)

/-- The parts before and after the last `mark`, when there is one. -/
def cutLast (mark : Char) (s : List Char) : Option (List Char × List Char) :=
  (cut mark s.reverse).map fun parts => (parts.2.reverse, parts.1.reverse)

/-- Whether `needle` occurs in `s` as a contiguous part; the empty text occurs everywhere. -/
def occursIn (needle : List Char) : List Char → Bool
  | [] => needle.isEmpty
  | c :: rest => needle.isPrefixOf (c :: rest) || occursIn needle rest

/-- A cut gives back the text, and its first part holds no mark. -/
theorem eq_of_cut {mark : Char} {s before after : List Char}
    (h : cut mark s = some (before, after)) :
    s = before ++ mark :: after ∧ mark ∉ before := by
  induction s generalizing before with
  | nil => simp [cut] at h
  | cons c rest ih =>
    by_cases hc : c = mark
    · simp only [cut, hc, if_true, Option.some.injEq, Prod.mk.injEq] at h
      obtain ⟨rfl, rfl⟩ := h
      simp [hc]
    · simp only [cut, hc, if_false, Option.map_eq_some_iff, Prod.exists, Prod.mk.injEq] at h
      obtain ⟨before', after', hcut, rfl, rfl⟩ := h
      obtain ⟨rfl, hmem⟩ := ih hcut
      simpa [eq_comm, hmem] using hc

/-- There is no cut exactly when the mark does not occur. -/
theorem cut_eq_none_iff {mark : Char} {s : List Char} : cut mark s = none ↔ mark ∉ s := by
  induction s with
  | nil => simp [cut]
  | cons c rest ih =>
    by_cases hc : c = mark
    · simp [cut, hc]
    · simp [cut, hc, ih, Ne.symm hc]

end TableQuery.Text
