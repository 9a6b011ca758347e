import TableQuery.Text.Blank

/-!
# What trimming leaves

Skipping and trimming do nothing to a text without blanks at its ends. Of a text that ends in another
character trimming drops the blanks at the front only; a reader that takes its text up to such a
character therefore sees after trimming what it sees after skipping blanks.
-/

namespace TableQuery.Text

variable {s middle rest : List Char}

/-- A visible ASCII character is not a blank. -/
theorem isBlank_of_visible {c : Char} (h : 0x21 ≤ c.toNat ∧ c.toNat ≤ 0x7E) : isBlank c = false := by
  simp only [isBlank, blankRuns, List.any_cons, List.any_nil, Bool.or_false, Bool.or_eq_false_iff,
    Bool.and_eq_false_imp, decide_eq_true_eq, decide_eq_false_iff_not]
  omega

/-- A digit is not a blank. -/
theorem isBlank_of_isDigit {c : Char} (h : c.isDigit = true) : isBlank c = false := by
  rw [Char.isDigit_iff_toNat] at h
  change 48 ≤ c.toNat ∧ c.toNat ≤ 57 at h
  exact isBlank_of_visible (by omega)

/-- Nothing is skipped in front of a character that is not a blank. -/
theorem skipBlanks_cons {c : Char} {rest : List Char} (h : isBlank c = false) :
    skipBlanks (c :: rest) = c :: rest := by
  rw [skipBlanks, List.dropWhile_cons_of_neg (by simp [h])]

/-- Nothing is skipped in front of a text that does not begin with a blank. -/
theorem skipBlanks_eq_self (h : s.head?.any isBlank = false) : skipBlanks s = s := by
  cases s with
  | nil => rfl
  | cons c rest => exact skipBlanks_cons h

/-- What is left after skipping blanks is a part at the end of the text. -/
theorem skipBlanks_suffix (s : List Char) : skipBlanks s <:+ s := List.dropWhile_suffix isBlank

/-- Skipping blanks leaves none to skip. -/
theorem skipBlanks_skipBlanks (s : List Char) : skipBlanks (skipBlanks s) = skipBlanks s := by
  rcases skipBlanks_eq_nil_or s with h | ⟨c, rest, h, hblank⟩
  · rw [h]
    rfl
  · rw [h, skipBlanks_cons hblank]

/-- Nothing is trimmed from a text that neither begins nor ends with a blank. -/
theorem trimBlanks_eq_self (hhead : s.head?.any isBlank = false)
    (hlast : s.getLast?.any isBlank = false) : trimBlanks s = s := by
  have hreverse : s.reverse.head?.any isBlank = false := by rwa [List.head?_reverse]
  rw [trimBlanks, skipBlanks_eq_self hhead, skipBlanks_eq_self hreverse, List.reverse_reverse]

/-- Nothing is trimmed from a text that holds no blank. -/
theorem trimBlanks_of_forall (h : ∀ c ∈ s, isBlank c = false) : trimBlanks s = s :=
  trimBlanks_eq_self ((Option.any_eq_false ..).2 fun c hc => h c (List.mem_of_mem_head? hc))
    ((Option.any_eq_false ..).2 fun c hc => h c (List.mem_of_getLast? hc))

/-- Blanks at the front are skipped. -/
theorem skipBlanks_append {blanks : List Char} (h : ∀ c ∈ blanks, isBlank c = true)
    (rest : List Char) : skipBlanks (blanks ++ rest) = skipBlanks rest :=
  List.dropWhile_append_of_pos h

/-- Blanks around a text that has none at its ends are trimmed. -/
theorem trimBlanks_between {before after : List Char} (hbefore : ∀ c ∈ before, isBlank c = true)
    (hafter : ∀ c ∈ after, isBlank c = true) (hne : s ≠ []) (hhead : s.head?.any isBlank = false)
    (hlast : s.getLast?.any isBlank = false) : trimBlanks (before ++ s ++ after) = s := by
  have hfront : (s ++ after).head?.any isBlank = false := by
    obtain ⟨c, rest, rfl⟩ := List.exists_cons_of_ne_nil hne
    exact hhead
  have hback : s.reverse.head?.any isBlank = false := by rwa [List.head?_reverse]
  rw [trimBlanks, List.append_assoc, skipBlanks_append hbefore, skipBlanks_eq_self hfront,
    List.reverse_append, skipBlanks_append fun c hc => hafter c (List.mem_reverse.1 hc),
    skipBlanks_eq_self hback, List.reverse_reverse]

/-! ## Behind a character that is no blank -/

/-- A text ends in `rest`, which stands right behind a character that is no blank. -/
def Behind (s rest : List Char) : Prop :=
  ∃ front last, isBlank last = false ∧ s = front ++ last :: rest

/-- What stands behind a character of a text is a part at its end. -/
theorem Behind.suffix (h : Behind s rest) : rest <:+ s := by
  obtain ⟨front, last, _, rfl⟩ := h
  exact ⟨front ++ [last], by rw [List.append_assoc, List.singleton_append]⟩

/-- Further characters at the front make no difference. -/
theorem Behind.of_suffix (hsuffix : middle <:+ s) (h : Behind middle rest) : Behind s rest := by
  obtain ⟨before, rfl⟩ := hsuffix
  obtain ⟨front, last, hlast, rfl⟩ := h
  exact ⟨before ++ front, last, hlast, (List.append_assoc ..).symm⟩

/-- What stands behind a text without blanks, which is not empty. -/
theorem behind_append {shown : List Char} (hne : shown ≠ []) (h : ∀ c ∈ shown, isBlank c = false)
    (rest : List Char) : Behind (shown ++ rest) rest := by
  obtain ⟨front, last, rfl⟩ := (List.eq_nil_or_concat shown).resolve_left hne
  refine ⟨front, last, h last (by simp), ?_⟩
  rw [List.concat_eq_append, List.append_assoc, List.singleton_append]

/-- Of a text that does not end in a blank, trimming drops the blanks at the front. -/
theorem trimBlanks_of_behind (h : Behind s []) : trimBlanks s = skipBlanks s := by
  obtain ⟨front, last, hlast, hs⟩ := h
  have hend : (skipBlanks s).getLast?.any isBlank = false := by
    refine (Option.any_eq_false ..).2 fun c hc => ?_
    obtain ⟨blanks, hblanks⟩ := skipBlanks_suffix s
    have hc : s.getLast? = some c := by
      rw [← hblanks, List.getLast?_append, hc]
      rfl
    rw [hs, List.getLast?_concat, Option.some.injEq] at hc
    exact hc ▸ hlast
  have hreverse : (skipBlanks s).reverse.head?.any isBlank = false := by rwa [List.head?_reverse]
  rw [trimBlanks, skipBlanks_eq_self hreverse, List.reverse_reverse]

end TableQuery.Text
