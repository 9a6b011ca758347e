import TableQuery.Json.Reader
import TableQuery.Json.Writer

/-!
# Quoted strings read back

Every character of a string is written as a piece from which the reader takes exactly this character,
so a quoted string is read back whole, and different strings have different texts.
-/

namespace TableQuery.Json

/-- Two hexadecimal digits after two zeros denote the number that they write. -/
theorem unit?_digitChar {n : Nat} (h : n < 0x20) :
    unit? '0' '0' (Nat.digitChar (n / 16)) (Nat.digitChar (n % 16)) = some n := by
  have hzero : Text.hexDigit? '0' = some 0 := by decide
  have hhigh := Text.hexDigit?_hexChar ⟨n / 16, by omega⟩
  have hlow := Text.hexDigit?_hexChar ⟨n % 16, by omega⟩
  unfold Text.hexChar at hhigh hlow
  simp only [unit?, hzero, hhigh, hlow, Option.bind_eq_bind, Option.bind_some, Option.pure_def,
    Option.some.injEq]
  change ((0 * 16 + 0) * 16 + n / 16) * 16 + n % 16 = n
  omega

/-- A backslash and a letter are read as the character that they stand for. -/
theorem readString?_letter {letter c : Char} (hletter : letter ≠ 'u')
    (h : unescape? letter = some c) (rest : List Char) :
    readString? ('\\' :: letter :: rest) = (readString? rest).map fun p => (c :: p.1, p.2) := by
  rw [readString?, h]
  · cases readString? rest <;> rfl
  · exact fun _ _ _ _ _ hu _ => hletter hu

/-- A control character in hexadecimal form is read as this character. -/
theorem readString?_control {c : Char} (h : c.toNat < 0x20) (rest : List Char) :
    readString? ('\\' :: 'u' :: '0' :: '0' :: Nat.digitChar (c.toNat / 16) ::
        Nat.digitChar (c.toNat % 16) :: rest) =
      (readString? rest).map fun p => (c :: p.1, p.2) := by
  have hhigh : ¬ (0xD800 ≤ c.toNat ∧ c.toNat < 0xDC00) := by omega
  have hlow : ¬ (0xDC00 ≤ c.toNat ∧ c.toNat < 0xE000) := by omega
  rw [readString?, unit?_digitChar h]
  simp only [Option.bind_eq_bind, Option.bind_some, hhigh, hlow, if_false, Char.ofNat_toNat]
  cases readString? rest <;> rfl

/-- A character that needs no escape is read as it stands. -/
theorem readString?_plain {c : Char} (hquote : c ≠ '"') (hslash : c ≠ '\\') (h : ¬ c.toNat < 0x20)
    (rest : List Char) :
    readString? (c :: rest) = (readString? rest).map fun p => (c :: p.1, p.2) := by
  have hplain : ¬ (c.toNat < 0x20 ∨ c = '\\') := not_or.2 ⟨h, hslash⟩
  rw [readString?, if_neg hplain]
  · cases readString? rest <;> rfl
  · exact hquote
  · exact fun _ _ _ _ _ hu _ => hslash hu
  · exact fun _ _ hu _ => hslash hu

/-- What is written for a character is read as this character. -/
theorem readString?_escape (c : Char) (rest : List Char) :
    readString? (escape c ++ rest) = (readString? rest).map fun p => (c :: p.1, p.2) := by
  by_cases hquote : c = '"'
  · subst hquote
    exact readString?_letter (by decide) (by decide) rest
  by_cases hslash : c = '\\'
  · subst hslash
    exact readString?_letter (by decide) (by decide) rest
  by_cases hbackspace : c = Char.ofNat 0x08
  · subst hbackspace
    exact readString?_letter (by decide) (by decide) rest
  by_cases hfeed : c = Char.ofNat 0x0C
  · subst hfeed
    exact readString?_letter (by decide) (by decide) rest
  by_cases hline : c = '\n'
  · subst hline
    exact readString?_letter (by decide) (by decide) rest
  by_cases hreturn : c = '\r'
  · subst hreturn
    exact readString?_letter (by decide) (by decide) rest
  by_cases htab : c = '\t'
  · subst htab
    exact readString?_letter (by decide) (by decide) rest
  simp only [escape, hquote, hslash, hbackspace, hfeed, hline, hreturn, htab, if_false]
  by_cases h : c.toNat < 0x20
  · rw [if_pos h]
    exact readString?_control h rest
  · rw [if_neg h]
    exact readString?_plain hquote hslash h rest

/-- Characters in their written form are read back up to the closing quote. -/
theorem readString?_flatMap_escape (s rest : List Char) :
    readString? (s.flatMap escape ++ '"' :: rest) = some (s, rest) := by
  induction s with
  | nil => rw [List.flatMap_nil, List.nil_append, readString?]
  | cons c s ih =>
    rw [List.flatMap_cons, List.append_assoc, readString?_escape, ih]
    rfl

/-- Different strings have different texts. -/
theorem quote_inj {s t : String} : quote s = quote t ↔ s = t := by
  refine ⟨fun h => ?_, fun h => h ▸ rfl⟩
  have hread := congrArg (fun text => readString? text.tail) h
  simp only [quote, List.cons_append, List.tail_cons, readString?_flatMap_escape,
    Option.some.injEq, Prod.mk.injEq] at hread
  exact String.toList_injective hread.1

end TableQuery.Json
