import TableQuery.Proofs.Calendar.RoundTrip
import TableQuery.Proofs.Decimal.Layout
import TableQuery.Proofs.Json.Strings
import TableQuery.Proofs.Value.Comparison

/-!
# Values read back from their JSON form

A value that fits a column is read back from its JSON form as this value. Different values of one
type have different JSON texts, so that matching by text is matching by value.
-/

namespace TableQuery

namespace Decimal

/-- A 64-bit integer is in range. -/
theorem toInt64?_toInt (n : Int64) : toInt64? n.toInt = some n := by
  have hlow := n.le_toInt
  have hhigh := n.toInt_lt
  rw [toInt64?, if_pos (by omega), Int64.ofInt_toInt]

/-- Every integer is read back from its digits. -/
theorem readInt?_writeInt (n : Int) : readInt? (writeInt n) = some n := by
  unfold writeInt
  split
  next hnegative =>
    rw [readInt?, readDigits?_writeNat]
    change some (-(n.natAbs : Int)) = some n
    rw [Option.some.injEq]
    omega
  next hnonnegative =>
    have hread := readDigits?_writeNat n.natAbs
    cases hdigits : writeNat n.natAbs with
    | nil => exact absurd hdigits (writeNat_ne_nil _)
    | cons c rest =>
      have hdigit : c.isDigit = true :=
        isDigit_of_mem_writeNat (hdigits ▸ List.mem_cons_self)
      rw [hdigits] at hread
      have hplus : readNat? (c :: rest) = some n.natAbs := by
        unfold readNat?
        split
        next h => exact absurd hdigit (by simp [(List.cons.inj h).1])
        next => exact hread
      unfold readInt?
      split
      next h => exact absurd hdigit (by simp [(List.cons.inj h).1])
      next =>
        rw [hplus, Option.map_some, Option.some.injEq]
        change (n.natAbs : Int) = n
        omega

end Decimal

namespace Uuid

/-- No digit of an identifier is a hyphen. -/
theorem hyphen_notMem_map_hexChar (digits : List (Fin 16)) : '-' ∉ digits.map Text.hexChar := by
  intro h
  obtain ⟨d, _, hd⟩ := List.mem_map.1 h
  have hdigit := Text.hexDigit?_hexChar d
  rw [hd] at hdigit
  contradiction

/-- Thirty-two written digits are read back. -/
theorem readPlain?_map_hexChar (u : Uuid) : readPlain? (u.digits.map Text.hexChar) = some u := by
  have hdigits : (u.digits.map Text.hexChar).mapM Text.hexDigit? = some u.digits := by
    induction u.digits with
    | nil => rfl
    | cons d rest ih =>
      rw [List.map_cons, List.mapM_cons, Text.hexDigit?_hexChar, ih]
      rfl
  rw [readPlain?, hdigits, Option.bind_some, ofDigits?, dif_pos u.length_digits]

/-- A text with another character is no run of digits. -/
theorem readPlain?_of_mem {s : List Char} {other : Char} (h : other ∈ s)
    (hother : Text.hexDigit? other = none) : readPlain? s = none := by
  have hnone : s.mapM Text.hexDigit? = none := by
    induction s with
    | nil => contradiction
    | cons c rest ih =>
      rw [List.mapM_cons]
      rcases List.mem_cons.1 h with rfl | h
      · rw [hother]
        rfl
      · rw [ih h]
        cases Text.hexDigit? c <;> rfl
  rw [readPlain?, hnone, Option.bind_none]

/-- Every identifier is read back from its text. -/
theorem read?_write (u : Uuid) : read? u.write = some u := by
  have hyphen (part : List Char) (h : part.Sublist (u.digits.map Text.hexChar)) : '-' ∉ part :=
    fun hmem => hyphen_notMem_map_hexChar u.digits (h.mem hmem)
  have hlength : (u.digits.map Text.hexChar).length = 32 := by
    rw [List.length_map, u.length_digits]
  have hplain : readPlain? u.write = none := readPlain?_of_mem (List.mem_append_right _ List.mem_cons_self) rfl
  have hgrouped : readGrouped? u.write = some u := by
    unfold readGrouped? write
    generalize hs : u.digits.map Text.hexChar = s at *
    simp only [List.append_assoc, List.cons_append]
    rw [List.splitOn_append_cons_self_of_not_mem (hyphen _ (List.take_sublist 8 s)),
      List.splitOn_append_cons_self_of_not_mem
        (hyphen _ ((List.take_sublist 4 _).trans (List.drop_sublist 8 s))),
      List.splitOn_append_cons_self_of_not_mem
        (hyphen _ ((List.take_sublist 4 _).trans (List.drop_sublist 12 s))),
      List.splitOn_append_cons_self_of_not_mem
        (hyphen _ ((List.take_sublist 4 _).trans (List.drop_sublist 16 s))),
      List.splitOn_eq_singleton (hyphen _ (List.drop_sublist 20 s))]
    have hsizes : [s.take 8, (s.drop 8).take 4, (s.drop 12).take 4, (s.drop 16).take 4,
        s.drop 20].map List.length = groups := by
      simp [hlength, groups]
    have hflatten : [s.take 8, (s.drop 8).take 4, (s.drop 12).take 4, (s.drop 16).take 4,
        s.drop 20].flatten = s := by
      have hdrop (n : Nat) : s.drop n = (s.drop n).take 4 ++ s.drop (n + 4) := by
        rw [← List.drop_drop, List.take_append_drop]
      simp only [List.flatten_cons, List.flatten_nil, List.append_nil, ← hdrop,
        List.take_append_drop]
    rw [if_pos hsizes, hflatten, ← hs, readPlain?_map_hexChar]
  rw [read?, hplain, hgrouped]
  rfl

end Uuid

namespace Value

variable {a b v : Value} {type : ColumnType}

/-- A fitting value is read back from its JSON form. -/
theorem Fits.ofJson?_toJson (h : v.Fits type) : ofJson? type v.toJson = some v := by
  cases h with
  | integer n => simp only [toJson, Json.ofInt64, ofJson?, Json.toInt64?, Decimal.toInt64?_toInt,
      Option.map_some]
  | float x hx => simp only [toJson, Json.ofBinary64, hx, if_true, ofJson?, Json.toBinary64?,
      Option.filter_some_pos, Option.map_some]
  | text s => rfl
  | boolean b => rfl
  | date d => simp only [toJson, ofJson?, String.toList_ofList, Calendar.readDate?_writeDate,
      Option.map_some]
  | dateTime t => simp only [toJson, ofJson?, String.toList_ofList,
      Calendar.readDateTime?_writeDateTime, Option.map_some]
  | uuid u => simp only [toJson, ofJson?, String.toList_ofList, Uuid.read?_write, Option.map_some]

/-- A null cell has no typed value. -/
theorem ofJson?_null (type : ColumnType) : ofJson? type .null = none := by
  cases type <;> rfl

/-- Different values of one type have different JSON texts. -/
theorem text_toJson_inj (ha : a.Fits type) (hb : b.Fits type) :
    a.toJson.text = b.toJson.text ↔ a = b := by
  refine ⟨fun h => ?_, fun h => h ▸ rfl⟩
  have hchars : a.toJson.chars = b.toJson.chars := String.ofList_injective h
  suffices hjson : a.toJson = b.toJson by
    have hread := congrArg (ofJson? type) hjson
    rwa [ha.ofJson?_toJson, hb.ofJson?_toJson, Option.some.injEq] at hread
  cases ha with
  | float x hx =>
    cases hb with
    | float y hy =>
      simp only [toJson, Json.ofBinary64, hx, hy, if_true, Json.chars] at hchars ⊢
      rw [Binary64.jsonText_injective hchars]
  | integer n =>
    cases hb with
    | integer m =>
      have hread := congrArg Decimal.readInt? hchars
      simp only [toJson, Json.ofInt64, Json.chars, Decimal.readInt?_writeInt, Option.some.injEq]
        at hread
      rw [toJson, toJson, Json.ofInt64, Json.ofInt64, hread]
  | boolean p =>
    cases hb with
    | boolean q => cases p <;> cases q <;> first | rfl | exact absurd hchars (by decide)
  | _ =>
    cases hb
    exact congrArg Json.str (Json.quote_inj.1 hchars)

end Value

end TableQuery
