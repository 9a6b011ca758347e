import TableQuery.Decimal.Numeral
import TableQuery.Proofs.Decimal.Shortest

/-!
# Reading laid-out digits

The JSON layout of a datum is a numeral, which denotes what the shortest digits denote: zeros before and
after the digits move the point and nothing else. Since these digits read back as one datum only, the
texts of two data are equal only when the data are the same, the two zeros being told apart by their
signs.
-/

namespace TableQuery

open Calendar (NoDigitAhead)

namespace Numeral

/-- The denoted absolute value in quarter units. -/
def quarters (n : Numeral) : ℚ := n.digits * Binary64.gridStep n.exponent

/-- A whole number with its sign is read as an exponent. -/
theorem readExponent?_sign (exponent : ℤ) :
    readExponent? ('e' :: (if exponent < 0 then '-' else '+') :: Decimal.writeNat exponent.natAbs) =
      some exponent := by
  unfold readExponent?
  dsimp only
  rw [if_pos (Or.inl rfl)]
  by_cases hnegative : exponent < 0
  · rw [if_pos hnegative, Decimal.readInt?, Decimal.readDigits?_writeNat]
    change some (-(exponent.natAbs : ℤ)) = some exponent
    congr 1
    omega
  · rw [if_neg hnegative]
    change (Decimal.readDigits? (Decimal.writeNat exponent.natAbs)).map Int.ofNat = some exponent
    rw [Decimal.readDigits?_writeNat, Option.map_some]
    congr 1
    exact Int.natAbs_of_nonneg (Int.not_lt.1 hnegative)

variable {whole fraction tail : List Char} {exponent : ℤ}

/-- The leading digits are split off. -/
theorem spanDigits_append (hwhole : ∀ c ∈ whole, c.isDigit = true) (htail : NoDigitAhead tail) :
    spanDigits (whole ++ tail) = (whole, tail) := by
  have htake := Calendar.takeWhile_isDigit_append hwhole htail
  have hsplit := List.takeWhile_append_dropWhile (p := Char.isDigit) (l := whole ++ tail)
  rw [htake] at hsplit
  rw [spanDigits, htake, List.append_cancel_left hsplit]

/-- Digits with a point between them are read as a numeral. -/
theorem readUnsigned?_point (negative : Bool) (hne : whole ≠ [])
    (hwhole : ∀ c ∈ whole, c.isDigit = true) (hfraction : ∀ c ∈ fraction, c.isDigit = true)
    (htail : NoDigitAhead tail) (hexponent : readExponent? tail = some exponent) :
    readUnsigned? negative (whole ++ '.' :: (fraction ++ tail)) =
      some ⟨negative, Decimal.digitsValue (whole ++ fraction), exponent - fraction.length⟩ := by
  have hpoint : NoDigitAhead ('.' :: (fraction ++ tail)) := by
    rintro c rest hc
    cases hc
    rfl
  simp only [readUnsigned?, spanDigits_append hwhole hpoint, spanDigits_append hfraction htail, hexponent]
  rw [if_neg fun h => hne h.1, Option.map_some]

/-- Digits without a point are read as a numeral. -/
theorem readUnsigned?_exponent (negative : Bool) (hne : whole ≠ [])
    (hwhole : ∀ c ∈ whole, c.isDigit = true)
    (hexponent : readExponent? ('e' :: tail) = some exponent) :
    readUnsigned? negative (whole ++ 'e' :: tail) =
      some ⟨negative, Decimal.digitsValue whole, exponent⟩ := by
  have hmark : NoDigitAhead ('e' :: tail) := by
    rintro c rest hc
    cases hc
    rfl
  simp only [readUnsigned?, spanDigits_append hwhole hmark]
  rw [if_neg fun h => hne h.1]
  change (readExponent? ('e' :: tail)).map (fun exponent =>
    (⟨negative, Decimal.digitsValue (whole ++ []), exponent - ([] : List Char).length⟩ : Numeral)) = _
  rw [hexponent, Option.map_some, List.append_nil, List.length_nil, Nat.cast_zero, sub_zero]

end Numeral

namespace Binary64

variable {x y : Binary64} {digits whole fraction tail : List Char} {exponent : ℤ} {q : ℚ}

/-- A text after the sign of a datum is a numeral of this sign with an absolute value in quarter units. -/
def Denotes (x : Binary64) (text : List Char) (q : ℚ) : Prop :=
  ∃ n, Numeral.read? (x.signed text) = some n ∧ n.negative = x.negative ∧ n.quarters = q

/-- The sign is read before digits. -/
theorem read?_signed (x : Binary64) (hne : whole ≠ []) (hwhole : ∀ c ∈ whole, c.isDigit = true) :
    Numeral.read? (x.signed (whole ++ tail)) = Numeral.readUnsigned? x.negative (whole ++ tail) := by
  unfold signed
  cases hnegative : x.negative with
  | true => rfl
  | false =>
    obtain ⟨c, rest, rfl⟩ := List.exists_cons_of_ne_nil hne
    have hdigit := hwhole c List.mem_cons_self
    rw [if_neg (by decide), List.cons_append]
    unfold Numeral.read?
    split
    next heq =>
      cases heq
      contradiction
    next heq =>
      cases heq
      contradiction
    next => rfl

/-- Digits with a point between them denote their number with the point moved. -/
theorem denotes_point (x : Binary64) (hne : whole ≠ []) (hwhole : ∀ c ∈ whole, c.isDigit = true)
    (hfraction : ∀ c ∈ fraction, c.isDigit = true) (htail : NoDigitAhead tail)
    (hexponent : Numeral.readExponent? tail = some exponent) :
    x.Denotes (whole ++ '.' :: (fraction ++ tail))
      (Decimal.digitsValue (whole ++ fraction) * gridStep (exponent - fraction.length)) := by
  have hread := Numeral.readUnsigned?_point x.negative hne hwhole hfraction htail hexponent
  exact ⟨_, (read?_signed x hne hwhole).trans hread, rfl, rfl⟩

/-- The text of a fraction ends with it. -/
theorem denotes_fraction (x : Binary64) (hne : whole ≠ []) (hwhole : ∀ c ∈ whole, c.isDigit = true)
    (hfraction : ∀ c ∈ fraction, c.isDigit = true) :
    x.Denotes (whole ++ '.' :: fraction)
      (Decimal.digitsValue (whole ++ fraction) * gridStep (-fraction.length)) := by
  have hnil : NoDigitAhead [] := by
    rintro c rest hc
    cases hc
  have hpoint := denotes_point x hne hwhole hfraction hnil rfl
  rwa [List.append_nil, zero_sub] at hpoint

/-- Zeros are digits. -/
theorem isDigit_of_mem_replicate {k : ℕ} {c : Char} (h : c ∈ List.replicate k '0') :
    c.isDigit = true := by
  rw [(List.mem_replicate.1 h).2]
  rfl

/-- Digits laid out with a point denote what they denote at their places. -/
theorem denotes_layPoint (x : Binary64) (hne : digits ≠ []) (hdigits : ∀ c ∈ digits, c.isDigit = true)
    (places : ℤ) :
    x.Denotes (layPoint digits places ['.', '0'])
      (Decimal.digitsValue digits * gridStep (places - digits.length)) := by
  have hzero : ∀ c ∈ ['0'], c.isDigit = true := List.forall_mem_singleton.2 rfl
  unfold layPoint
  split
  next hsmall =>
    -- Zeros before the digits count for nothing.
    have hfraction : ∀ c ∈ List.replicate (-places).toNat '0' ++ digits, c.isDigit = true := fun c hc =>
      (List.mem_append.1 hc).elim isDigit_of_mem_replicate (hdigits c)
    have hvalue := denotes_fraction x (List.cons_ne_nil _ _) hzero hfraction
    have hnumber : Decimal.digitsValue (['0'] ++ (List.replicate (-places).toNat '0' ++ digits)) =
        Decimal.digitsValue digits := by
      rw [← List.append_assoc, Calendar.digitsValue_append]
      change _ * Decimal.digitsValue (List.replicate ((-places).toNat + 1) '0') + _ = _
      rw [digitsValue_replicate, Nat.mul_zero, Nat.zero_add]
    have hplaces : -((List.replicate (-places).toNat '0' ++ digits).length : ℤ) =
        places - digits.length := by
      rw [List.length_append, List.length_replicate]
      omega
    rwa [hnumber, hplaces] at hvalue
  next hlarge =>
    split
    next hfits =>
      -- Zeros after the digits count for a power of ten each, and so does the zero after the point.
      obtain ⟨zeros, hzeros⟩ : ∃ zeros : ℕ, places = digits.length + zeros :=
        ⟨(places - digits.length).toNat, by omega⟩
      have hcount : places.toNat - digits.length = zeros := by omega
      have hwhole : ∀ c ∈ digits ++ List.replicate zeros '0', c.isDigit = true := fun c hc =>
        (List.mem_append.1 hc).elim (hdigits c) isDigit_of_mem_replicate
      have hvalue := denotes_fraction x (List.append_ne_nil_of_left_ne_nil hne _) hwhole hzero
      have hnumber : Decimal.digitsValue (digits ++ List.replicate zeros '0' ++ ['0']) =
          10 ^ (zeros + 1) * Decimal.digitsValue digits := by
        rw [List.append_assoc, ← List.replicate_succ', Calendar.digitsValue_append, digitsValue_replicate,
          List.length_replicate, Nat.add_zero]
      have hstep := gridStep_add (-1) (zeros + 1)
      have hexponent : (-1 : ℤ) + (zeros + 1 : ℕ) = places - digits.length := by omega
      rw [hexponent] at hstep
      rw [hcount, hstep]
      rw [hnumber, Nat.cast_mul, mul_comm (_ : ℚ) (Decimal.digitsValue digits : ℚ), mul_assoc] at hvalue
      exact_mod_cast hvalue
    next hinside =>
      have htake : ∀ c ∈ digits.take places.toNat, c.isDigit = true := fun c hc =>
        hdigits c (List.mem_of_mem_take hc)
      have hdrop : ∀ c ∈ digits.drop places.toNat, c.isDigit = true := fun c hc =>
        hdigits c (List.mem_of_mem_drop hc)
      have htaken : digits.take places.toNat ≠ [] := fun hnil =>
        (List.take_eq_nil_iff.1 hnil).elim (by omega) hne
      have hvalue := denotes_fraction x htaken htake hdrop
      have hplaces : -((digits.drop places.toNat).length : ℤ) = places - digits.length := by
        rw [List.length_drop]
        omega
      rwa [List.take_append_drop, hplaces] at hvalue

/-- Digits laid out with an exponent denote what they denote at their places. -/
theorem denotes_layExponent (x : Binary64) (hne : digits ≠ [])
    (hdigits : ∀ c ∈ digits, c.isDigit = true) (places : ℤ) :
    x.Denotes (layExponent digits (places - 1))
      (Decimal.digitsValue digits * gridStep (places - digits.length)) := by
  have hexponent := Numeral.readExponent?_sign (places - 1)
  unfold layExponent
  match digits with
  | [d] =>
    have hread := Numeral.readUnsigned?_exponent x.negative hne hdigits hexponent
    exact ⟨_, (read?_signed x hne hdigits).trans hread, rfl, rfl⟩
  | d :: e :: rest =>
    have hwhole : ∀ c ∈ [d], c.isDigit = true := fun c hc =>
      hdigits c (List.mem_cons.2 (Or.inl (List.mem_singleton.1 hc)))
    have hfraction : ∀ c ∈ e :: rest, c.isDigit = true := fun c hc =>
      hdigits c (List.mem_cons_of_mem d hc)
    have hmark : NoDigitAhead ('e' :: (if places - 1 < 0 then '-' else '+') ::
        Decimal.writeNat (places - 1).natAbs) := by
      rintro c tail hc
      cases hc
      rfl
    have hvalue := denotes_point x (List.cons_ne_nil _ _) hwhole hfraction hmark hexponent
    have hplaces : places - 1 - ((e :: rest).length : ℤ) = places - ((d :: e :: rest).length : ℤ) := by
      simp only [List.length_cons]
      omega
    rwa [hplaces] at hvalue

/-- The JSON text of a datum is a numeral of its sign that reads back as the datum. -/
theorem read?_jsonText (x : Binary64) :
    ∃ n, Numeral.read? x.jsonText = some n ∧ n.negative = x.negative ∧
      (x.magnitude = 0 → n.quarters = 0) ∧ (x.magnitude ≠ 0 → x.readBack.Within n.quarters) := by
  unfold jsonText
  by_cases hzero : x.magnitude = 0
  · rw [if_pos hzero]
    have hdigit : ∀ c ∈ ['0'], c.isDigit = true := List.forall_mem_singleton.2 rfl
    obtain ⟨n, hread, hnegative, hvalue⟩ := denotes_fraction x (List.cons_ne_nil _ _) hdigit hdigit
    refine ⟨n, hread, hnegative, fun _ => ?_, fun h => absurd hzero h⟩
    rw [hvalue]
    exact zero_mul _
  · rw [if_neg hzero]
    obtain ⟨hne, hdigits, hwithin⟩ := shortest_spec .toEven hzero
    generalize x.shortest .toEven = shortest at hne hdigits hwithin ⊢
    obtain ⟨digits, places⟩ := shortest
    dsimp only at hne hdigits hwithin ⊢
    have hdenotes : x.Denotes (if -5 < places ∧ places ≤ 16 then layPoint digits places ['.', '0']
        else layExponent digits (places - 1))
        (Decimal.digitsValue digits * gridStep (places - digits.length)) := by
      split
      · exact denotes_layPoint x hne hdigits places
      · exact denotes_layExponent x hne hdigits places
    obtain ⟨n, hread, hnegative, hvalue⟩ := hdenotes
    exact ⟨n, hread, hnegative, fun h => absurd h hzero, fun _ => hvalue ▸ hwithin⟩

/-- The JSON texts of two data are equal only when the data are the same. -/
theorem jsonText_injective : Function.Injective jsonText := by
  intro x y h
  obtain ⟨n, hread, hnegative, hzero, hwithin⟩ := read?_jsonText x
  obtain ⟨n', hread', hnegative', hzero', hwithin'⟩ := read?_jsonText y
  obtain rfl : n = n' := Option.some.inj (hread.symm.trans (h ▸ hread'))
  have hmagnitude : x.magnitude = y.magnitude := by
    by_cases hx : x.magnitude = 0
    · by_contra hy
      exact (pos_of_within (hx ▸ Ne.symm hy) (hwithin' (hx ▸ Ne.symm hy))).ne' (hzero hx)
    · by_cases hy : y.magnitude = 0
      · exact absurd (hzero' hy) (pos_of_within hx (hwithin hx)).ne'
      · exact magnitude_eq_of_within hx hy (hwithin hx) (hwithin' hy)
  obtain ⟨negative, magnitude, hlt⟩ := x
  obtain ⟨negative', magnitude', hlt'⟩ := y
  cases hnegative.symm.trans hnegative'
  cases hmagnitude
  rfl

end Binary64

end TableQuery
