import TableQuery.Proofs.Calendar.RoundTrip

/-!
# Texts in the order of dates

Numbers of one width are ordered as texts as they are as numbers, and texts of one length decide
before what follows them. So the texts of dates of the years 0 to 9999 are in the order of the dates,
and those of date-times, whose fractions have different lengths, in the order of the date-times: the
groups of digits that a fraction leaves out are zeros.
-/

namespace TableQuery

open Std

/-! ## Texts and their characters -/

/-- Characters are ordered by their numbers. -/
theorem compare_char (c d : Char) : compare c d = compare c.toNat d.toNat := by
  have hlt : c < d ↔ c.toNat < d.toNat := Iff.rfl
  have heq : c = d ↔ c.toNat = d.toNat := Char.toNat_inj.symm
  change compareOfLessAndEq c d = compareOfLessAndEq c.toNat d.toNat
  simp only [compareOfLessAndEq, hlt, heq]

/-- Lists of characters come one before the other as their comparison says. -/
theorem compare_eq_lt_iff_lt (s t : List Char) : compare s t = .lt ↔ s < t := by
  induction s generalizing t with
  | nil => cases t <;> simp
  | cons c s ih =>
    cases t with
    | nil => simp
    | cons d t =>
      rw [List.compare_cons_cons, Ordering.then_eq_lt, ih, List.cons_lt_cons_iff,
        LawfulEqOrd.compare_eq_iff_eq]
      refine or_congr ?_ Iff.rfl
      rw [compare_char, Nat.compare_eq_lt]
      exact Iff.rfl

/-- Texts are ordered as their characters. -/
theorem compare_string (s t : String) : compare s t = compare s.toList t.toList := by
  change compareOfLessAndEq s t = _
  unfold compareOfLessAndEq
  by_cases hlt : s < t
  · rw [if_pos hlt]
    exact ((compare_eq_lt_iff_lt _ _).2 hlt).symm
  · rw [if_neg hlt]
    by_cases heq : s = t
    · rw [if_pos heq, heq]
      exact ReflCmp.compare_self.symm
    · rw [if_neg heq]
      have hnlt : compare s.toList t.toList ≠ .lt := fun h => hlt ((compare_eq_lt_iff_lt _ _).1 h)
      have hneq : compare s.toList t.toList ≠ .eq := fun h =>
        heq (String.toList_injective (LawfulEqOrd.eq_of_compare h))
      cases h : compare s.toList t.toList with
      | lt => contradiction
      | eq => contradiction
      | gt => rfl

/-- Texts of one length decide before what follows them. -/
theorem compare_append {a b : List Char} (h : a.length = b.length) (s t : List Char) :
    compare (a ++ s) (b ++ t) = (compare a b).then (compare s t) := by
  induction a generalizing b with
  | nil =>
    rw [List.length_nil] at h
    rw [List.length_eq_zero_iff.1 h.symm]
    rfl
  | cons c a ih =>
    cases b with
    | nil => simp at h
    | cons d b =>
      rw [List.cons_append, List.cons_append, List.compare_cons_cons, List.compare_cons_cons,
        ih (Nat.succ.inj h), Ordering.then_assoc]

/-- A common beginning does not decide. -/
theorem compare_cons_self (c : Char) (s t : List Char) : compare (c :: s) (c :: t) = compare s t := by
  have hself : compare c c = .eq := ReflCmp.compare_self
  rw [List.compare_cons_cons, hself]
  rfl

namespace Calendar

/-! ## Numbers of one width -/

/-- A first digit counts for the power of ten of the digits after it. -/
theorem digitsValue_cons (c : Char) (s : List Char) :
    Decimal.digitsValue (c :: s) =
      10 ^ s.length * (c.toNat - '0'.toNat) + Decimal.digitsValue s := by
  unfold Decimal.digitsValue
  rw [Nat.ofDigitChars_cons, Nat.ofDigitChars_eq_ofDigitChars_zero, Nat.mul_zero, Nat.zero_add]

/-- Digits before others count for the power of ten of the number of the others. -/
theorem digitsValue_append (s t : List Char) :
    Decimal.digitsValue (s ++ t) = 10 ^ t.length * Decimal.digitsValue s + Decimal.digitsValue t := by
  unfold Decimal.digitsValue
  rw [Nat.ofDigitChars_append, Nat.ofDigitChars_eq_ofDigitChars_zero]

/-- Digits denote less than the power of ten of their number. -/
theorem digitsValue_lt {s : List Char} (h : ∀ c ∈ s, c.isDigit = true) :
    Decimal.digitsValue s < 10 ^ s.length := by
  induction s with
  | nil => decide
  | cons c s ih =>
    have hdigit := Char.isDigit_iff_toNat.1 (h c List.mem_cons_self)
    change 48 ≤ c.toNat ∧ c.toNat ≤ 57 at hdigit
    have hrest := ih fun d hd => h d (List.mem_cons_of_mem c hd)
    have hfirst : 10 ^ s.length * (c.toNat - 48) ≤ 10 ^ s.length * 9 :=
      Nat.mul_le_mul_left _ (by omega)
    rw [digitsValue_cons, List.length_cons, Nat.pow_succ]
    change 10 ^ s.length * (c.toNat - 48) + _ < _
    omega

/-- A greater part decides, the smaller part decides what is left. -/
theorem compare_mul_add {base a b r s : Nat} (hr : r < base) (hs : s < base) :
    compare (base * a + r) (base * b + s) = (compare a b).then (compare r s) := by
  rcases Nat.lt_trichotomy a b with h | rfl | h
  · have hle : base * (a + 1) ≤ base * b := Nat.mul_le_mul_left base h
    rw [Nat.mul_succ] at hle
    rw [Nat.compare_eq_lt.2 h, Nat.compare_eq_lt.2 (by omega)]
    rfl
  · rw [Nat.compare_eq_eq.2 rfl, Ordering.eq_then]
    simp only [Nat.compare_eq_ite_lt]
    simp only [Nat.add_lt_add_iff_left]
  · have hle : base * (b + 1) ≤ base * a := Nat.mul_le_mul_left base h
    rw [Nat.mul_succ] at hle
    rw [Nat.compare_eq_gt.2 h, Nat.compare_eq_gt.2 (by omega)]
    rfl

/-- Digits of one length are ordered as the numbers that they denote. -/
theorem compare_digits {s t : List Char} (hs : ∀ c ∈ s, c.isDigit = true)
    (ht : ∀ c ∈ t, c.isDigit = true) (h : s.length = t.length) :
    compare s t = compare (Decimal.digitsValue s) (Decimal.digitsValue t) := by
  induction s generalizing t with
  | nil =>
    rw [List.length_nil] at h
    rw [List.length_eq_zero_iff.1 h.symm]
    rfl
  | cons c s ih =>
    cases t with
    | nil => simp at h
    | cons d t =>
      have hlength : s.length = t.length := Nat.succ.inj h
      have hc := Char.isDigit_iff_toNat.1 (hs c List.mem_cons_self)
      have hd := Char.isDigit_iff_toNat.1 (ht d List.mem_cons_self)
      have hsrest : ∀ e ∈ s, e.isDigit = true := fun e he => hs e (List.mem_cons_of_mem c he)
      have htrest : ∀ e ∈ t, e.isDigit = true := fun e he => ht e (List.mem_cons_of_mem d he)
      have hfirst : compare c d = compare (c.toNat - '0'.toNat) (d.toNat - '0'.toNat) := by
        rw [compare_char]
        simp only [Nat.compare_eq_ite_lt]
        change 48 ≤ c.toNat ∧ c.toNat ≤ 57 at hc
        change 48 ≤ d.toNat ∧ d.toNat ≤ 57 at hd
        change _ = if c.toNat - 48 < d.toNat - 48 then Ordering.lt
          else if d.toNat - 48 < c.toNat - 48 then .gt else .eq
        have hlt : c.toNat < d.toNat ↔ c.toNat - 48 < d.toNat - 48 := by omega
        have hgt : d.toNat < c.toNat ↔ d.toNat - 48 < c.toNat - 48 := by omega
        simp only [hlt, hgt]
      have hbound := digitsValue_lt htrest
      rw [← hlength] at hbound
      rw [List.compare_cons_cons, hfirst, ih hsrest htrest hlength, digitsValue_cons, digitsValue_cons,
        ← hlength, compare_mul_add (digitsValue_lt hsrest) hbound]

/-- Numbers that fit a width are ordered as their padded texts. -/
theorem compare_padded {width m n : Nat} (hwidth : 0 < width) (hm : m < 10 ^ width)
    (hn : n < 10 ^ width) : compare (padded width m) (padded width n) = compare m n := by
  rw [compare_digits (fun _ => isDigit_of_mem_padded) (fun _ => isDigit_of_mem_padded)
    ((length_padded hwidth hm).trans (length_padded hwidth hn).symm), digitsValue_padded,
    digitsValue_padded]

/-- A padded number is its greater part padded, and then the rest. -/
theorem padded_add {high low n : Nat} (hhigh : 0 < high) (hlow : 0 < low)
    (h : n < 10 ^ (high + low)) :
    padded (high + low) n = padded high (n / 10 ^ low) ++ padded low (n % 10 ^ low) := by
  have hpos : 0 < 10 ^ low := Nat.pow_pos (by decide)
  have hquotient : n / 10 ^ low < 10 ^ high := by
    rw [Nat.div_lt_iff_lt_mul hpos, ← Nat.pow_add]
    exact h
  have hlengthLow := length_padded hlow (Nat.mod_lt n hpos)
  have hlength : (padded (high + low) n).length =
      (padded high (n / 10 ^ low) ++ padded low (n % 10 ^ low)).length := by
    rw [List.length_append, length_padded (by omega) h, length_padded hhigh hquotient, hlengthLow]
  have hdigits : ∀ c ∈ padded high (n / 10 ^ low) ++ padded low (n % 10 ^ low), c.isDigit = true := by
    intro c hc
    rcases List.mem_append.1 hc with hc | hc
    · exact isDigit_of_mem_padded hc
    · exact isDigit_of_mem_padded hc
  refine LawfulEqOrd.eq_of_compare ?_
  rw [compare_digits (fun _ => isDigit_of_mem_padded) hdigits hlength, digitsValue_append,
    digitsValue_padded, digitsValue_padded, digitsValue_padded, hlengthLow, Nat.div_add_mod]
  exact ReflCmp.compare_self

/-! ## Fractions -/

/-- Groups of three digits, without the groups of zeros at the end. -/
def writeGroups : List Nat → List Char
  | [] => []
  | n :: rest => if n = 0 ∧ writeGroups rest = [] then [] else padded 3 n ++ writeGroups rest

/-- Nothing comes before groups as zeros come before their numbers. -/
theorem compare_nil_writeGroups (n : Nat) (rest : List Nat) :
    compare [] (writeGroups (n :: rest)) = (compare 0 n).then (compare [] (writeGroups rest)) := by
  rw [writeGroups]
  by_cases hempty : n = 0 ∧ writeGroups rest = []
  · rw [if_pos hempty, hempty.1, hempty.2]
    rfl
  · obtain ⟨c, more, hpadded, _⟩ := exists_padded_eq_cons 3 n
    rw [if_neg hempty, hpadded, List.cons_append, List.compare_nil_cons]
    by_cases hzero : n = 0
    · cases hrest : writeGroups rest with
      | nil => exact absurd ⟨hzero, hrest⟩ hempty
      | cons d rest => rw [hzero]; rfl
    · rw [Nat.compare_eq_lt.2 (Nat.pos_of_ne_zero hzero)]
      rfl

/-- Groups are ordered as the numbers in them: what is left out at the end is the least there is. -/
theorem compare_writeGroups {ms ns : List Nat} (hlength : ms.length = ns.length)
    (hms : ∀ m ∈ ms, m < 1000) (hns : ∀ n ∈ ns, n < 1000) :
    compare (writeGroups ms) (writeGroups ns) = compare ms ns := by
  induction ms generalizing ns with
  | nil =>
    rw [List.length_nil] at hlength
    rw [List.length_eq_zero_iff.1 hlength.symm]
    rfl
  | cons m ms ih =>
    cases ns with
    | nil => simp at hlength
    | cons n ns =>
      rw [List.compare_cons_cons, ← ih (Nat.succ.inj hlength)
        (fun k hk => hms k (List.mem_cons_of_mem m hk)) fun k hk => hns k (List.mem_cons_of_mem n hk)]
      by_cases hm : m = 0 ∧ writeGroups ms = []
      · have hnil : writeGroups (m :: ms) = [] := if_pos hm
        rw [hnil, compare_nil_writeGroups, hm.1, hm.2]
      by_cases hn : n = 0 ∧ writeGroups ns = []
      · have hnil : writeGroups (n :: ns) = [] := if_pos hn
        have hswap : compare (writeGroups (m :: ms)) [] = (compare [] (writeGroups (m :: ms))).swap :=
          OrientedCmp.eq_swap
        have hhead : compare m 0 = (compare 0 m).swap := OrientedCmp.eq_swap
        have htail : compare (writeGroups ms) [] = (compare [] (writeGroups ms)).swap :=
          OrientedCmp.eq_swap
        rw [hnil, hswap, compare_nil_writeGroups, hn.1, hn.2, hhead, htail, Ordering.swap_then]
      have hmgroups : writeGroups (m :: ms) = padded 3 m ++ writeGroups ms := if_neg hm
      have hngroups : writeGroups (n :: ns) = padded 3 n ++ writeGroups ns := if_neg hn
      have hmlt := hms m List.mem_cons_self
      have hnlt := hns n List.mem_cons_self
      rw [hmgroups, hngroups, compare_append ((length_padded (by decide) hmlt).trans
        (length_padded (by decide) hnlt).symm), compare_padded (by decide) hmlt hnlt]

/-- The three groups of nine digits. -/
def groupsOf (n : Nat) : List Nat := [n / 1000000, n / 1000 % 1000, n % 1000]

/-- A fraction is a point and its groups, or nothing when all groups are left out. -/
theorem writeFraction_eq {n : Nat} (h : n < 1000000000) :
    writeFraction n =
      if writeGroups (groupsOf n) = [] then [] else '.' :: writeGroups (groupsOf n) := by
  have hmicro : padded 6 (n / 1000) = padded 3 (n / 1000000) ++ padded 3 (n / 1000 % 1000) := by
    have hsplit := padded_add (show 0 < 3 by decide) (show 0 < 3 by decide)
      (show n / 1000 < 10 ^ (3 + 3) by omega)
    have hquotient : n / 1000 / 10 ^ 3 = n / 1000000 := by omega
    rwa [hquotient] at hsplit
  have hnano : padded 9 n = padded 3 (n / 1000000) ++ padded 3 (n / 1000 % 1000) ++
      padded 3 (n % 1000) := by
    have hsplit := padded_add (show 0 < 6 by decide) (show 0 < 3 by decide)
      (show n < 10 ^ (6 + 3) by omega)
    change padded 9 n = padded 6 (n / 1000) ++ padded 3 (n % 1000) at hsplit
    rw [hsplit, hmicro]
  unfold writeFraction groupsOf
  by_cases hzero : n = 0
  · rw [if_pos hzero, hzero]
    rfl
  rw [if_neg hzero]
  by_cases hmilli : n % 1000000 = 0
  · have hgroups : writeGroups [n / 1000000, n / 1000 % 1000, n % 1000] = padded 3 (n / 1000000) := by
      have hmiddle : n / 1000 % 1000 = 0 := by omega
      have hlast : n % 1000 = 0 := by omega
      have hfirst : n / 1000000 ≠ 0 := by omega
      rw [hmiddle, hlast, writeGroups, if_neg fun hnil => hfirst hnil.1]
      exact List.append_nil _
    rw [if_pos hmilli, hgroups, if_neg (padded_ne_nil 3 _)]
  rw [if_neg hmilli]
  by_cases hlast : n % 1000 = 0
  · have hgroups : writeGroups [n / 1000000, n / 1000 % 1000, n % 1000] = padded 6 (n / 1000) := by
      have hmiddle : n / 1000 % 1000 ≠ 0 := by omega
      have htail : writeGroups [n / 1000 % 1000, 0] = padded 3 (n / 1000 % 1000) := by
        rw [writeGroups, if_neg fun hnil => hmiddle hnil.1]
        exact List.append_nil _
      rw [hlast, writeGroups, htail, if_neg fun hnil => padded_ne_nil 3 _ hnil.2, hmicro]
    rw [if_pos hlast, hgroups, if_neg (padded_ne_nil 6 _)]
  · have hgroups : writeGroups [n / 1000000, n / 1000 % 1000, n % 1000] = padded 9 n := by
      have htail : writeGroups [n % 1000] = padded 3 (n % 1000) := by
        rw [writeGroups, if_neg fun hnil => hlast hnil.1]
        exact List.append_nil _
      have hne : writeGroups [n / 1000 % 1000, n % 1000] =
          padded 3 (n / 1000 % 1000) ++ padded 3 (n % 1000) := by
        rw [writeGroups, htail, if_neg fun hnil => padded_ne_nil 3 _ hnil.2]
      rw [writeGroups, hne, if_neg fun hnil => padded_ne_nil 3 _ (List.append_eq_nil_iff.1 hnil.2).1,
        hnano, List.append_assoc]
    rw [if_neg hlast, hgroups, if_neg (padded_ne_nil 9 _)]

/-- The groups of nine digits are ordered as the numbers. -/
theorem compare_groupsOf (m n : Nat) : compare (groupsOf m) (groupsOf n) = compare m n := by
  have hm : m = 1000000 * (m / 1000000) + (1000 * (m / 1000 % 1000) + m % 1000) := by omega
  have hn : n = 1000000 * (n / 1000000) + (1000 * (n / 1000 % 1000) + n % 1000) := by omega
  have hnumbers : compare m n = (compare (m / 1000000) (n / 1000000)).then
      ((compare (m / 1000 % 1000) (n / 1000 % 1000)).then (compare (m % 1000) (n % 1000))) := by
    conv => lhs; rw [hm, hn]
    rw [compare_mul_add (by omega) (by omega), compare_mul_add (by omega) (by omega)]
  rw [hnumbers, groupsOf, groupsOf, List.compare_cons_cons, List.compare_cons_cons,
    List.compare_cons_cons, List.compare_nil_nil, Ordering.then_eq]

/-- Fractions are ordered as the numbers of nanoseconds. -/
theorem compare_writeFraction {m n : Nat} (hm : m < 1000000000) (hn : n < 1000000000) :
    compare (writeFraction m) (writeFraction n) = compare m n := by
  have hsmall {k : Nat} (hk : k < 1000000000) : ∀ group ∈ groupsOf k, group < 1000 := by
    simp only [groupsOf, List.forall_mem_cons]
    refine ⟨by omega, by omega, by omega, by simp⟩
  have hgroups := compare_writeGroups (show (groupsOf m).length = (groupsOf n).length from rfl)
    (hsmall hm) (hsmall hn)
  rw [← compare_groupsOf, ← hgroups, writeFraction_eq hm, writeFraction_eq hn]
  cases writeGroups (groupsOf m) with
  | nil => cases writeGroups (groupsOf n) <;> rfl
  | cons c s =>
    cases writeGroups (groupsOf n) with
    | nil => rfl
    | cons d t => exact compare_cons_self '.' _ _

/-! ## Dates and date-times -/

/-- A year with four digits and no sign. -/
def HasFourDigits (year : Int) : Prop := 0 ≤ year ∧ year ≤ 9999

/-- Years with four digits are ordered as their texts. -/
theorem compare_writeYear {y z : Int} (hy : HasFourDigits y) (hz : HasFourDigits z) :
    compare (writeYear y) (writeYear z) = compare y z ∧ (writeYear y).length = (writeYear z).length := by
  have hpadded {year : Int} (h : HasFourDigits year) :
      writeYear year = padded 4 year.natAbs ∧ year.natAbs < 10 ^ 4 := by
    obtain ⟨hlow, hhigh⟩ := h
    rw [writeYear, if_neg (by omega), if_neg (by omega)]
    exact ⟨rfl, by omega⟩
  obtain ⟨hytext, hysmall⟩ := hpadded hy
  obtain ⟨hztext, hzsmall⟩ := hpadded hz
  rw [hytext, hztext, compare_padded (by decide) hysmall hzsmall, length_padded (by decide) hysmall,
    length_padded (by decide) hzsmall]
  refine ⟨?_, rfl⟩
  have hlt : y.natAbs < z.natAbs ↔ y < z := by
    obtain ⟨hylow, _⟩ := hy
    obtain ⟨hzlow, _⟩ := hz
    omega
  have heq : y.natAbs = z.natAbs ↔ y = z := by
    obtain ⟨hylow, _⟩ := hy
    obtain ⟨hzlow, _⟩ := hz
    omega
  change compareOfLessAndEq y.natAbs z.natAbs = compareOfLessAndEq y z
  simp only [compareOfLessAndEq, hlt, heq]

/-- Numbers of two digits decide before what follows a common mark. -/
theorem compare_two {m n : Nat} (hm : m < 100) (hn : n < 100) (s t : List Char) :
    compare (padded 2 m ++ s) (padded 2 n ++ t) = (compare m n).then (compare s t) := by
  rw [compare_append ((length_padded (by decide) hm).trans (length_padded (by decide) hn).symm),
    compare_padded (by decide) hm hn]

/-- The month and the day of a date have two digits. -/
theorem month_day_lt (d : Date) : d.month < 100 ∧ d.day < 100 := by
  have hvalid := d.onCalendar
  simp only [isDate, Bool.and_eq_true, decide_eq_true_eq] at hvalid
  have hdays := daysIn_bounds d.year d.month
  omega

/-- Dates of years with four digits decide as their texts do, before what follows them. -/
theorem compare_writeDate_append {d e : Date} (hd : HasFourDigits d.year) (he : HasFourDigits e.year)
    (s t : List Char) :
    compare (writeDate d ++ s) (writeDate e ++ t) = (d.compare e).then (compare s t) := by
  obtain ⟨hyear, hlength⟩ := compare_writeYear hd he
  obtain ⟨hdmonth, hdday⟩ := month_day_lt d
  obtain ⟨hemonth, heday⟩ := month_day_lt e
  have hparts : d.compare e = (compare d.year e.year).then
      ((compare d.month e.month).then (compare d.day e.day)) := rfl
  simp only [writeDate, List.append_assoc, List.cons_append]
  rw [compare_append hlength, compare_cons_self, compare_two hdmonth hemonth, compare_cons_self,
    compare_two hdday heday, hyear, hparts, Ordering.then_assoc, Ordering.then_assoc]

/-- Dates of years with four digits are ordered as their texts. -/
theorem compare_writeDate {d e : Date} (hd : HasFourDigits d.year) (he : HasFourDigits e.year) :
    compare (writeDate d) (writeDate e) = d.compare e := by
  have h := compare_writeDate_append hd he [] []
  rwa [List.append_nil, List.append_nil, List.compare_nil_nil, Ordering.then_eq] at h

/-- Date-times of years with four digits are ordered as their texts. -/
theorem compare_writeDateTime (mark : Char) {t u : DateTime} (ht : HasFourDigits t.date.year)
    (hu : HasFourDigits u.date.year) :
    compare (writeDateTime mark t) (writeDateTime mark u) = t.compare u := by
  have hparts : t.compare u = (t.date.compare u.date).then ((compare t.time.hour u.time.hour).then
      ((compare t.time.minute u.time.minute).then ((compare t.time.second u.time.second).then
        (compare t.time.nanosecond u.time.nanosecond)))) := rfl
  have htsecond := t.time.second_le
  have husecond := u.time.second_le
  have htminute := t.time.minute_lt
  have huminute := u.time.minute_lt
  have hthour := t.time.hour_lt
  have huhour := u.time.hour_lt
  simp only [writeDateTime, writeClock, List.append_assoc, List.cons_append]
  rw [compare_writeDate_append ht hu, compare_cons_self, compare_two (by omega) (by omega),
    compare_cons_self, compare_two (by omega) (by omega), compare_cons_self,
    compare_two (by omega) (by omega),
    compare_writeFraction t.time.nanosecond_lt u.time.nanosecond_lt, hparts]

end Calendar

end TableQuery
