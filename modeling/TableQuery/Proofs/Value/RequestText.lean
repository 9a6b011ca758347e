import TableQuery.Proofs.Calendar.Layouts
import TableQuery.Proofs.Request.Insertion
import TableQuery.Proofs.Schema.Soundness
import TableQuery.Proofs.Value.RoundTrip

/-!
# Values sent back in requests

A value that is read for a column, from a request or from a stored cell, is read back from its JSON
form. The bare text of this form reads in a request as the same value, floating-point numbers apart,
and so does the text of a stored cell. The request reader trims and the cell reader does not; a text
that a cell reader accepts holds no blanks at its ends that would matter. A row is therefore found
again by what it shows.
-/

namespace TableQuery

namespace Text

variable {c : Char} {s : List Char}

/-- What stands in a text is the mark that it is cut at, or stands in one of its parts. -/
theorem mem_flatten_splitOn {mark : Char} (hmem : c ∈ s) (hne : c ≠ mark) :
    c ∈ (s.splitOn mark).flatten := by
  induction s with
  | nil => contradiction
  | cons first rest ih =>
    rw [List.splitOn_eq_splitOnP] at ih ⊢
    rw [List.splitOnP_cons_eq_if_modifyHead]
    by_cases hfirst : first = mark
    · have hrest : c ∈ rest := (List.mem_cons.1 hmem).resolve_left fun heq => hne (heq.trans hfirst)
      simpa only [hfirst, beq_self_eq_true, if_true, List.flatten_cons, List.nil_append] using ih hrest
    · obtain ⟨part, parts, hparts⟩ :=
        List.exists_cons_of_ne_nil (List.splitOnP_ne_nil (· == mark) rest)
      rw [hparts] at ih ⊢
      simp only [beq_iff_eq, hfirst, if_false, List.modifyHead_cons, List.flatten_cons,
        List.cons_append, List.mem_cons] at ih ⊢
      exact (List.mem_cons.1 hmem).imp_right ih

/-- No blank lies between visible ASCII characters. -/
theorem not_between_of_isBlank (h : isBlank c = true) (low high : Char) (hlow : 0x21 ≤ low.toNat)
    (hhigh : high.toNat ≤ 0x7E) : ¬(low ≤ c ∧ c ≤ high) := by
  rintro ⟨hle, hge⟩
  have hvisible : 0x21 ≤ c.toNat ∧ c.toNat ≤ 0x7E := ⟨le_trans hlow hle, le_trans hge hhigh⟩
  rw [isBlank_of_visible hvisible] at h
  contradiction

/-- A blank is no hexadecimal digit. -/
theorem hexDigit?_of_isBlank (h : isBlank c = true) : hexDigit? c = none := by
  rw [hexDigit?, if_neg (not_between_of_isBlank h '0' '9' (by decide) (by decide)),
    if_neg (not_between_of_isBlank h 'a' 'f' (by decide) (by decide)),
    if_neg (not_between_of_isBlank h 'A' 'F' (by decide) (by decide))]

/-- A blank stays when letters are folded. -/
theorem foldChar_of_isBlank (h : isBlank c = true) : foldChar c = c :=
  dif_neg (not_between_of_isBlank h 'A' 'Z' (by decide) (by decide))

end Text

namespace Uuid

variable {s : List Char} {u : Uuid} {c : Char}

/-- A run of digits holds no blank. -/
theorem isBlank_of_readPlain? (h : readPlain? s = some u) (hmem : c ∈ s) :
    Text.isBlank c = false := by
  by_contra hblank
  rw [readPlain?_of_mem hmem (Text.hexDigit?_of_isBlank (Bool.of_not_eq_false hblank))] at h
  contradiction

/-- Groups of digits hold no blank. -/
theorem isBlank_of_readGrouped? (h : readGrouped? s = some u) (hmem : c ∈ s) :
    Text.isBlank c = false := by
  simp only [readGrouped?, Option.ite_none_right_eq_some] at h
  by_cases hc : c = '-'
  · rw [hc]
    decide
  · exact isBlank_of_readPlain? h.2 (Text.mem_flatten_splitOn hmem hc)

/-- Groups of digits in braces hold no blank. -/
theorem isBlank_of_readBraced? (h : readBraced? s = some u) (hmem : c ∈ s) :
    Text.isBlank c = false := by
  unfold readBraced? at h
  split at h
  next rest =>
    obtain ⟨hlast, h⟩ := Option.ite_none_right_eq_some.1 h
    rw [← List.dropLast_append_getLast? _ hlast] at hmem
    simp only [List.mem_cons, List.mem_append, List.not_mem_nil, or_false] at hmem
    rcases hmem with rfl | hmem | rfl
    · decide
    · exact isBlank_of_readGrouped? h hmem
    · decide
  next => contradiction

/-- Groups of digits behind the name of their scheme hold no blank, and neither does the name. -/
theorem isBlank_of_readUrn? (h : readUrn? s = some u) (hmem : c ∈ s) : Text.isBlank c = false := by
  obtain ⟨hscheme, h⟩ := Option.ite_none_right_eq_some.1 h
  rw [← List.take_append_drop 9 s, List.mem_append] at hmem
  rcases hmem with hmem | hmem
  · have hfolded := hscheme ▸ List.mem_map_of_mem (f := Text.foldChar) hmem
    have hvisible : ("urn:uuid:".toList.all fun folded => !Text.isBlank folded) = true := by decide
    by_contra hblank
    rw [Text.foldChar_of_isBlank (Bool.of_not_eq_false hblank)] at hfolded
    have hfalse := List.all_eq_true.1 hvisible c hfolded
    rw [Bool.not_eq_true'] at hfalse
    exact hblank hfalse
  · exact isBlank_of_readGrouped? h hmem

/-- The text of an identifier holds no blank. -/
theorem isBlank_of_read? (h : read? s = some u) (hmem : c ∈ s) : Text.isBlank c = false := by
  unfold read? at h
  cases hplain : readPlain? s with
  | some _ => exact isBlank_of_readPlain? hplain hmem
  | none =>
    cases hgrouped : readGrouped? s with
    | some _ => exact isBlank_of_readGrouped? hgrouped hmem
    | none =>
      cases hbraced : readBraced? s with
      | some _ => exact isBlank_of_readBraced? hbraced hmem
      | none =>
        rw [hplain, hgrouped, hbraced] at h
        exact isBlank_of_readUrn? h hmem

end Uuid

/-- The text of a JSON value, that of a string without its quotes. -/
def Json.bare : Json → String
  | .str s => s
  | value => value.text

namespace Value

variable {type : ColumnType} {v : Value} {s : String}

/-- The text of a stored cell reads in a request as the value of the cell. -/
theorem read?_of_ofJson?_str (h : ofJson? type (.str s) = some v) : read? type s = some v := by
  cases type with
  | text => exact h
  | date =>
    obtain ⟨d, hd, rfl⟩ := Option.map_eq_some_iff.1 h
    exact Option.map_eq_some_iff.2 ⟨d, Calendar.readDate?_trimBlanks hd, rfl⟩
  | dateTime =>
    obtain ⟨t, ht, rfl⟩ := Option.map_eq_some_iff.1 h
    exact Option.map_eq_some_iff.2 ⟨t, Calendar.readDateTime?_trimBlanks ht, rfl⟩
  | uuid =>
    obtain ⟨u, hu, rfl⟩ := Option.map_eq_some_iff.1 h
    refine Option.map_eq_some_iff.2 ⟨u, ?_, rfl⟩
    rw [Text.trimBlanks_of_forall fun _ hmem => Uuid.isBlank_of_read? hu hmem, hu]
  | _ => contradiction

/-- The digits of an integer read in a request as the integer. -/
theorem read?_writeInt (n : Int64) :
    read? .integer (String.ofList (Decimal.writeInt n.toInt)) = some (integer n) := by
  have hblank : ∀ c ∈ Decimal.writeInt n.toInt, Text.isBlank c = false := by
    intro c hmem
    unfold Decimal.writeInt at hmem
    split at hmem
    · rcases List.mem_cons.1 hmem with rfl | hmem
      · decide
      · exact Text.isBlank_of_isDigit (Decimal.isDigit_of_mem_writeNat hmem)
    · exact Text.isBlank_of_isDigit (Decimal.isDigit_of_mem_writeNat hmem)
  simp only [read?, String.toList_ofList, Text.trimBlanks_of_forall hblank, Decimal.readInt64?,
    Decimal.readInt?_writeInt, Option.bind_some, Decimal.toInt64?_toInt, Option.map_some]

/-- The bare text of the JSON form reads in a request as the value, floating-point numbers apart. -/
theorem Fits.read?_bare (h : v.Fits type) (hfloat : type ≠ .float) :
    read? type v.toJson.bare = some v := by
  have hcell := h.ofJson?_toJson
  cases h with
  | float => contradiction
  | integer n => exact read?_writeInt n
  | boolean b => cases b <;> decide
  | _ => exact read?_of_ofJson?_str hcell

end Value

/-! ## Rows found by what they show -/

namespace Request

variable {table : Table} {settings : Settings} {column : Column} {text : String} {v : Value}

/-- Without parameters, nothing is constrained. -/
theorem decode_nothing :
    decode ⟨[]⟩ table settings = .ok ⟨[], ⟨Window.fallbackLimit settings, 0⟩, [], []⟩ := by
  rw [decode, decodeColumns_of_absent fun _ _ _ => rfl]
  rfl

/-- A single list value asks for the rows whose cells equal it. -/
theorem exists_decode_single (hread : Value.read? column.type text = some v)
    (hnodup : (table.columns.map Column.name).Nodup) (hcolumn : column ∈ table.columns) :
    ∃ request, decode ⟨[(Facet.list.key column.name, text)]⟩ table settings = .ok request ∧
      ∀ row, request.predicate.holds table row = (Predicate.eq column.name v).holds table row := by
  have halike : Failure.Alike (Narrows table (.eq column.name v)) (decode ⟨[]⟩ table settings)
      (decode ⟨[(Facet.list.key column.name, text)]⟩ table settings) :=
    alike_decode_of_inserts (.among [] []) rfl rfl hread hnodup hcolumn
  rw [decode_nothing] at halike
  generalize decode ⟨[(Facet.list.key column.name, text)]⟩ table settings = decoded at halike ⊢
  cases halike with
  | ok hnarrows =>
    refine ⟨_, rfl, fun row => ?_⟩
    rw [hnarrows.holds_predicate]
    rfl

end Request

namespace Value

/-- Every value that can be read for a column is read back: from its JSON form as a stored cell, and
from the bare text of this form in a request. A text that is such a cell reads in a request as well.
A row is therefore found by what it shows in a column, be it the text of its cell or that of the
value in it. -/
theorem reads_back {type : ColumnType} {v : Value}
    (h : (∃ raw, read? type raw = some v) ∨ ∃ cell, ofJson? type cell = some v) :
    ofJson? type v.toJson = some v ∧
    (type ≠ .float → read? type v.toJson.bare = some v) ∧
    (∀ s, ofJson? type (.str s) = some v → read? type s = some v) ∧
    ∀ (table : Table) (column : Column) (row : Row) (settings : Settings) (shown : String),
      (table.columns.map Column.name).Nodup → column ∈ table.columns → column.type = type →
      table.cell? row column.name = some v →
      (type ≠ .float ∧ shown = v.toJson.bare ∨ row.get? column.name = some (.str shown)) →
      ∃ request,
        Request.decode ⟨[(Facet.list.key column.name, shown)]⟩ table settings = .ok request ∧
        request.predicate.holds table row = true := by
  have hfits : v.Fits type := by
    rcases h with ⟨raw, hread⟩ | ⟨cell, hread⟩
    · exact fits_of_read? hread
    · exact fits_of_ofJson? hread
  refine ⟨hfits.ofJson?_toJson, hfits.read?_bare, fun s => read?_of_ofJson?_str, ?_⟩
  intro table column row settings shown hnodup hcolumn htype hcell hshown
  subst htype
  have hread : read? column.type shown = some v := by
    rcases hshown with ⟨hfloat, rfl⟩ | hshown
    · exact hfits.read?_bare hfloat
    · obtain ⟨found, hfound, cell, hget, hvalue⟩ := Table.cell?_eq_some_iff.1 hcell
      rw [Table.column?_of_mem hnodup hcolumn, Option.some.injEq] at hfound
      rw [hshown, Option.some.injEq] at hget
      subst hfound hget
      exact read?_of_ofJson?_str hvalue
  obtain ⟨request, hdecode, hholds⟩ := Request.exists_decode_single hread hnodup hcolumn
  refine ⟨request, hdecode, ?_⟩
  rw [hholds row, Predicate.holds_eq_iff]
  exact ⟨v, hcell, hfits.compare?_self⟩

/-- A date before the common era, from a cell that pads neither its year nor its month: the date reads
back, and a request with the text of the cell finds the author. -/
theorem reads_back_ides :
    let ides : Value := .date ⟨-43, 3, 15, by decide⟩
    let author : Row := ⟨[("id", .int 1), ("born", .str " -43-3-15")], by decide⟩
    read? .date ides.toJson.bare = some ides ∧
    ∃ request,
      Request.decode ⟨[(Facet.list.key "born", " -43-3-15")]⟩ Registry.author {} = .ok request ∧
      request.predicate.holds Registry.author author = true := by
  have hback := @reads_back .date (.date ⟨-43, 3, 15, by decide⟩) (.inr ⟨.str " -43-3-15", by decide⟩)
  exact ⟨hback.2.1 (by decide), hback.2.2.2 Registry.author ⟨"born", .date, true⟩
    ⟨[("id", .int 1), ("born", .str " -43-3-15")], by decide⟩ {} " -43-3-15" (by decide) (by decide) rfl
    (by decide) (.inr rfl)⟩

end Value

end TableQuery
