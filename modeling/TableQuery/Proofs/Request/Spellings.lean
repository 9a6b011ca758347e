import TableQuery.Proofs.Request.Entries

/-!
# Spellings of an order

A sort key is spelled as its column, a colon and its direction, or as the column alone where the key is
ascending and the column holds no colon. Blanks may stand around the spelling, and spellings may be put
together with commas and repeated under the key of the order as one likes: the keys are read back. What
is read at all are entries that each stand for one key, of columns that are distinct and not empty.
-/

namespace TableQuery

/-- A text with an entry in it, and blanks around the entry. -/
inductive Params.Pads (entry text : String) : Prop
  | blanks (before after : List Char) (hbefore : ∀ c ∈ before, Text.isBlank c = true)
      (hafter : ∀ c ∈ after, Text.isBlank c = true)
      (htext : text.toList = before ++ entry.toList ++ after)

/-- A padded entry is the only entry of its text. -/
theorem Params.Pads.splitEntries_eq {entry text : String} (h : Pads entry text)
    (hentry : IsEntry entry) : splitEntries text = [entry] := by
  obtain ⟨before, after, hbefore, hafter, htext⟩ := h
  have hblank {blanks : List Char} (hblanks : ∀ c ∈ blanks, Text.isBlank c = true) :
      ',' ∉ blanks := fun hmem => absurd (hblanks ',' hmem) (by decide)
  refine splitEntries_of_trimBlanks ?_ ?_ hentry.ne_nil
  · rw [htext, List.mem_append, List.mem_append, not_or, not_or]
    exact ⟨⟨hblank hbefore, hentry.no_comma⟩, hblank hafter⟩
  · rw [htext]
    exact Text.trimBlanks_between hbefore hafter hentry.ne_nil hentry.head hentry.last

namespace SortKey

variable {text : String} {texts entries : List String} {key : SortKey} {keys : List SortKey}

/-- A text spells a sort key. -/
inductive Spells : String → SortKey → Prop
  | directed {text : String} {key : SortKey} (hpads : Params.Pads key.entry text) : Spells text key
  | bare {text column : String} (hcolon : ':' ∉ column.toList) (hpads : Params.Pads column text) :
      Spells text ⟨column, .ascending⟩

/-- What spells a sort key has one entry, which stands for the key. -/
theorem Spells.exists_entry (h : Spells text key) (hcolumn : Params.IsEntry key.column) :
    ∃ entry, Params.splitEntries text = [entry] ∧ Reads entry key := by
  cases h with
  | directed hpads =>
    exact ⟨key.entry, hpads.splitEntries_eq (isEntry_entry hcolumn), reads_entry hcolumn⟩
  | @bare column hcolon hpads =>
    have hreads : Reads column ⟨String.ofList column.toList, .ascending⟩ :=
      .bare hcolon (Text.trimBlanks_eq_self hcolumn.head hcolumn.last) hcolumn.ne_nil
    rw [String.ofList_toList] at hreads
    exact ⟨column, hpads.splitEntries_eq hcolumn, hreads⟩

/-- The entries of texts that spell sort keys stand for the keys, in order. -/
theorem reads_of_spells (h : List.Forall₂ Spells texts keys)
    (hcolumns : ∀ key ∈ keys, Params.IsEntry key.column) :
    List.Forall₂ Reads (texts.flatMap Params.splitEntries) keys := by
  induction h with
  | nil => exact .nil
  | cons hspells _ ih =>
    rw [List.forall_mem_cons] at hcolumns
    obtain ⟨entry, hentry, hreads⟩ := hspells.exists_entry hcolumns.1
    rw [List.flatMap_cons, hentry]
    exact .cons hreads (ih hcolumns.2)

/-- No key that an entry stands for has an empty column. -/
theorem column_ne_empty_of_reads (h : List.Forall₂ Reads entries keys) :
    ∀ key ∈ keys, key.column ≠ "" := by
  induction h with
  | nil => nofun
  | cons hreads _ ih =>
    refine List.forall_mem_cons.2 ⟨fun hempty => ?_, ih⟩
    cases hreads with
    | bare _ _ hne => exact hne (String.ofList_injective hempty)
    | directed _ _ _ hne => exact hne (String.ofList_injective hempty)

/-- Sort keys of distinct columns that can be entries are read back from any spelling of them, in any
groups. What is read, one key for each entry and in order, are keys of distinct columns, none of which
is empty. -/
theorem readAll_of_spells :
    (∀ (params : Params) (groups : List (List String)) (keys : List SortKey),
      params.getAll Request.orderKey = groups.map (String.intercalate ",") →
      List.Forall₂ Spells groups.flatten keys →
      (∀ key ∈ keys, Params.IsEntry key.column) → (keys.map column).Nodup →
      readAll (params.getSplit Request.orderKey) = .ok keys) ∧
    ∀ (entries : List String) (keys : List SortKey),
      (readAll entries = .ok keys ↔
        List.Forall₂ Reads entries keys ∧ (keys.map column).Nodup) ∧
      (readAll entries = .ok keys → keys.length = entries.length ∧ ∀ key ∈ keys, key.column ≠ "") := by
  refine ⟨fun params groups keys hvalues hspells hcolumns hnodup => ?_,
    fun entries keys => ⟨readAll_eq_ok_iff, fun h => ?_⟩⟩
  · have hentries : params.getSplit Request.orderKey =
        groups.flatten.flatMap Params.splitEntries := by
      rw [Params.getSplit, hvalues, List.flatMap_map, List.flatten_eq_flatMap, List.flatMap_assoc]
      exact List.flatMap_congr fun texts _ => Params.splitEntries_intercalate texts
    rw [hentries, readAll_eq_ok_iff]
    exact ⟨reads_of_spells hspells hcolumns, hnodup⟩
  · have hreads := (readAll_eq_ok_iff.1 h).1
    exact ⟨hreads.length_eq.symm, column_ne_empty_of_reads hreads⟩

/-- Two keys in one value with blanks around, one of them of a column that looks like an entry, and a
bare one in another value. -/
theorem readAll_of_spells_padded :
    let params : Params := ⟨[("order_by_columns", " born:DESC ,x:ASC:ASC\t"), ("limit", "2"),
      ("order_by_columns", "id ")]⟩
    let groups : List (List String) := [[" born:DESC ", "x:ASC:ASC\t"], ["id "]]
    let keys : List SortKey := [⟨"born", .descending⟩, ⟨"x:ASC", .ascending⟩, ⟨"id", .ascending⟩]
    (params.getAll Request.orderKey = groups.map (String.intercalate ",") ∧
      List.Forall₂ Spells groups.flatten keys ∧ (∀ key ∈ keys, Params.IsEntry key.column) ∧
      (keys.map column).Nodup ∧ readAll (params.getSplit Request.orderKey) = .ok keys) ∧
    let entries : List String := ["y : DESC :DESC", "id"]
    let found : List SortKey := [⟨"y : DESC", .descending⟩, ⟨"id", .ascending⟩]
    readAll entries = .ok found ∧ (List.Forall₂ Reads entries found ∧ (found.map column).Nodup) ∧
      found.length = entries.length ∧ ∀ key ∈ found, key.column ≠ "" := by
  intro params groups keys
  have hvalues : params.getAll Request.orderKey = groups.map (String.intercalate ",") := by decide
  have hnone : ∀ c ∈ [], Text.isBlank c = true := nofun
  have hspace : ∀ c ∈ [' '], Text.isBlank c = true := List.forall_mem_singleton.2 (by decide)
  have htab : ∀ c ∈ ['\t'], Text.isBlank c = true := List.forall_mem_singleton.2 (by decide)
  have hspells : List.Forall₂ Spells groups.flatten keys :=
    .cons (.directed (.blanks _ _ hspace hspace (by decide)))
      (.cons (.directed (.blanks _ _ hnone htab (by decide)))
        (.cons (.bare (by decide) (.blanks _ _ hnone hspace (by decide))) .nil))
  have hcolumns : ∀ key ∈ keys, Params.IsEntry key.column := by decide
  have hnodup : (keys.map column).Nodup := by decide
  obtain ⟨hspelled, hentries⟩ := readAll_of_spells
  refine ⟨⟨hvalues, hspells, hcolumns, hnodup, hspelled params groups keys hvalues hspells hcolumns
    hnodup⟩, ?_⟩
  intro entries found
  have hfound : readAll entries = .ok found := by decide
  exact ⟨hfound, (hentries entries found).1.1 hfound, (hentries entries found).2 hfound⟩

end SortKey

end TableQuery
