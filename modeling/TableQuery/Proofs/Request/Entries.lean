import TableQuery.Proofs.Calendar.RoundTrip
import TableQuery.Proofs.Request.Keys
import TableQuery.Proofs.Request.Texts
import TableQuery.Proofs.Text.Trimming

/-!
# Writing entries

The order and the relationships of a request are lists of entries, which stand between commas and
under one key as often as wanted. Entries that hold no comma and have no blanks at their ends are read
back as they are, however they are grouped. A sort key is written as its column, a colon and its
direction, and read back as well. A request of nothing else has no filters and no window.
-/

namespace TableQuery

namespace Params

/-- A text that can be an entry: it is not empty, holds no comma, and has no blanks at its ends. -/
structure IsEntry (text : String) : Prop where
  ne_nil : text.toList ≠ []
  no_comma : ',' ∉ text.toList
  head : text.toList.head?.any Text.isBlank = false
  last : text.toList.getLast?.any Text.isBlank = false

instance (text : String) : Decidable (IsEntry text) :=
  decidable_of_iff (text.toList ≠ [] ∧ ',' ∉ text.toList ∧
      text.toList.head?.any Text.isBlank = false ∧ text.toList.getLast?.any Text.isBlank = false)
    ⟨fun h => ⟨h.1, h.2.1, h.2.2.1, h.2.2.2⟩, fun h => ⟨h.ne_nil, h.no_comma, h.head, h.last⟩⟩

/-- Entries in groups, each of them the value of one pair with commas between its entries. -/
def grouped (key : String) (groups : List (List String)) : Params :=
  ⟨groups.map fun entries => (key, String.intercalate "," entries)⟩

/-- A text with commas between other texts has the entries of all of them. -/
theorem splitEntries_intercalate (texts : List String) :
    splitEntries (String.intercalate "," texts) = texts.flatMap splitEntries := by
  induction texts with
  | nil => rfl
  | cons first rest ih =>
    cases rest with
    | nil => simp
    | cons second rest =>
      have hchars : (String.intercalate "," (first :: second :: rest)).toList =
          first.toList ++ ',' :: (String.intercalate "," (second :: rest)).toList := by
        rw [String.intercalate_cons_cons, String.toList_append, String.toList_append,
          List.append_assoc]
        rfl
      have hsplit : (String.intercalate "," (first :: second :: rest)).toList.splitOn ',' =
          first.toList.splitOn ',' ++
            (String.intercalate "," (second :: rest)).toList.splitOn ',' := by
        rw [hchars, List.splitOn_eq_splitOnP, List.splitOn_eq_splitOnP, List.splitOn_eq_splitOnP]
        exact List.splitOnP_append_cons _ _ rfl
      rw [splitEntries, hsplit, List.map_append, List.filterMap_append]
      exact congrArg (splitEntries first ++ ·) ih

/-- A text without commas has what remains of it after trimming as its only entry. -/
theorem splitEntries_of_trimBlanks {text entry : String} (hcomma : ',' ∉ text.toList)
    (htrim : Text.trimBlanks text.toList = entry.toList) (hne : entry.toList ≠ []) :
    splitEntries text = [entry] := by
  rw [splitEntries, List.splitOn_eq_singleton hcomma]
  simp [htrim, hne]

/-- An entry is the only one of itself. -/
theorem IsEntry.splitEntries_eq {text : String} (h : IsEntry text) : splitEntries text = [text] :=
  splitEntries_of_trimBlanks h.no_comma (Text.trimBlanks_eq_self h.head h.last) h.ne_nil

/-- Entries are read back from their groups, one group after the other. -/
theorem getSplit_grouped {key : String} {groups : List (List String)}
    (h : ∀ entries ∈ groups, ∀ entry ∈ entries, IsEntry entry) :
    (grouped key groups).getSplit key = groups.flatten := by
  have hall : (grouped key groups).getAll key =
      groups.map fun entries => String.intercalate "," entries := by
    simp [grouped, getAll, List.filter_map, Function.comp_def]
  rw [getSplit, hall, List.flatMap_map, List.flatten_eq_flatMap]
  refine List.flatMap_congr fun entries hentries => ?_
  rw [splitEntries_intercalate,
    List.flatMap_congr fun entry hentry => (h entries hentries entry hentry).splitEntries_eq]
  exact List.flatMap_singleton' entries

/-- Entries under one key are no values of another. -/
theorem getAll_grouped_of_ne {key used : String} (groups : List (List String)) (h : used ≠ key) :
    (grouped key groups).getAll used = [] := by
  simp [grouped, getAll, List.filter_map, Function.comp_def, h.symm]

end Params

namespace SortKey

variable {key : SortKey} {keys : List SortKey}

/-- The entry of a sort key. -/
def entry (key : SortKey) : String := key.column ++ ":" ++ key.direction.literal

/-- The characters of an entry. -/
theorem toList_entry (key : SortKey) :
    key.entry.toList = key.column.toList ++ ':' :: key.direction.literal.toList := by
  rw [entry, String.toList_append, String.toList_append, List.append_assoc]
  rfl

/-- The entry of a sort key can be an entry when its column can. -/
theorem isEntry_entry (h : Params.IsEntry key.column) : Params.IsEntry key.entry := by
  have hlast (front : List Char) : (front ++ ':' :: key.direction.literal.toList).getLast? =
      key.direction.literal.toList.getLast? := by
    rw [List.getLast?_append]
    cases key.direction <;> rfl
  constructor
  · simp [toList_entry]
  · rw [toList_entry, List.mem_append, not_or]
    refine ⟨h.no_comma, ?_⟩
    cases key.direction <;> decide
  · rw [toList_entry, List.head?_append_of_ne_nil _ h.ne_nil]
    exact h.head
  · rw [toList_entry, hlast]
    cases key.direction <;> decide

/-- The entry of a sort key stands for the key. -/
theorem reads_entry (h : Params.IsEntry key.column) : Reads key.entry key := by
  have hreads : Reads key.entry ⟨String.ofList key.column.toList, key.direction⟩ :=
    .directed key.direction (toList_entry key) (Text.trimBlanks_eq_self h.head h.last) h.ne_nil
  rwa [String.ofList_toList] at hreads

/-- Sort keys of distinct columns are read back from their entries. -/
theorem readAll_map_entry (hentries : ∀ key ∈ keys, Params.IsEntry key.column)
    (hnodup : (keys.map column).Nodup) : readAll (keys.map entry) = .ok keys := by
  refine readAll_eq_ok_iff.2 ⟨?_, hnodup⟩
  rw [List.forall₂_map_left_iff, List.forall₂_same]
  exact fun key hkey => reads_entry (hentries key hkey)

end SortKey

/-- The parameters of an order, in groups. -/
def Params.ordered (groups : List (List SortKey)) : Params :=
  grouped Request.orderKey (groups.map fun keys => keys.map SortKey.entry)

example : Params.ordered [[⟨"born", .descending⟩, ⟨"id", .ascending⟩]] =
    ⟨[("order_by_columns", "born:DESC,id:ASC")]⟩ := by
  decide

namespace Request

variable {table : Table} {settings : Settings}

/-- A request of nothing but an order, or of nothing but relationships, is decoded to these. -/
theorem decode_grouped {key : String} {groups : List (List String)} {order : List SortKey}
    (hkey : key ∈ [orderKey, relationshipKey])
    (horder : SortKey.readAll ((Params.grouped key groups).getSplit orderKey) = .ok order) :
    decode (.grouped key groups) table settings = .ok ⟨[], ⟨Window.fallbackLimit settings, 0⟩, order,
      ((Params.grouped key groups).getSplit relationshipKey).eraseDups⟩ := by
  have hcolumns : decodeColumns (.grouped key groups) table.columns = .ok [] :=
    decodeColumns_of_absent fun column _ facet => Params.getAll_grouped_of_ne groups fun heq =>
      Facet.key_notMem_globalKeys facet column.name (heq ▸ mem_globalKeys_of_split hkey)
  have hnone : ∀ used ∈ [limitKey, offsetKey], (Params.grouped key groups).getAll used = [] :=
    fun used hused => Params.getAll_grouped_of_ne groups (ne_of_window_of_split hused hkey)
  have hwindow : decodeWindow (.grouped key groups) settings =
      .ok ⟨Window.fallbackLimit settings, 0⟩ := by
    rw [decodeWindow, Params.single, Params.single, hnone _ (by decide), hnone _ (by decide)]
    rfl
  rw [decode, hcolumns, hwindow, horder]
  rfl

/-- A request of one relationship. -/
theorem decode_relationship {name : String} (h : Params.IsEntry name) :
    decode ⟨[(relationshipKey, name)]⟩ table settings =
      .ok ⟨[], ⟨Window.fallbackLimit settings, 0⟩, [], [name]⟩ := by
  have hentry : ∀ entries ∈ [[name]], ∀ entry ∈ entries, Params.IsEntry entry := by simpa using h
  have hentries : (Params.grouped relationshipKey [[name]]).getSplit relationshipKey = [name] :=
    Params.getSplit_grouped hentry
  have hdecode : decode (.grouped relationshipKey [[name]]) table settings = _ :=
    decode_grouped (by decide) rfl
  rw [hentries] at hdecode
  exact hdecode

/-- A request of an order by distinct columns. -/
theorem decode_ordered {groups : List (List SortKey)}
    (h : ∀ key ∈ groups.flatten, Params.IsEntry key.column)
    (hnodup : (groups.flatten.map SortKey.column).Nodup) :
    decode (.ordered groups) table settings =
      .ok ⟨[], ⟨Window.fallbackLimit settings, 0⟩, groups.flatten, []⟩ := by
  have hentries : (Params.ordered groups).getSplit orderKey = groups.flatten.map SortKey.entry := by
    rw [Params.ordered, Params.getSplit_grouped, List.map_flatten]
    simp only [List.forall_mem_map]
    exact fun keys hkeys key hkey =>
      SortKey.isEntry_entry (h key (List.mem_flatten.2 ⟨keys, hkeys, hkey⟩))
  have hnone : (Params.ordered groups).getSplit relationshipKey = [] := by
    rw [Params.getSplit, Params.ordered, Params.getAll_grouped_of_ne _ (by decide), List.flatMap_nil]
  have hdecode : decode (.ordered groups) table settings = _ :=
    decode_grouped (by decide) (hentries ▸ SortKey.readAll_map_entry h hnodup)
  rw [← Params.ordered, hnone] at hdecode
  exact hdecode

end Request

end TableQuery
