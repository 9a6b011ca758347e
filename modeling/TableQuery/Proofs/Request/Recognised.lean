import Mathlib.Logic.Relation
import TableQuery.Proofs.Request.Entries
import TableQuery.Proofs.Schema.Soundness

/-!
# Recognised keys

A table recognises the keys of its columns and those of the whole request. What a request is decoded
to, or the fault that is reported, depends on the values under these keys only. Pairs under other keys
may therefore stand anywhere, and pairs under different keys in any order. The entries of an order, and
the relationships, may also be put into one value, with commas between them.
-/

namespace TableQuery

/-- Every facet is listed. -/
theorem Facet.mem_all (facet : Facet) : facet ∈ all := by
  cases facet <;> decide

/-- The keys that a table recognises: those of its columns, and those of the whole request. -/
def Table.recognised (table : Table) : List String :=
  table.columns.flatMap (fun column => Facet.all.map fun facet => facet.key column.name) ++
    Request.globalKeys

/-- The keys of a declared column are recognised. -/
theorem Table.key_mem_recognised {table : Table} {column : Column} (h : column ∈ table.columns)
    (facet : Facet) : facet.key column.name ∈ table.recognised :=
  List.mem_append_left _
    (List.mem_flatMap.2 ⟨column, h, List.mem_map_of_mem facet.mem_all⟩)

namespace Params

variable {params other inserted : Params} {key text used : String}

/-- The parameters under other keys. -/
def without (params : Params) (key : String) : Params :=
  ⟨params.pairs.filter fun pair => pair.1 ≠ key⟩

/-- No values are left under the key. -/
theorem getAll_without_self (params : Params) (key : String) :
    (params.without key).getAll key = [] := by
  simp [without, getAll, List.filter_filter]

/-- The values under all other keys are left. -/
theorem getAll_without_of_ne (params : Params) (h : used ≠ key) :
    (params.without key).getAll used = params.getAll used := by
  rw [getAll, getAll, without, List.filter_filter]
  refine congrArg (List.map Prod.snd) (List.filter_congr fun pair _ => ?_)
  by_cases hused : pair.1 = used
  · simp [hused, h]
  · simp [hused]

/-- Exchanging neighbours under different keys changes no values. -/
theorem getAll_exchange {first second : String × String} (h : first.1 ≠ second.1)
    (before after : List (String × String)) (key : String) :
    (⟨before ++ first :: second :: after⟩ : Params).getAll key =
      (⟨before ++ second :: first :: after⟩ : Params).getAll key := by
  simp only [getAll, List.filter_append, List.filter_cons, decide_eq_true_eq]
  by_cases hfirst : first.1 = key
  · have hsecond : second.1 ≠ key := fun heq => h (hfirst.trans heq.symm)
    simp only [if_pos hfirst, if_neg hsecond]
  · simp only [if_neg hfirst]

/-- One change of the parameters: a pair is put somewhere under a key that the table does not
recognise, neighbours under different keys are exchanged, or the values of the order, or those of the
relationships, are put into one, which stands anywhere. -/
inductive Rewrites (table : Table) : Params → Params → Prop
  | insert {key text : String} {params inserted : Params} (hkey : key ∉ table.recognised)
      (hinserts : Inserts key text params inserted) : Rewrites table params inserted
  | exchange {first second : String × String} (before after : List (String × String))
      (hne : first.1 ≠ second.1) :
      Rewrites table ⟨before ++ first :: second :: after⟩ ⟨before ++ second :: first :: after⟩
  | join {key : String} {params joined : Params}
      (hkey : key ∈ [Request.orderKey, Request.relationshipKey])
      (hinserts : Inserts key (String.intercalate "," (params.getAll key)) (params.without key)
        joined) : Rewrites table params joined

/-- Values that are put into one have the entries that they had, and the other values stay. -/
theorem getSplit_of_join
    (h : Inserts key (String.intercalate "," (params.getAll key)) (params.without key) other) :
    other.getSplit key = params.getSplit key ∧
      ∀ used, used ≠ key → other.getAll used = params.getAll used := by
  constructor
  · rw [getSplit, h.getAll_self (getAll_without_self params key), List.flatMap_singleton,
      splitEntries_intercalate, getSplit]
  · intro used hused
    rw [h.getAll_of_ne hused, getAll_without_of_ne params hused]

end Params

namespace Request

variable {params other : Params} {table : Table}

/-- Decoding depends on the values under the keys of the columns and of the window, and on the entries
of the order and of the relationships. -/
theorem decode_congr_of_getSplit
    (hcolumns : ∀ column ∈ table.columns, ∀ facet : Facet,
      params.getAll (facet.key column.name) = other.getAll (facet.key column.name))
    (hwindow : ∀ key ∈ [limitKey, offsetKey], params.getAll key = other.getAll key)
    (hentries : ∀ key ∈ [orderKey, relationshipKey], params.getSplit key = other.getSplit key)
    (settings : Settings) : decode params table settings = decode other table settings := by
  rw [decode, decode,
    decodeColumns_congr fun column hcolumn => decodeColumn_congr (hcolumns column hcolumn),
    decodeWindow_congr hwindow, hentries orderKey (by decide), hentries relationshipKey (by decide)]

/-- Decoding depends on the values under the recognised keys only. -/
theorem decode_congr (h : ∀ key ∈ table.recognised, params.getAll key = other.getAll key)
    (settings : Settings) : decode params table settings = decode other table settings := by
  have hglobal : ∀ key ∈ globalKeys, params.getAll key = other.getAll key :=
    fun key hkey => h key (List.mem_append_right _ hkey)
  refine decode_congr_of_getSplit
    (fun column hcolumn facet => h _ (Table.key_mem_recognised hcolumn facet))
    (fun key hkey => hglobal key (mem_globalKeys_of_window hkey))
    (fun key hkey => Params.getSplit_congr ?_) settings
  exact hglobal key (mem_globalKeys_of_split hkey)

/-- One change of the parameters leaves the outcome as it is. -/
theorem decode_of_rewrites (h : params.Rewrites table other) (settings : Settings) :
    decode params table settings = decode other table settings := by
  cases h with
  | insert hkey hinserts =>
    refine decode_congr (fun used hused => ?_) settings
    exact (hinserts.getAll_of_ne fun heq => hkey (heq ▸ hused)).symm
  | exchange before after hne =>
    exact decode_congr (fun used _ => Params.getAll_exchange hne before after used) settings
  | @join key _ _ hkey hinserts =>
    obtain ⟨hself, hothers⟩ := Params.getSplit_of_join hinserts
    refine decode_congr_of_getSplit (fun column _ facet => ?_) (fun used hused => ?_)
      (fun used _ => ?_) settings
    · exact (hothers (facet.key column.name) fun heq =>
        Facet.key_notMem_globalKeys facet column.name (heq ▸ mem_globalKeys_of_split hkey)).symm
    · exact (hothers used (ne_of_window_of_split hused hkey)).symm
    · by_cases hsame : used = key
      · exact hsame ▸ hself.symm
      · exact Params.getSplit_congr (hothers used hsame).symm

/-- A request, or the fault that is reported, depends on the values under the recognised keys only, and
stays the same under any number of changes and of their reversals. -/
theorem decode_eq_of_recognised (table : Table) (settings : Settings) :
    (∀ params other, (∀ key ∈ table.recognised, params.getAll key = other.getAll key) →
      decode params table settings = decode other table settings) ∧
    ∀ params other, Relation.EqvGen (Params.Rewrites table) params other →
      decode params table settings = decode other table settings := by
  refine ⟨fun params other h => decode_congr h settings, fun params other h => ?_⟩
  induction h with
  | rel params other hstep => exact decode_of_rewrites hstep settings
  | refl params => rfl
  | symm params other _ ih => exact ih.symm
  | trans params middle other _ _ hfirst hsecond => exact hfirst.trans hsecond

/-- An order in two values around a key that no column has, and the same order in one value. -/
theorem decode_eq_of_recognised_authors :
    let params : Params := ⟨[("order_by_columns", "name:DESC, born"), ("debug", "1"),
      ("id____from", "3"), ("order_by_columns", " id ")]⟩
    let plain : Params := ⟨[("order_by_columns", "name:DESC, born"), ("id____from", "3"),
      ("order_by_columns", " id ")]⟩
    let joined : Params := ⟨[("id____from", "3"), ("order_by_columns", "name:DESC, born, id ")]⟩
    let request : Request := {
      filters := [⟨"id", some ⟨some ⟨.greaterOrEqual, .integer 3⟩, none⟩, none, none⟩]
      order := [⟨"name", .descending⟩, ⟨"born", .ascending⟩, ⟨"id", .ascending⟩] }
    ((∀ key ∈ Registry.author.recognised, params.getAll key = plain.getAll key) ∧
      decode params Registry.author {} = decode plain Registry.author {}) ∧
    Relation.EqvGen (Params.Rewrites Registry.author) params joined ∧
      decode params Registry.author {} = decode joined Registry.author {} ∧
      decode joined Registry.author {} = .ok request := by
  intro params plain joined request
  have hsame : ∀ key ∈ Registry.author.recognised, params.getAll key = plain.getAll key := by decide
  have hinsert : Params.Rewrites Registry.author plain params :=
    .insert (by decide) (.among [("order_by_columns", "name:DESC, born")] _)
  have horder : orderKey ∈ [orderKey, relationshipKey] := by decide
  have hjoin : Params.Rewrites Registry.author plain joined :=
    .join horder (.among [("id____from", "3")] [])
  have hrewrites : Relation.EqvGen (Params.Rewrites Registry.author) params joined :=
    .trans _ _ _ (.symm _ _ (.rel _ _ hinsert)) (.rel _ _ hjoin)
  obtain ⟨hvalues, hchanges⟩ := decode_eq_of_recognised Registry.author {}
  exact ⟨⟨hsame, hvalues params plain hsame⟩, hrewrites, hchanges params joined hrewrites, by decide⟩

end Request

end TableQuery
