/-!
# Maps from names

Finite maps from names, listed in ascending order of the names. A name is listed once: the ascending
order is part of the type. Two maps with the same entries under every name are equal.
-/

namespace TableQuery

/-- A finite map from names, in ascending order. -/
structure NameMap (α : Type) where
  entries : List (String × α)
  ascending : entries.Pairwise fun a b => a.1 < b.1

namespace NameMap

variable {α : Type}

/-- The map without entries. -/
def empty : NameMap α := ⟨[], .nil⟩

/-- Place an entry, replacing one of the same name. -/
def place (name : String) (value : α) : List (String × α) → List (String × α)
  | [] => [(name, value)]
  | entry :: rest =>
    if name < entry.1 then (name, value) :: entry :: rest
    else if name = entry.1 then (name, value) :: rest
    else entry :: place name value rest

/-- Placing adds only the given name. -/
theorem mem_place {name : String} {value : α} {entries : List (String × α)} {entry : String × α}
    (h : entry ∈ place name value entries) : entry = (name, value) ∨ entry ∈ entries := by
  induction entries with
  | nil => simpa [place] using h
  | cons first rest ih =>
    simp only [place] at h
    split at h
    · simpa using h
    · split at h
      · rcases List.mem_cons.1 h with h | h <;> simp [h]
      · rcases List.mem_cons.1 h with h | h
        · simp [h]
        · rcases ih h with h | h <;> simp [h]

/-- Placing keeps the ascending order. -/
theorem pairwise_place {name : String} {value : α} {entries : List (String × α)}
    (h : entries.Pairwise fun a b => a.1 < b.1) :
    (place name value entries).Pairwise fun a b => a.1 < b.1 := by
  induction entries with
  | nil => simp [place]
  | cons first rest ih =>
    obtain ⟨hfirst, hrest⟩ := List.pairwise_cons.1 h
    simp only [place]
    split
    next hlt =>
      refine List.pairwise_cons.2 ⟨fun entry hentry => ?_, h⟩
      rcases List.mem_cons.1 hentry with rfl | hentry
      · exact hlt
      · exact String.lt_trans hlt (hfirst entry hentry)
    next hlt =>
      split
      next heq => exact List.pairwise_cons.2 ⟨fun entry hentry => heq ▸ hfirst entry hentry, hrest⟩
      next hne =>
        refine List.pairwise_cons.2 ⟨fun entry hentry => ?_, ih hrest⟩
        rcases mem_place hentry with rfl | hentry
        · exact Std.lt_of_le_of_ne (String.not_lt.1 hlt) (Ne.symm hne)
        · exact hfirst entry hentry

/-- Add an entry, or replace the one of the same name. -/
def insert (m : NameMap α) (name : String) (value : α) : NameMap α :=
  ⟨place name value m.entries, pairwise_place m.ascending⟩

/-- The entries in the given order, a later one replacing an earlier one of the same name. -/
def ofList (entries : List (String × α)) : NameMap α :=
  entries.foldl (fun m entry => m.insert entry.1 entry.2) empty

/-- The value under a name. -/
def get? (m : NameMap α) (name : String) : Option α := m.entries.lookup name

/-- The names, ascending. -/
def names (m : NameMap α) : List String := m.entries.map Prod.fst

/-- The values in the order of their names. -/
def values (m : NameMap α) : List α := m.entries.map Prod.snd

/-- Change the value under a name, if there is one. -/
def modify (m : NameMap α) (name : String) (change : α → α) : NameMap α :=
  ⟨m.entries.map fun entry => if entry.1 = name then (entry.1, change entry.2) else entry, by
    refine List.pairwise_map.2 (m.ascending.imp ?_)
    intro a b hab
    split <;> split <;> exact hab⟩

/-- Looking up after placing. -/
theorem lookup_place (name other : String) (value : α) (entries : List (String × α)) :
    (place name value entries).lookup other =
      if other = name then some value else entries.lookup other := by
  induction entries with
  | nil =>
    by_cases h : other = name
    · simp [place, h]
    · simp [place, h, List.lookup_cons, beq_false_of_ne h]
  | cons first rest ih =>
    obtain ⟨key, current⟩ := first
    simp only [place]
    split
    next =>
      by_cases h : other = name
      · simp [h]
      · simp [h, List.lookup_cons, beq_false_of_ne h]
    next =>
      split
      next heq =>
        subst heq
        by_cases h : other = name
        · simp [h]
        · simp [h, List.lookup_cons, beq_false_of_ne h]
      next hne =>
        simp only [List.lookup_cons, ih]
        by_cases h : other = name
        · subst h; simp [beq_false_of_ne hne]
        · simp [h]

/-- An inserted value is found under its name, and every other name keeps its value. -/
theorem get?_insert (m : NameMap α) (name other : String) (value : α) :
    (m.insert name value).get? other = if other = name then some value else m.get? other :=
  lookup_place name other value m.entries

/-- Looking up after a change of the values under one name. -/
theorem lookup_modify (name other : String) (change : α → α) (entries : List (String × α)) :
    (entries.map fun entry => if entry.1 = name then (entry.1, change entry.2) else entry).lookup
        other =
      if other = name then (entries.lookup other).map change else entries.lookup other := by
  induction entries with
  | nil => simp
  | cons first rest ih =>
    obtain ⟨key, current⟩ := first
    by_cases hkey : key = name
    · subst hkey
      by_cases h : other = key
      · simp [h]
      · simpa [h, List.lookup_cons, beq_false_of_ne h] using ih
    · by_cases h : other = key
      · simp [h, hkey]
      · simpa [hkey, List.lookup_cons, beq_false_of_ne h] using ih

/-- A changed value is found changed under its name, and every other name keeps its value. -/
theorem get?_modify (m : NameMap α) (name other : String) (change : α → α) :
    (m.modify name change).get? other =
      if other = name then (m.get? other).map change else m.get? other :=
  lookup_modify name other change m.entries

/-- What is found under a name is one of the values. -/
theorem mem_values_of_get? {m : NameMap α} {name : String} {value : α}
    (h : m.get? name = some value) : value ∈ m.values := by
  obtain ⟨before, after, hentries, _⟩ := List.lookup_eq_some_iff.1 h
  simp [values, hentries]

/-- The names of a map are those under which something is found. -/
theorem mem_names_iff {m : NameMap α} {name : String} : name ∈ m.names ↔ (m.get? name).isSome := by
  rw [names, get?, List.lookup_isSome_iff, List.mem_map]
  constructor
  · intro ⟨entry, hentry, hname⟩
    exact ⟨entry, hentry, by simp [hname]⟩
  · intro ⟨entry, hentry, hname⟩
    exact ⟨entry, hentry, (beq_iff_eq.1 hname).symm⟩

/-- Inserting entries of other names changes nothing under a name. -/
theorem get?_foldl_insert_of_notMem {name : String} {entries : List (String × α)} (m : NameMap α)
    (h : name ∉ entries.map Prod.fst) :
    (entries.foldl (fun m entry => m.insert entry.1 entry.2) m).get? name = m.get? name := by
  induction entries generalizing m with
  | nil => rfl
  | cons first rest ih =>
    rw [List.map_cons, List.mem_cons, not_or] at h
    rw [List.foldl_cons, ih _ h.2, get?_insert, if_neg h.1]

/-- Under a name without an entry there is nothing. -/
theorem get?_ofList_of_notMem {name : String} {entries : List (String × α)}
    (h : name ∉ entries.map Prod.fst) : (ofList entries).get? name = none :=
  get?_foldl_insert_of_notMem empty h

/-- Every entry is found under its name, if the names are distinct. -/
theorem get?_ofList_of_mem {entries : List (String × α)} (hnodup : (entries.map Prod.fst).Nodup)
    {entry : String × α} (h : entry ∈ entries) : (ofList entries).get? entry.1 = some entry.2 := by
  unfold ofList
  generalize (empty : NameMap α) = m
  induction entries generalizing m with
  | nil => contradiction
  | cons first rest ih =>
    rw [List.map_cons, List.nodup_cons] at hnodup
    rw [List.foldl_cons]
    rcases List.mem_cons.1 h with heq | h
    · rw [heq, get?_foldl_insert_of_notMem _ hnodup.1, get?_insert, if_pos rfl]
    · exact ih hnodup.2 h _

/-- Under a name of a list of entries stands the last value of that name. -/
theorem get?_ofList (entries : List (String × α)) (name : String) :
    (ofList entries).get? name = entries.reverse.lookup name := by
  have hinsert (m : NameMap α) : (entries.foldl (fun m entry => m.insert entry.1 entry.2) m).get? name =
      (entries.reverse.lookup name).or (m.get? name) := by
    induction entries generalizing m with
    | nil => rfl
    | cons first rest ih =>
      obtain ⟨key, value⟩ := first
      rw [List.foldl_cons, ih, get?_insert, List.reverse_cons, List.lookup_append, Option.or_assoc]
      by_cases h : name = key
      · simp [h]
      · simp [h, List.lookup_cons, beq_false_of_ne h]
  rw [ofList, hinsert]
  exact Option.or_none

/-- The names of a map of entries are the names of the entries. -/
theorem mem_names_ofList {entries : List (String × α)} (hnodup : (entries.map Prod.fst).Nodup)
    {name : String} : name ∈ (ofList entries).names ↔ name ∈ entries.map Prod.fst := by
  rw [mem_names_iff]
  constructor
  · intro h
    by_cases hmem : name ∈ entries.map Prod.fst
    · exact hmem
    · simp [get?_ofList_of_notMem hmem] at h
  · intro h
    obtain ⟨entry, hentry, rfl⟩ := List.mem_map.1 h
    rw [get?_ofList_of_mem hnodup hentry]
    rfl

/-- An entry whose name comes after all others is placed at the end. -/
theorem place_of_forall_lt {name : String} {value : α} {entries : List (String × α)}
    (h : ∀ entry ∈ entries, entry.1 < name) : place name value entries = entries ++ [(name, value)] := by
  induction entries with
  | nil => rfl
  | cons first rest ih =>
    have hfirst := h first List.mem_cons_self
    have hrest := ih fun entry hentry => h entry (List.mem_cons_of_mem first hentry)
    have hne : name ≠ first.1 := fun heq => String.lt_irrefl name (heq ▸ hfirst)
    rw [place, if_neg (String.lt_asymm hfirst), if_neg hne, hrest, List.cons_append]

/-- Entries in ascending order that come after those of a map are inserted at its end. -/
theorem entries_foldl_insert {entries : List (String × α)} (m : NameMap α)
    (h : (m.entries ++ entries).Pairwise fun a b => a.1 < b.1) :
    (entries.foldl (fun m entry => m.insert entry.1 entry.2) m).entries = m.entries ++ entries := by
  induction entries generalizing m with
  | nil => simp
  | cons first rest ih =>
    have hlast : ∀ entry ∈ m.entries, entry.1 < first.1 := fun entry hentry =>
      (List.pairwise_append.1 h).2.2 entry hentry first List.mem_cons_self
    have hinsert : (m.insert first.1 first.2).entries = m.entries ++ [first] :=
      place_of_forall_lt hlast
    rw [List.append_cons, ← hinsert] at h
    rw [List.foldl_cons, ih _ h, hinsert, List.append_assoc, List.singleton_append]

/-- Maps with the same entries are the same. -/
theorem eq_of_entries_eq {m other : NameMap α} (h : m.entries = other.entries) : m = other := by
  cases m
  cases other
  cases h
  rfl

/-- Changing the value under a name without one changes nothing. -/
theorem modify_of_get?_eq_none {m : NameMap α} {name : String} (h : m.get? name = none)
    (change : α → α) : m.modify name change = m := by
  have hother : ∀ entry ∈ m.entries, entry.1 ≠ name := fun entry hentry heq => by
    simpa [heq] using List.lookup_eq_none_iff.1 h entry hentry
  refine eq_of_entries_eq ((List.map_congr_left fun entry hentry => ?_).trans (List.map_id _))
  exact if_neg (hother entry hentry)

/-- A map is the map of its entries. -/
theorem ofList_entries (m : NameMap α) : ofList m.entries = m :=
  eq_of_entries_eq (entries_foldl_insert empty m.ascending)

/-- A value of a map is found under some name. -/
theorem mem_values_iff {m : NameMap α} {value : α} :
    value ∈ m.values ↔ ∃ name, m.get? name = some value := by
  constructor
  · intro h
    obtain ⟨entry, hentry, rfl⟩ := List.mem_map.1 h
    have hnodup : (m.entries.map Prod.fst).Nodup :=
      List.pairwise_map.2 (m.ascending.imp Std.ne_of_lt)
    refine ⟨entry.1, ?_⟩
    rw [← ofList_entries m]
    exact get?_ofList_of_mem hnodup hentry
  · intro h
    obtain ⟨name, h⟩ := h
    exact mem_values_of_get? h

end NameMap

end TableQuery
