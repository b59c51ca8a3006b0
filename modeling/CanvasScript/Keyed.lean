/-
Lists of entries with distinct keys, in the order in which the keys came in.

Inserting under a key that is present replaces its value where it stands; a new key goes
to the end. Objects of the script language, variable bindings, command tables and drawing
targets are all lists of this kind. Objects show their order when they are drawn and when
they are compared; the others only use look-up and size, and for them the order is simply
one that the answers never show.

That the keys are distinct is part of the type, so a look-up is not only the first entry
with its key but the only one.
-/

set_option autoImplicit false

namespace CanvasScript

/-! ## Entry lists -/

namespace Entries

/-- Replaces the value of the first entry with a key, or adds the entry at the end. -/
def put {α : Type} (key : String) (value : α) : List (String × α) → List (String × α)
  | [] => [(key, value)]
  | (k, v) :: rest => if k = key then (key, value) :: rest else (k, v) :: put key value rest

/-- The keys after a replacement or an addition: unchanged, or with the new key last. -/
theorem keys_put {α : Type} (key : String) (value : α) (entries : List (String × α)) :
    (put key value entries).map Prod.fst =
      if key ∈ entries.map Prod.fst then entries.map Prod.fst
      else entries.map Prod.fst ++ [key] := by
  induction entries with
  | nil => simp [put]
  | cons entry rest ih =>
    obtain ⟨k, v⟩ := entry
    by_cases hk : k = key
    · subst hk
      simp [put]
    · have hne : ¬ key = k := fun h => hk h.symm
      by_cases hmem : key ∈ rest.map Prod.fst
      · simp only [put, if_neg hk, List.map_cons, ih, if_pos hmem, List.mem_cons, hne,
          false_or]
      · simp only [put, if_neg hk, List.map_cons, ih, if_neg hmem, List.mem_cons, hne,
          false_or, List.cons_append]

theorem nodup_keys_put {α : Type} (key : String) (value : α) {entries : List (String × α)}
    (h : (entries.map Prod.fst).Nodup) : ((put key value entries).map Prod.fst).Nodup := by
  rw [keys_put]
  by_cases hmem : key ∈ entries.map Prod.fst
  · rw [if_pos hmem]
    exact h
  · rw [if_neg hmem, List.nodup_append]
    refine ⟨h, by simp, ?_⟩
    intro a ha b hb
    rw [List.mem_singleton] at hb
    subst hb
    intro heq
    exact hmem (heq ▸ ha)

/-- The entries after a replacement or an addition are the new one and earlier ones. -/
theorem mem_put {α : Type} {key : String} {value : α} {entries : List (String × α)}
    {entry : String × α} (h : entry ∈ put key value entries) :
    entry = (key, value) ∨ entry ∈ entries := by
  induction entries with
  | nil => exact .inl (List.mem_singleton.1 h)
  | cons first rest ih =>
    obtain ⟨k, v⟩ := first
    rw [put] at h
    split at h
    · rcases List.mem_cons.1 h with hnew | hrest
      · exact .inl hnew
      · exact .inr (List.mem_cons_of_mem _ hrest)
    · rcases List.mem_cons.1 h with rfl | hmore
      · exact .inr List.mem_cons_self
      · exact (ih hmore).imp_right (List.mem_cons_of_mem _)

/-- An entry with another key is passed over. -/
theorem lookup_cons_of_ne {α : Type} {key other : String} (value : α)
    (entries : List (String × α)) (h : other ≠ key) :
    List.lookup other ((key, value) :: entries) = entries.lookup other := by
  rw [List.lookup_cons, beq_false_of_ne h]

/-- The value found under a key after a replacement or an addition. -/
theorem lookup_put {α : Type} (key other : String) (value : α) (entries : List (String × α)) :
    (put key value entries).lookup other =
      if other = key then some value else entries.lookup other := by
  induction entries with
  | nil =>
    by_cases h : other = key
    · rw [put, h, List.lookup_cons_self, if_pos rfl]
    · rw [put, lookup_cons_of_ne value [] h, if_neg h]
  | cons entry rest ih =>
    obtain ⟨k, v⟩ := entry
    by_cases hk : k = key
    · rw [put, if_pos hk]
      by_cases h : other = key
      · rw [h, List.lookup_cons_self, if_pos rfl]
      · rw [lookup_cons_of_ne value rest h, if_neg h, lookup_cons_of_ne v rest (hk ▸ h)]
    · rw [put, if_neg hk]
      by_cases h : other = k
      · rw [h, List.lookup_cons_self, List.lookup_cons_self, if_neg hk]
      · rw [lookup_cons_of_ne v _ h, lookup_cons_of_ne v rest h, ih]

end Entries

/-! ## The type -/

/-- Entries with distinct keys, in the order in which their keys came in. -/
structure Keyed (α : Type) where
  entries : List (String × α)
  /-- No key occurs twice. -/
  distinct : (entries.map Prod.fst).Nodup
  deriving DecidableEq

namespace Keyed

variable {α : Type}

def empty : Keyed α := ⟨[], List.nodup_nil⟩

instance : Inhabited (Keyed α) := ⟨empty⟩

def get? (table : Keyed α) (key : String) : Option α := table.entries.lookup key

def keys (table : Keyed α) : List String := table.entries.map Prod.fst

def size (table : Keyed α) : Nat := table.entries.length

def isEmpty (table : Keyed α) : Bool := table.entries.isEmpty

def contains (table : Keyed α) (key : String) : Bool := (table.get? key).isSome

/-- Replaces the value under a key where it stands, or adds an entry at the end. -/
def insert (table : Keyed α) (key : String) (value : α) : Keyed α :=
  ⟨Entries.put key value table.entries, Entries.nodup_keys_put key value table.distinct⟩

def erase (table : Keyed α) (key : String) : Keyed α :=
  ⟨table.entries.filter fun entry => entry.1 != key,
    List.Nodup.sublist (List.Sublist.map _ List.filter_sublist) table.distinct⟩

def insertAll (table : Keyed α) (entries : List (String × α)) : Keyed α :=
  entries.foldl (fun grown entry => grown.insert entry.1 entry.2) table

/-- The entries inserted one after the other into an empty table. -/
def ofList (entries : List (String × α)) : Keyed α := empty.insertAll entries

@[simp] theorem get?_empty (key : String) : (empty : Keyed α).get? key = none := rfl

/-- An insertion is seen under its own key and under no other. -/
@[simp] theorem get?_insert (table : Keyed α) (key other : String) (value : α) :
    (table.insert key value).get? other = if other = key then some value else table.get? other :=
  Entries.lookup_put key other value table.entries

/-- What is found under a key is an entry with that key. -/
theorem mem_entries_of_get? {table : Keyed α} {key : String} {value : α}
    (h : table.get? key = some value) : (key, value) ∈ table.entries := by
  obtain ⟨before, after, hentries, -⟩ := List.lookup_eq_some_iff.1 h
  rw [hentries]
  exact List.mem_append_right _ List.mem_cons_self

/-- A new key comes last, and a present one stays where it is. -/
theorem keys_insert (table : Keyed α) (key : String) (value : α) :
    (table.insert key value).keys =
      if key ∈ table.keys then table.keys else table.keys ++ [key] :=
  Entries.keys_put key value table.entries

/-- An insertion at the end of a list of insertions is the last one. -/
theorem insertAll_concat (table : Keyed α) (entries : List (String × α)) (entry : String × α) :
    table.insertAll (entries ++ [entry]) = (table.insertAll entries).insert entry.1 entry.2 := by
  rw [insertAll, List.foldl_append]
  rfl

/-- What is in a table after insertions was in it before or is one of them. -/
theorem mem_entries_insertAll {table : Keyed α} {entries : List (String × α)}
    {entry : String × α} (h : entry ∈ (table.insertAll entries).entries) :
    entry ∈ table.entries ∨ entry ∈ entries := by
  induction entries generalizing table with
  | nil => exact .inl h
  | cons first rest ih =>
    rcases ih h with hinserted | hrest
    · rcases Entries.mem_put hinserted with rfl | hold
      · exact .inr List.mem_cons_self
      · exact .inl hold
    · exact .inr (List.mem_cons_of_mem _ hrest)

theorem mem_of_mem_entries_ofList {entries : List (String × α)} {entry : String × α}
    (h : entry ∈ (ofList entries).entries) : entry ∈ entries :=
  (mem_entries_insertAll h).resolve_left List.not_mem_nil

end Keyed

end CanvasScript
