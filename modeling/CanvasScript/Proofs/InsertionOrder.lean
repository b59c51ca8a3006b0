/-
Objects as maps that keep the order of their keys.

An insertion of an object into an object is refused, and then nothing has changed. All others are
accepted. So what an object holds after a sequence of insertions is what the accepted ones put into
it: each key once, in the place of its first insertion and with the value of its last.

The keys of an object are distinct by its type, whatever it is made from. What has to be said is
which keys these are and in which order they stand, and that an insertion under a key that is
present is seen at this key and nowhere else.
-/
import CanvasScript.Proofs.ObjectText
import Mathlib.Data.Finset.Card

set_option autoImplicit false

namespace CanvasScript

/-! ## Replacing in place -/

/-- A key that is present keeps its place, and the entries around it are not touched. Only its value
is another one, so the order of keys is that in which they came first. -/
theorem Entries.put_of_mem {α : Type} {key : String} (value : α) {entries : List (String × α)}
    (hdistinct : (entries.map Prod.fst).Nodup) (hmem : key ∈ entries.map Prod.fst) :
    put key value entries =
      entries.map fun entry => if entry.1 = key then (key, value) else entry := by
  induction entries with
  | nil => exact absurd hmem List.not_mem_nil
  | cons entry rest ih =>
    obtain ⟨k, v⟩ := entry
    rw [List.map_cons, List.nodup_cons] at hdistinct
    obtain ⟨hfirst, hrest⟩ := hdistinct
    rw [put, List.map_cons]
    -- keys are distinct, so only one entry is replaced
    by_cases hk : k = key
    · -- the key is not among the later ones, so the rest is mapped to itself
      have hsame : ∀ entry ∈ rest, (if entry.1 = key then (key, value) else entry) = entry := by
        intro entry hentry
        refine if_neg fun heq => hfirst ?_
        exact List.mem_map.2 ⟨entry, hentry, heq.trans hk.symm⟩
      rw [if_pos hk, if_pos hk, List.map_congr_left hsame, List.map_id']
    · rw [if_neg hk, if_neg hk, ih hrest]
      exact (List.mem_cons.1 hmem).resolve_left (Ne.symm hk)

/-- There are as many entries as there are different keys. -/
theorem Keyed.size_ofList {α : Type} (entries : List (String × α)) :
    (ofList entries).size = (entries.map Prod.fst).toFinset.card := by
  have hkeys := keys_ofList entries
  have hmembers : (ofList entries).keys.toFinset = (entries.map Prod.fst).toFinset := by
    ext key
    rw [hkeys, List.mem_toFinset, List.mem_toFinset, List.mem_eraseDups]
  have hcard : (ofList entries).keys.toFinset.card = (ofList entries).keys.length :=
    List.toFinset_card_of_nodup (ofList entries).distinct
  rw [← hmembers, hcard, keys, List.length_map, size]

/-! ## Sequences of insertions -/

/-- A key, and a value to insert under it. -/
structure Insertion where
  key : String
  value : Value
  deriving DecidableEq

namespace Insertion

/-- The entry that an insertion makes, unless it is refused. -/
def entry? (i : Insertion) : Option (String × Scalar) := i.value.scalar?.map fun s => (i.key, s)

/-- The entries of the insertions that are not refused, in their order. -/
def accepted (insertions : List Insertion) : List (String × Scalar) := insertions.filterMap entry?

end Insertion

namespace FlatObject

/-- The object after an insertion: as it was, if that is refused. -/
def afterInsertion (o : FlatObject) (i : Insertion) : FlatObject :=
  (FlatObject.insert? o i.key i.value).getD o

/-- The object that a sequence of insertions makes of the empty one. -/
def ofInsertions (insertions : List Insertion) : FlatObject :=
  insertions.foldl afterInsertion .empty

theorem afterInsertion_of_entry? (o : FlatObject) (i : Insertion) :
    afterInsertion o i =
      match i.entry? with
      | some entry => o.insert entry.1 entry.2
      | none => o := by
  obtain ⟨key, value⟩ := i
  cases value with
  | scalar s => rfl
  | object inner => rfl

/-- Only the accepted insertions are seen in the end. One that is refused leaves the object as it
is, and those after it go on from there. -/
theorem foldl_afterInsertion (o : FlatObject) (insertions : List Insertion) :
    insertions.foldl afterInsertion o = o.insertAll (Insertion.accepted insertions) := by
  induction insertions generalizing o with
  | nil => rfl
  | cons i rest ih =>
    rw [List.foldl_cons, ih, afterInsertion_of_entry?]
    rcases hentry : i.entry? with _ | entry
    · rw [Insertion.accepted, Insertion.accepted, List.filterMap_cons_none hentry]
    · rw [Insertion.accepted, Insertion.accepted, List.filterMap_cons_some hentry]
      rfl

theorem ofInsertions_eq (insertions : List Insertion) :
    ofInsertions insertions = .ofList (Insertion.accepted insertions) :=
  foldl_afterInsertion .empty insertions

/-! ## The map that an object is -/

/-- What an object holds that was made from given entries, put in one after the other. -/
structure IsMapOf (o : FlatObject) (entries : List (String × Scalar)) : Prop where
  keys_distinct : o.keys.Nodup
  /-- Keys stand where they came in first. -/
  keys_eq : o.keys = (entries.map Prod.fst).eraseDups
  /-- Of the entries with one key, the last one counts. -/
  get?_eq : ∀ key, o.get? key = entries.reverse.lookup key
  size_eq : o.size = (entries.map Prod.fst).toFinset.card

/-- How an object takes an insertion. -/
structure Takes (o : FlatObject) (i : Insertion) : Prop where
  /-- Refused are just the objects. -/
  refused_iff : FlatObject.insert? o i.key i.value = none ↔ i.value.kind = .object
  of_refused : FlatObject.insert? o i.key i.value = none → afterInsertion o i = o
  /-- Under a key that is present, only the value there is another one. -/
  of_present : ∀ s, i.value = .scalar s → i.key ∈ o.keys →
    (afterInsertion o i).keys = o.keys ∧
      (afterInsertion o i).entries =
        o.entries.map fun entry => if entry.1 = i.key then (i.key, s) else entry

theorem takes (o : FlatObject) (i : Insertion) : Takes o i := by
  refine ⟨insert?_eq_none_iff o i.key i.value, fun hrefused => ?_, fun s hvalue hmem => ?_⟩
  · rw [afterInsertion, hrefused, Option.getD_none]
  · have hafter : afterInsertion o i = o.insert i.key s := by
      rw [afterInsertion, hvalue]
      rfl
    rw [hafter]
    exact ⟨(o.keys_insert i.key s).trans (if_pos hmem), Entries.put_of_mem s o.distinct hmem⟩

/-- **After any insertions, an object is the map that the accepted ones make, in the order of its
keys' first insertions, and takes the next insertion as such a map does.** -/
theorem insertions_ordered (insertions : List Insertion) (next : Insertion) :
    IsMapOf (ofInsertions insertions) (Insertion.accepted insertions) ∧
      Takes (ofInsertions insertions) next := by
  refine ⟨?_, takes _ next⟩
  rw [ofInsertions_eq]
  exact ⟨Keyed.distinct _, Keyed.keys_ofList _, Keyed.get?_ofList _, Keyed.size_ofList _⟩

/-- A refused object between two insertions under one key. -/
example :
    (ofInsertions [⟨"b", .boolean true⟩, ⟨"a", .string "x"⟩, ⟨"c", .object .empty⟩,
      ⟨"b", .string "y"⟩]).entries = [("b", .string "y"), ("a", .string "x")] := by
  decide

end FlatObject

end CanvasScript
