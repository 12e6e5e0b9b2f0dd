/-! # Insertion-ordered entries

A table from text keys to values that remembers the order in which its keys were first inserted.
Inserting at a key that is there replaces its value and keeps its place. The laws of such a table
are an interface, `OrderedMap`, on the list of its entries: insertion is `upsert` there and reading
is look-up. `Entries` is the table that runs, an array; what is proved of it later rests on the laws.
-/

namespace ScriptCore

/-- A table from text keys to values in the order in which the keys were first inserted. -/
class OrderedMap (Map : Type) (α : outParam Type) where
  empty : Map
  toList : Map → List (String × α)
  get? : Map → String → Option α
  insert : Map → String → α → Map
  filterKeys : Map → (String → Bool) → Map
  keys_nodup (map : Map) : ((toList map).map Prod.fst).Nodup
  toList_empty : toList empty = []
  get?_eq_lookup (map : Map) (key : String) : get? map key = (toList map).lookup key
  /-- Overwriting keeps the place of the key. -/
  toList_insert_of_mem {map : Map} {key : String} (value : α)
    (present : key ∈ (toList map).map Prod.fst) :
    toList (insert map key value) =
      (toList map).map fun entry => if entry.1 = key then (key, value) else entry
  /-- A new key goes to the end. -/
  toList_insert_of_new {map : Map} {key : String} (value : α)
    (absent : key ∉ (toList map).map Prod.fst) :
    toList (insert map key value) = toList map ++ [(key, value)]
  toList_filterKeys (map : Map) (keep : String → Bool) :
    toList (filterKeys map keep) = (toList map).filter fun entry => keep entry.1

/-- Replaces the value at `key` in a list of entries, or adds an entry at its end. -/
def upsert {α : Type} (key : String) (value : α) : List (String × α) → List (String × α)
  | [] => [(key, value)]
  | entry :: rest =>
    if entry.1 = key then (key, value) :: rest else entry :: upsert key value rest

theorem mem_keys_upsert {α : Type} (key : String) (value : α) (list : List (String × α))
    (other : String) :
    other ∈ (upsert key value list).map Prod.fst ↔ other = key ∨ other ∈ list.map Prod.fst := by
  induction list with
  | nil => simp [upsert]
  | cons entry rest ih =>
    by_cases same : entry.1 = key
    · simp [upsert, same]
    · simp [upsert, same, ih, or_left_comm]

theorem nodup_keys_upsert {α : Type} (key : String) (value : α) (list : List (String × α))
    (nodup : (list.map Prod.fst).Nodup) : ((upsert key value list).map Prod.fst).Nodup := by
  induction list with
  | nil => simp [upsert]
  | cons entry rest ih =>
    rw [List.map_cons, List.nodup_cons] at nodup
    by_cases same : entry.1 = key
    · simp only [upsert, same, if_true, List.map_cons, List.nodup_cons]
      exact ⟨same ▸ nodup.1, nodup.2⟩
    · simp only [upsert, same, if_false, List.map_cons, List.nodup_cons]
      refine ⟨fun member => ?_, ih nodup.2⟩
      rcases (mem_keys_upsert key value rest entry.1).mp member with equal | member
      · exact same equal
      · exact nodup.1 member

/-- Under distinct keys only the entry of the key is replaced. -/
theorem upsert_of_mem {α : Type} {key : String} (value : α) {list : List (String × α)}
    (distinct : (list.map Prod.fst).Nodup) (present : key ∈ list.map Prod.fst) :
    upsert key value list =
      list.map fun entry => if entry.1 = key then (key, value) else entry := by
  induction list with
  | nil => simp at present
  | cons entry rest ih =>
    rw [List.map_cons, List.nodup_cons] at distinct
    rw [upsert, List.map_cons]
    by_cases same : entry.1 = key
    · rw [if_pos same, if_pos same]
      have others : ∀ other ∈ rest, other.1 ≠ key := fun other isLater again =>
        distinct.1 (same.trans again.symm ▸ List.mem_map_of_mem isLater)
      refine congrArg _ ((List.map_congr_left fun other isLater => ?_).trans (List.map_id _)).symm
      exact if_neg (others other isLater)
    · rw [if_neg same, if_neg same]
      exact congrArg _ (ih distinct.2 ((List.mem_cons.mp present).resolve_left (Ne.symm same)))

/-- Inserting under a new key adds the entry at the end. -/
theorem upsert_of_new {α : Type} {key : String} (value : α) {list : List (String × α)}
    (absent : key ∉ list.map Prod.fst) : upsert key value list = list ++ [(key, value)] := by
  induction list with
  | nil => rfl
  | cons entry rest ih =>
    rw [List.map_cons, List.mem_cons, not_or] at absent
    simp [upsert, Ne.symm absent.1, ih absent.2]

/-- By its laws an ordered map inserts as the list of its entries does. -/
theorem OrderedMap.toList_insert {Map α : Type} [OrderedMap Map α] (map : Map) (key : String)
    (value : α) : toList (insert map key value) = upsert key value (toList map) := by
  by_cases present : key ∈ (toList map).map Prod.fst
  · rw [toList_insert_of_mem value present, upsert_of_mem value (keys_nodup map) present]
  · rw [toList_insert_of_new value present, upsert_of_new value present]

/-- Insertion by the place of the key. -/
theorem upsert_eq_set_or_append {α : Type} (key : String) (value : α) (list : List (String × α)) :
    upsert key value list =
      match list.findIdx? (·.1 == key) with
      | some index => list.set index (key, value)
      | none => list ++ [(key, value)] := by
  induction list with
  | nil => rfl
  | cons entry rest ih =>
    by_cases same : entry.1 = key
    · simp [upsert, same, List.findIdx?_cons]
    · simp only [upsert, same, if_false, ih, List.findIdx?_cons, beq_iff_eq]
      cases rest.findIdx? (·.1 == key) <;> simp

/-- Entries with distinct keys, in the order of their first insertion. -/
structure Entries (α : Type) where
  toArray : Array (String × α)
  keys_nodup : (toArray.toList.map Prod.fst).Nodup

namespace Entries

variable {α : Type}

/-- Replaces the value at `key` in an array of entries, or adds an entry at its end. -/
def upsertArray (key : String) (value : α) (entries : Array (String × α)) :
    Array (String × α) :=
  match entries.findIdx? (·.1 == key) with
  | some index => entries.setIfInBounds index (key, value)
  | none => entries.push (key, value)

theorem toList_upsertArray (key : String) (value : α) (entries : Array (String × α)) :
    (upsertArray key value entries).toList = upsert key value entries.toList := by
  rcases entries with ⟨list⟩
  rw [upsert_eq_set_or_append, upsertArray, List.findIdx?_toArray]
  cases list.findIdx? (·.1 == key) <;> simp

def empty : Entries α := ⟨#[], List.nodup_nil⟩

instance : Inhabited (Entries α) := ⟨empty⟩

/-- The entries in order. -/
def toList (entries : Entries α) : List (String × α) := entries.toArray.toList

def keys (entries : Entries α) : List String := entries.toList.map Prod.fst

def size (entries : Entries α) : Nat := entries.toArray.size

def isEmpty (entries : Entries α) : Bool := entries.toArray.isEmpty

def get? (entries : Entries α) (key : String) : Option α :=
  (entries.toArray.find? (·.1 == key)).map Prod.snd

def contains (entries : Entries α) (key : String) : Bool := (entries.get? key).isSome

def insert (entries : Entries α) (key : String) (value : α) : Entries α :=
  ⟨upsertArray key value entries.toArray, by
    rw [toList_upsertArray]; exact nodup_keys_upsert key value _ entries.keys_nodup⟩

theorem find?_eq_lookup (list : List (String × α)) (key : String) :
    (list.find? (·.1 == key)).map Prod.snd = list.lookup key := by
  induction list with
  | nil => rfl
  | cons entry rest ih =>
    rcases entry with ⟨first, value⟩
    by_cases same : first = key
    · simp [same]
    · have other : (key == first) = false := by simpa using Ne.symm same
      simp [List.lookup_cons, same, other, ih]

/-- Inserts the entries of a list, first to last. -/
def insertAll (entries : Entries α) (list : List (String × α)) : Entries α :=
  list.foldl (fun entries entry => entries.insert entry.1 entry.2) entries

def ofList (list : List (String × α)) : Entries α := empty.insertAll list

/-- Keeps the entries whose key passes the test, in order. -/
def filterKeys (entries : Entries α) (keep : String → Bool) : Entries α :=
  ⟨entries.toArray.filter fun entry => keep entry.1, by
    rw [Array.toList_filter]
    exact (List.filter_sublist.map Prod.fst).nodup entries.keys_nodup⟩

instance : OrderedMap (Entries α) α where
  empty := empty
  toList := toList
  get? := get?
  insert := insert
  filterKeys := filterKeys
  keys_nodup := keys_nodup
  toList_empty := rfl
  get?_eq_lookup entries key := by
    rw [get?, toList, ← Array.find?_toList, find?_eq_lookup]
  toList_insert_of_mem {entries} key value present :=
    (toList_upsertArray ..).trans (upsert_of_mem value entries.keys_nodup present)
  toList_insert_of_new value absent := (toList_upsertArray ..).trans (upsert_of_new value absent)
  toList_filterKeys _ _ := Array.toList_filter

@[simp] theorem toList_empty : (empty : Entries α).toList = [] :=
  @OrderedMap.toList_empty (Entries α) α _

@[simp] theorem toList_insert (entries : Entries α) (key : String) (value : α) :
    (entries.insert key value).toList = upsert key value entries.toList :=
  OrderedMap.toList_insert entries key value

theorem get?_eq_lookup (entries : Entries α) (key : String) :
    entries.get? key = entries.toList.lookup key :=
  OrderedMap.get?_eq_lookup entries key

theorem toList_filterKeys (entries : Entries α) (keep : String → Bool) :
    (entries.filterKeys keep).toList = entries.toList.filter fun entry => keep entry.1 :=
  OrderedMap.toList_filterKeys entries keep

end Entries

end ScriptCore
