import Mathlib.Data.List.Induction
import Mathlib.Tactic.Common
import ScriptCore.Proofs.Entries
import ScriptCore.Proofs.PlainData.Mutation
import ScriptCore.Proofs.Record.SelfReference
import ScriptCore.Record.Hooked

/-! # What a record remembers of its stores

All that is ever stored in a record, by writes that its hooks accept, by the hooks themselves or
past them, forms one list of stores. The entries of the record are determined by that list: its keys
in the order in which they came first, each with the value that came last. A read that no hook
answers finds the last value under the text of its key.
-/

namespace ScriptCore

/-! ## Stores and what they leave -/

section Stores

variable {α : Type}

/-- The value of the last store under a key. -/
def lastStored (stores : List (String × α)) (key : String) : Option α := stores.reverse.lookup key

/-- The keys of stores, each at its first store, with the value of its last one. -/
def settled (stores : List (String × α)) : List (String × α) :=
  (stores.map Prod.fst).eraseDups.filterMap fun key => (lastStored stores key).map (key, ·)

theorem lastStored_concat (stores : List (String × α)) (entry : String × α) (key : String) :
    lastStored (stores ++ [entry]) key =
      if entry.1 = key then some entry.2 else lastStored stores key := by
  rw [lastStored, List.reverse_append, List.reverse_singleton, List.singleton_append,
    lookup_cons_eq_ite, lastStored]

theorem lastStored_append (first second : List (String × α)) (key : String) :
    lastStored (first ++ second) key = (lastStored second key).or (lastStored first key) := by
  rw [lastStored, List.reverse_append, List.lookup_append]
  rfl

theorem eraseDups_concat (keys : List String) (key : String) :
    (keys ++ [key]).eraseDups =
      if key ∈ keys then keys.eraseDups else keys.eraseDups ++ [key] := by
  rw [List.eraseDups_append]
  by_cases present : key ∈ keys <;> simp [List.removeAll, List.eraseDups_cons, present]

theorem eraseDups_of_nodup {keys : List String} (distinct : keys.Nodup) :
    keys.eraseDups = keys := by
  induction keys with
  | nil => rfl
  | cons key rest ih =>
    rw [List.nodup_cons] at distinct
    have kept : rest.filter (fun other => !other == key) = rest := by
      rw [List.filter_eq_self]
      intro other member
      have different : other ≠ key := fun same => distinct.1 (same ▸ member)
      simpa using different
    rw [List.eraseDups_cons, kept, ih distinct.2]

/-- Under distinct keys the last store is the only one. -/
theorem lastStored_of_nodup {stores : List (String × α)} (distinct : (stores.map Prod.fst).Nodup)
    (key : String) : lastStored stores key = stores.lookup key := by
  induction stores with
  | nil => rfl
  | cons entry rest ih =>
    rw [List.map_cons, List.nodup_cons] at distinct
    rw [← List.singleton_append, lastStored_append, ih distinct.2, List.singleton_append,
      lookup_cons_eq_ite]
    by_cases same : entry.1 = key
    · have absent : rest.lookup key = none := by
        rw [List.lookup_eq_none_iff]
        intro other member
        have different : key ≠ other.1 := fun equal =>
          distinct.1 ((same.trans equal).symm ▸ List.mem_map_of_mem member)
        simpa using different
      simp [absent, lastStored, same, lookup_cons_eq_ite]
    · simp [lastStored, same, lookup_cons_eq_ite]

namespace Entries

theorem keys_insertAll (entries : Entries α) (stores : List (String × α)) :
    (entries.insertAll stores).keys = (entries.keys ++ stores.map Prod.fst).eraseDups := by
  induction stores using List.reverseRecOn with
  | nil =>
    have distinct : entries.keys.Nodup := entries.keys_nodup
    rw [List.map_nil, List.append_nil, eraseDups_of_nodup distinct]
    rfl
  | append_singleton stores entry ih =>
    obtain ⟨key, value⟩ := entry
    have step : ((entries.insertAll stores).insert key value).keys =
        if key ∈ (entries.insertAll stores).keys then (entries.insertAll stores).keys
        else (entries.insertAll stores).keys ++ [key] := by
      rw [keys, toList_insert, map_fst_upsert, keys]
    rw [insertAll_concat, step, ih, List.map_append, List.map_singleton, ← List.append_assoc,
      eraseDups_concat]
    simp only [List.mem_eraseDups]

theorem get?_insertAll (entries : Entries α) (stores : List (String × α)) (key : String) :
    (entries.insertAll stores).get? key = lastStored (entries.toList ++ stores) key := by
  induction stores using List.reverseRecOn with
  | nil =>
    have distinct : (entries.toList.map Prod.fst).Nodup := entries.keys_nodup
    rw [List.append_nil, lastStored_of_nodup distinct]
    exact entries.get?_eq_lookup key
  | append_singleton stores entry ih =>
    obtain ⟨stored, value⟩ := entry
    rw [insertAll_concat, get?_insert, ← List.append_assoc, lastStored_concat, ih]

/-- Inserting stores one after another leaves what the stores leave. -/
theorem toList_insertAll (entries : Entries α) (stores : List (String × α)) :
    (entries.insertAll stores).toList = settled (entries.toList ++ stores) := by
  have keys : (entries.insertAll stores).toList.map Prod.fst =
      ((entries.toList ++ stores).map Prod.fst).eraseDups := by
    rw [List.map_append]
    exact entries.keys_insertAll stores
  have found : ∀ key, (entries.insertAll stores).toList.lookup key =
      lastStored (entries.toList ++ stores) key := by
    intro key
    rw [← get?_eq_lookup, get?_insertAll]
  have distinct : ((entries.insertAll stores).toList.map Prod.fst).Nodup :=
    (entries.insertAll stores).keys_nodup
  rw [eq_filterMap_lookup distinct, keys, settled]
  simp only [found]

end Entries

end Stores

/-! ## Runs -/

namespace Mutation

/-- What a mutation stores in a record, in order. A write that is accepted stores what the hooks ask
for and then its own value, one that is refused nothing. -/
def stores (self : RecordRef) (heap : Heap) : Mutation → List (String × Value)
  | set (.record ref) property value range =>
    if ref = self then
      match property.propertyKey? with
      | none => []
      | some key =>
        match self.accept (heap.recordCell self) key value range with
        | .error _ => []
        | .ok accepted => accepted ++ [(key.text, value)]
    else []
  | insert ref key value => if ref = self then [(key, value)] else []
  | set .. | push .. | newArray _ | newRecord .. => []

/-- What mutations store in a record, first to last. -/
def allStores (self : RecordRef) : List Mutation → Heap → List (String × Value)
  | [], _ => []
  | mutation :: rest, heap => mutation.stores self heap ++ allStores self rest (mutation.run heap).2

variable {self : RecordRef} {heap : Heap}

theorem isIn_run (mutation : Mutation) {container : Container} (present : container.IsIn heap) :
    container.IsIn (mutation.run heap).2 := by
  have evolves : heap.Evolves (mutation.run heap).2 := mutation.evolves heap fun _ _ => id
  exact evolves.isIn present

theorem entries_run_of_elsewhere (mutation : Mutation)
    (present : self.index < heap.records.size)
    (elsewhere : mutation.target? ≠ some (.record self)) :
    (mutation.run heap).2.entries self = heap.entries self := by
  have spares : heap.EvolvesSparing (· = .record self) (mutation.run heap).2 := by
    apply mutation.evolves heap
    rintro container goes rfl
    exact elsewhere goes
  have present : Container.IsIn heap (.record self) := present
  exact spares.sameIn present rfl

theorem stores_of_elsewhere (mutation : Mutation)
    (elsewhere : mutation.target? ≠ some (.record self)) : mutation.stores self heap = [] := by
  cases mutation with
  | set target property value range =>
    cases target with
    | record ref =>
      have different : ref ≠ self := by
        rintro rfl
        exact elsewhere rfl
      exact if_neg different
    | primitive | array | function => rfl
  | insert ref key value =>
    have different : ref ≠ self := by
      rintro rfl
      exact elsewhere rfl
    exact if_neg different
  | push | newArray | newRecord => rfl

theorem entries_write (self : RecordRef) (property value : Value) (range : Option SourceRange)
    (present : self.index < heap.records.size) :
    (self.write property value range heap).2.entries self =
      (heap.entries self).insertAll
        ((set (.record self) property value range).stores self heap) := by
  rw [RecordRef.write_apply, Value.narrowKey_eq, stores, if_pos rfl]
  cases property.propertyKey? with
  | none => rfl
  | some key =>
    dsimp only
    cases self.accept (heap.recordCell self) key value range with
    | error => rfl
    | ok accepted =>
      dsimp only
      rw [Heap.entries_modifyEntries_self _ _ _ present, Entries.insertAll_concat]

/-- A mutation inserts in a record what it stores there, and nothing else. -/
theorem entries_run (mutation : Mutation) (present : self.index < heap.records.size) :
    (mutation.run heap).2.entries self =
      (heap.entries self).insertAll (mutation.stores self heap) := by
  by_cases goes : mutation.target? = some (.record self)
  · cases mutation with
    | set target property value range =>
      obtain rfl : target = .record self := by
        cases target with
        | record ref => cases goes; rfl
        | primitive | array | function => cases goes
      exact entries_write self property value range present
    | insert ref key value =>
      cases goes
      rw [stores, if_pos rfl]
      exact Heap.entries_modifyEntries_self _ _ _ present
    | push | newArray | newRecord => cases goes
  · rw [mutation.stores_of_elsewhere goes, mutation.entries_run_of_elsewhere present goes]
    rfl

theorem entries_runAll (mutations : List Mutation) (present : self.index < heap.records.size) :
    (runAll mutations heap).entries self =
      (heap.entries self).insertAll (allStores self mutations heap) := by
  induction mutations generalizing heap with
  | nil => rfl
  | cons mutation rest ih =>
    have kept : Container.IsIn (mutation.run heap).2 (.record self) := mutation.isIn_run present
    calc (runAll rest (mutation.run heap).2).entries self
        = ((mutation.run heap).2.entries self).insertAll
            (allStores self rest (mutation.run heap).2) := ih kept
      _ = (heap.entries self).insertAll (allStores self (mutation :: rest) heap) := by
        rw [mutation.entries_run present, allStores, Entries.insertAll_append]

theorem isIn_runAll (mutations : List Mutation) {container : Container}
    (present : container.IsIn heap) : container.IsIn (runAll mutations heap) := by
  induction mutations generalizing heap with
  | nil => exact present
  | cons mutation rest ih => exact ih (mutation.isIn_run present)

end Mutation

namespace RecordRef

/-- The record shows just the stores that were made in it. -/
structure Shows (self : RecordRef) (heap : Heap) (stores : List (String × Value)) : Prop where
  entries : (heap.entries self).toList = settled stores
  keys : (heap.entries self).keys = (stores.map Prod.fst).eraseDups
  distinct : (heap.entries self).keys.Nodup
  size : (heap.entries self).size = (settled stores).length
  own : ∀ key, (heap.entries self).get? key = lastStored stores key
  /-- A key is looked up by its text, whether it is a string or a number. -/
  read : ∀ property key range, property.propertyKey? = some key →
    (heap.recordCell self).hooks.bind (·.answer? self (heap.entries self) key range) = none →
    (Value.record self).read property range heap =
      (.ok ((lastStored stores key.text).getD .undefined), heap)
  /-- A write stores under the text of its key, after what the hooks store. -/
  write : ∀ property key value range accepted, property.propertyKey? = some key →
    self.accept (heap.recordCell self) key value range = .ok accepted →
    ∃ after, (Value.record self).write property value range heap = (.ok (), after) ∧
      (after.entries self).toList = settled (stores ++ accepted ++ [(key.text, value)])

theorem shows_of_insertAll {self : RecordRef} {heap : Heap} {base : Entries Value}
    {stores : List (String × Value)} (present : self.index < heap.records.size)
    (inserted : heap.entries self = base.insertAll stores) :
    self.Shows heap (base.toList ++ stores) where
  entries := by rw [inserted, Entries.toList_insertAll]
  keys := by rw [inserted, Entries.keys_insertAll, List.map_append, Entries.keys]
  distinct := (heap.entries self).keys_nodup
  size := by
    rw [← Entries.toList_insertAll, ← inserted]
    exact Array.length_toList.symm
  own key := by rw [inserted, Entries.get?_insertAll]
  read property key range named silent := by
    change self.read property range heap = _
    rw [← Entries.get?_insertAll, ← inserted, read_apply, Value.narrowKey_eq, named]
    dsimp only [Heap.entries] at silent ⊢
    rw [silent]
  write property key value range accepted named accepts := by
    refine ⟨heap.modifyEntries self fun entries =>
      (entries.insertAll accepted).insert key.text value, ?_, ?_⟩
    · change self.write property value range heap = _
      rw [write_apply, Value.narrowKey_eq, named]
      dsimp only
      rw [accepts]
    · rw [Heap.entries_modifyEntries_self _ _ _ present, inserted, ← Entries.insertAll_append,
        ← Entries.insertAll_concat, Entries.toList_insertAll, List.append_assoc, List.append_assoc,
        List.append_assoc]

/-- After any run of mutations a record, whatever its hooks, shows its first entries and then all
that was stored in it since. -/
theorem shows_allStores (self : RecordRef) (heap : Heap)
    (present : self.index < heap.records.size) (mutations : List Mutation) :
    self.Shows (Mutation.runAll mutations heap)
      ((heap.entries self).toList ++ Mutation.allStores self mutations heap) := by
  have kept : Container.IsIn (Mutation.runAll mutations heap) (.record self) :=
    Mutation.isIn_runAll mutations present
  exact shows_of_insertAll kept (Mutation.entries_runAll mutations present)

/-- A refused write, stores under both spellings of one key, by the host and by the hooks, and a
store in another record. -/
theorem shows_allStores_echoing :
    let hooks := HookTable.hooks ⟨[], false, false, none, [("k", "no")], some "1"⟩ []
    let base := Entries.ofList [("a", Value.null), ("b", .null)]
    let heap : Heap := ⟨#[], #[⟨base, some hooks⟩, ⟨.empty, none⟩], #[]⟩
    let mutations : List Mutation :=
      [.set (.record ⟨0⟩) (.string "k") .null none, .insert ⟨0⟩ "1" .null,
        .set (.record ⟨0⟩) (.string "c") (.boolean true) none, .insert ⟨1⟩ "c" .null,
        .set (.record ⟨0⟩) (.number 1) (.boolean false) none, .insert ⟨0⟩ "a" (.boolean true)]
    let stores := [("a", Value.null), ("b", .null), ("1", .null), ("1", .boolean true),
      ("c", .boolean true), ("1", .boolean false), ("1", .boolean false), ("a", .boolean true)]
    0 < heap.records.size ∧ RecordRef.Shows ⟨0⟩ (Mutation.runAll mutations heap) stores ∧
      settled stores = [("a", .boolean true), ("b", .null), ("1", .boolean false),
        ("c", .boolean true)] := by
  intro hooks base heap mutations stores
  have present : 0 < heap.records.size := by decide
  have history : (heap.entries ⟨0⟩).toList ++ Mutation.allStores ⟨0⟩ mutations heap = stores := by
    decide +kernel
  refine ⟨present, ?_, by decide⟩
  rw [← history]
  exact shows_allStores ⟨0⟩ heap present mutations

end RecordRef

end ScriptCore
