import ScriptCore.Proofs.Array.Element
import ScriptCore.Proofs.Record.Global
import ScriptCore.Proofs.Record.History

/-! # Copies of records

A record made of another one's entries, copied or as a global record, starts with these entries and
shares nothing else with it. What becomes of a record depends on its own cell and on the mutations
that go to it, so however calls on a record and on its copies are interleaved, each of them changes
as it would alone. Values are copied as they are: a container among the entries is one for all of
them, and what is written inside it is seen through each.
-/

namespace ScriptCore

namespace Mutation

variable {self : RecordRef} {heap other : Heap}

/-- The mutations that go to a record, in order. -/
def callsOn (self : RecordRef) (mutations : List Mutation) : List Mutation :=
  mutations.filter fun mutation => mutation.target? = some (.record self)

/-- What a mutation stores in a record depends on the cell of the record alone. -/
theorem stores_congr (same : other.recordCell self = heap.recordCell self) (mutation : Mutation) :
    mutation.stores self other = mutation.stores self heap := by
  cases mutation with
  | set target property value range =>
    cases target with
    | record ref =>
      by_cases goes : ref = self
      · subst goes
        rw [stores, stores, same]
      · rw [stores, stores, if_neg goes, if_neg goes]
    | primitive | array | function => rfl
  | insert | push | newArray | newRecord => rfl

/-- A mutation leaves a record with its hooks and with what it stores there among the entries. -/
theorem recordCell_run (mutation : Mutation) (present : self.index < heap.records.size) :
    (mutation.run heap).2.recordCell self =
      ⟨(heap.entries self).insertAll (mutation.stores self heap),
        (heap.recordCell self).hooks⟩ := by
  have evolves : heap.Evolves (mutation.run heap).2 := mutation.evolves heap fun _ _ => id
  exact congrArg₂ RecordCell.mk (mutation.entries_run present) (evolves.hooks_eq present)

theorem hooks_runAll (mutations : List Mutation) (present : self.index < heap.records.size) :
    ((runAll mutations heap).recordCell self).hooks = (heap.recordCell self).hooks := by
  induction mutations generalizing heap with
  | nil => rfl
  | cons mutation rest ih =>
    have kept : Container.IsIn (mutation.run heap).2 (.record self) := mutation.isIn_run present
    have same := congrArg RecordCell.hooks (mutation.recordCell_run present)
    exact (ih kept).trans same

/-- However they are interleaved with others, mutations of a record leave it as they would alone,
whatever else there is in the heap. -/
theorem recordCell_runAll (mutations : List Mutation) (present : self.index < heap.records.size)
    (presentThere : self.index < other.records.size)
    (same : other.recordCell self = heap.recordCell self) :
    (runAll mutations heap).recordCell self =
      (runAll (callsOn self mutations) other).recordCell self := by
  induction mutations generalizing heap other with
  | nil => exact same.symm
  | cons mutation rest ih =>
    have kept : Container.IsIn (mutation.run heap).2 (.record self) := mutation.isIn_run present
    -- What goes elsewhere is not run in `other`: the two heaps drift apart around the cell.
    by_cases goes : mutation.target? = some (.record self)
    · have keptThere : Container.IsIn (mutation.run other).2 (.record self) :=
        mutation.isIn_run presentThere
      rw [callsOn, List.filter_cons_of_pos (by simpa using goes)]
      refine ih kept keptThere ?_
      rw [mutation.recordCell_run present, mutation.recordCell_run presentThere,
        stores_congr same, Heap.entries, same]
      rfl
    · rw [callsOn, List.filter_cons_of_neg (by simpa using goes)]
      refine ih kept presentThere ?_
      rw [mutation.recordCell_run present, mutation.stores_of_elsewhere goes, same]
      rfl

theorem runAll_concat (mutations : List Mutation) (mutation : Mutation) (heap : Heap) :
    runAll (mutations ++ [mutation]) heap = (mutation.run (runAll mutations heap)).2 := by
  rw [runAll, List.foldl_append]
  rfl

end Mutation

theorem Entries.get?_insertAll_of_unstored {α : Type} (entries : Entries α)
    {stores : List (String × α)} {name : String} (unstored : ∀ entry ∈ stores, entry.1 ≠ name) :
    (entries.insertAll stores).get? name = entries.get? name := by
  induction stores generalizing entries with
  | nil => rfl
  | cons entry rest ih =>
    obtain ⟨different, others⟩ := List.forall_mem_cons.mp unstored
    exact (ih (entries.insert entry.1 entry.2) others).trans
      (get?_insert_of_ne different entries entry.2)

/-! ## Inside entries -/

namespace Heap

/-- What a value stores under a key: an element of an array or an own entry of a record. -/
def member? (heap : Heap) (key : PropertyKey) : Value → Option Value
  | .array ref => (readIndex? key.text.toList).bind ((heap.elements ref)[·]?)
  | .record ref => (heap.entries ref).get? key.text
  | .primitive _ | .function _ => none

/-- What is stored under a key inside the entry that a record has under a name. -/
def memberIn? (heap : Heap) (self : RecordRef) (name : String) (key : PropertyKey) :
    Option Value :=
  ((heap.entries self).get? name).bind (heap.member? key)

/-- A container stores what was written last, whatever its hooks store before it. -/
theorem member?_of_write {heap later : Heap} {container : Container} {property value : Value}
    {key : PropertyKey} {range : Option SourceRange} (present : container.IsIn heap)
    (named : property.propertyKey? = some key)
    (writes : container.value.write property value range heap = (.ok (), later)) :
    later.member? key container.value = some value := by
  cases container with
  | array ref =>
    change ref.write property value range heap = _ at writes
    rw [ArrayRef.write_apply, Value.narrowKey_eq, named] at writes
    dsimp only at writes
    split at writes
    · cases writes
    · next index isIndex =>
      split at writes
      · cases writes
      · obtain ⟨-, rfl⟩ := Prod.mk.inj writes
        rw [Container.value, member?, isIndex, Option.bind_some,
          heap.elements_modifyElements_self present, getElem?_putElement_self]
  | record ref =>
    change ref.write property value range heap = _ at writes
    rw [RecordRef.write_apply, Value.narrowKey_eq, named] at writes
    dsimp only at writes
    split at writes
    · cases writes
    · obtain ⟨-, rfl⟩ := Prod.mk.inj writes
      rw [Container.value, member?, heap.entries_modifyEntries_self ref _ present,
        Entries.get?_insert_self]

end Heap

namespace Mutation

variable {self : RecordRef} {heap : Heap} {mutations : List Mutation} {name : String}

theorem get?_runAll_of_unstored (present : self.index < heap.records.size)
    (unstored : ∀ entry ∈ allStores self mutations heap, entry.1 ≠ name) :
    ((runAll mutations heap).entries self).get? name = (heap.entries self).get? name := by
  rw [entries_runAll mutations present, Entries.get?_insertAll_of_unstored _ unstored]

/-- A record that still holds a container sees what is written inside it. -/
theorem memberIn?_of_write {container : Container} {property value : Value} {key : PropertyKey}
    {range : Option SourceRange} {later : Heap} (present : self.index < heap.records.size)
    (isIn : container.IsIn heap) (holds : (heap.entries self).get? name = some container.value)
    (named : property.propertyKey? = some key)
    (writes : container.value.write property value range (runAll mutations heap) = (.ok (), later))
    (unstored : ∀ entry ∈ allStores self (mutations ++ [set container.value property value range])
      heap, entry.1 ≠ name) :
    later.memberIn? self name key = some value := by
  have written : runAll (mutations ++ [set container.value property value range]) heap = later := by
    rw [runAll_concat]
    exact congrArg Prod.snd writes
  have found := get?_runAll_of_unstored present unstored
  rw [written, holds] at found
  rw [Heap.memberIn?, found, Option.bind_some]
  exact Heap.member?_of_write (isIn_runAll mutations isIn) named writes

end Mutation

namespace RecordRef

/-- A read of the record finds its own entry and a write stores one entry, with no hooks between. -/
structure Unhooked (self : RecordRef) (heap : Heap) : Prop where
  read : ∀ property key range, property.propertyKey? = some key →
    (Value.record self).read property range heap =
      (.ok (((heap.entries self).get? key.text).getD .undefined), heap)
  write : ∀ property key value range, property.propertyKey? = some key →
    (Value.record self).write property value range heap =
      (.ok (), heap.modifyEntries self (·.insert key.text value))

theorem unhooked_of_hooks {self : RecordRef} {heap : Heap}
    (without : (heap.recordCell self).hooks = none) : self.Unhooked heap where
  read property key range named := by
    change self.read property range heap = _
    rw [read_apply, Value.narrowKey_eq, named, without]
    rfl
  write property key value range named := by
    have accepts : self.accept (heap.recordCell self) key value range = .ok [] := by
      rw [accept, without]
    change self.write property value range heap = _
    rw [write_apply, Value.narrowKey_eq, named]
    simp only [accepts]
    rfl

/-- A copy and a global record were made of a base and have nothing in common with it but the values
that were its entries. -/
structure Copies (base copy global : RecordRef) (heap after : Heap) : Prop where
  apart : base ≠ copy ∧ base ≠ global ∧ copy ≠ global
  same : after.recordCell base = heap.recordCell base
  copied : after.entries copy = heap.entries base
  seeded : (after.entries global).toList =
    (heap.entries base).toList.filter fun entry => entry.1 ≠ "self" ∧ entry.1 ≠ "globalThis"
  /-- Each of the three is left as the calls on it alone leave it, here or in another heap. -/
  alone : ∀ mutations, ∀ self ∈ [base, copy, global], ∀ other : Heap,
    self.index < other.records.size → other.recordCell self = after.recordCell self →
    (Mutation.runAll mutations after).entries self =
      (Mutation.runAll (Mutation.callsOn self mutations) other).entries self
  unhooked : ∀ mutations, copy.Unhooked (Mutation.runAll mutations after)
  /-- An entry of the base is the same value in each of the three until it is stored again there. -/
  held : ∀ mutations, ∀ self ∈ [base, copy, global], ∀ name,
    (self = global → ¬ isReservedName name) →
    (∀ entry ∈ Mutation.allStores self mutations after, entry.1 ≠ name) →
    ((Mutation.runAll mutations after).entries self).get? name = (heap.entries base).get? name
  /-- What is written inside such an entry is seen through each of the three. -/
  shared : ∀ mutations name (container : Container) property key value range later,
    (heap.entries base).get? name = some container.value → container.IsIn heap →
    property.propertyKey? = some key →
    container.value.write property value range (Mutation.runAll mutations after) =
      (.ok (), later) →
    ∀ self ∈ [base, copy, global], (self = global → ¬ isReservedName name) →
      (∀ entry ∈ Mutation.allStores self
          (mutations ++ [.set container.value property value range]) after, entry.1 ≠ name) →
      later.memberIn? self name key = some value

/-- The cells that a copy and a global record of a base were made with. -/
structure Made (base copy global : RecordRef) (heap after : Heap) : Prop where
  grown : heap.Extends after
  apart : base ≠ copy ∧ base ≠ global ∧ copy ≠ global
  present : ∀ self ∈ [base, copy, global], self.index < after.records.size
  baseCell : after.recordCell base = heap.recordCell base
  copyCell : after.recordCell copy = ⟨heap.entries base, none⟩
  globalCell : after.recordCell global =
    ⟨(heap.entries base).filterKeys (!isReservedName ·), some .global⟩

theorem exists_made {heap : Heap} {base : RecordRef} (present : base.index < heap.records.size) :
    ∃ copy global middle after, base.copy heap = (.ok copy, middle) ∧
      newGlobalRecord (middle.entries base) middle = (.ok global, after) ∧
      Made base copy global heap after := by
  obtain ⟨middle, copies, grown, -, copied⟩ := newRecord_apply (heap.entries base) none heap
  obtain ⟨after, seeds, growth, -, seeded⟩ :=
    newRecord_apply ((middle.entries base).filterKeys (!isReservedName ·)) (some .global) middle
  have middleSize : middle.records.size = heap.records.size + 1 := by
    obtain rfl := congrArg Prod.snd copies
    exact Array.size_push _
  have afterSize : after.records.size = middle.records.size + 1 := by
    obtain rfl := congrArg Prod.snd seeds
    exact Array.size_push _
  have middleEntries : middle.entries base = heap.entries base :=
    congrArg RecordCell.entries (grown.recordCell_eq present)
  refine ⟨⟨heap.records.size⟩, ⟨middle.records.size⟩, middle, after, copies, seeds, ?_⟩
  refine ⟨grown.trans growth, ?_, ?_, (grown.trans growth).recordCell_eq present,
    copied after growth, middleEntries ▸ seeded after (.refl after)⟩
  · have ne_of_lt : ∀ {first second : RecordRef}, first.index < second.index → first ≠ second :=
      fun less same => Nat.ne_of_lt less (congrArg RecordRef.index same)
    exact ⟨ne_of_lt present, ne_of_lt (by dsimp only; omega), ne_of_lt (by dsimp only; omega)⟩
  · simp only [List.forall_mem_cons, List.not_mem_nil, false_imp_iff, implies_true, and_true]
    omega

namespace Made

variable {base copy global : RecordRef} {heap after : Heap}

theorem get?_eq (made : Made base copy global heap after) {self : RecordRef}
    (isOne : self ∈ [base, copy, global]) {name : String}
    (free : self = global → ¬ isReservedName name) :
    (after.entries self).get? name = (heap.entries base).get? name := by
  simp only [List.mem_cons, List.not_mem_nil, or_false] at isOne
  obtain rfl | rfl | rfl := isOne
  · rw [Heap.entries, made.baseCell, Heap.entries]
  · rw [Heap.entries, made.copyCell]
  · have kept : (!isReservedName name) = true := by simpa using free
    rw [Heap.entries, made.globalCell, Entries.get?_filterKeys, if_pos kept]

theorem copies (made : Made base copy global heap after) : Copies base copy global heap after where
  apart := made.apart
  same := made.baseCell
  copied := by rw [Heap.entries, made.copyCell]
  seeded := by
    rw [Heap.entries, made.globalCell, Entries.toList_filterKeys]
    refine List.filter_congr fun entry _ => ?_
    rw [Bool.eq_iff_iff]
    simp [isReservedName]
  alone mutations self isOne other presentThere same :=
    congrArg RecordCell.entries
      (Mutation.recordCell_runAll mutations (made.present self isOne) presentThere same)
  unhooked mutations := by
    have isOne : copy ∈ [base, copy, global] := by simp
    apply unhooked_of_hooks
    rw [Mutation.hooks_runAll mutations (made.present copy isOne), made.copyCell]
  held mutations self isOne name free unstored := by
    rw [Mutation.get?_runAll_of_unstored (made.present self isOne) unstored,
      made.get?_eq isOne free]
  shared mutations name container property key value range later holds isIn named writes self isOne
      free unstored := by
    rw [← made.get?_eq isOne free] at holds
    exact Mutation.memberIn?_of_write (made.present self isOne) (made.grown.isIn isIn) holds named
      writes unstored

end Made

/-- A record can be copied and made into a global record, whatever its hooks are, and the three
records evolve independently while their entries share what they hold. -/
theorem copies_evolve_independently {heap : Heap} {base : RecordRef}
    (present : base.index < heap.records.size) :
    ∃ copy global middle after, base.copy heap = (.ok copy, middle) ∧
      newGlobalRecord (middle.entries base) middle = (.ok global, after) ∧
      Copies base copy global heap after := by
  obtain ⟨copy, global, middle, after, copies, seeds, made⟩ := exists_made present
  exact ⟨copy, global, middle, after, copies, seeds, made.copies⟩

/-- The hooks of the base refuse a write and echo another; the copy and the global record have their
own ways with the same keys. -/
theorem copies_evolve_independently_hooked :
    let hooks := HookTable.hooks ⟨[], false, false, none, [("k", "no")], some "echo"⟩ []
    let heap : Heap := ⟨#[#[.null]],
      #[⟨.ofList [("self", .null), ("list", .array ⟨0⟩)], some hooks⟩], #[]⟩
    let mutations : List Mutation :=
      [.set (.record ⟨0⟩) (.string "k") .null none, .set (.record ⟨1⟩) (.string "k") .null none,
        .set (.record ⟨0⟩) (.string "x") .null none, .insert ⟨2⟩ "self" (.boolean true)]
    0 < heap.records.size ∧ ∃ after later, Copies ⟨0⟩ ⟨1⟩ ⟨2⟩ heap after ∧
      (Mutation.runAll mutations after).entries ⟨0⟩ =
        (Mutation.runAll [.set (.record ⟨0⟩) (.string "k") .null none,
          .set (.record ⟨0⟩) (.string "x") .null none] heap).entries ⟨0⟩ ∧
      (Value.array ⟨0⟩).write (.string "1") (.boolean true) none (Mutation.runAll mutations after) =
        (.ok (), later) ∧
      ∀ self ∈ [RecordRef.mk 0, ⟨1⟩, ⟨2⟩],
        later.memberIn? self "list" (.string "1") = some (.boolean true) := by
  intro hooks heap mutations
  have present : 0 < heap.records.size := by decide
  obtain ⟨copy, global, middle, after, copies, seeds, evolve⟩ :=
    @copies_evolve_independently heap ⟨0⟩ present
  obtain rfl : RecordRef.mk 1 = copy := Except.ok.inj (congrArg Prod.fst copies)
  obtain rfl : (RecordRef.copy ⟨0⟩ heap).2 = middle := congrArg Prod.snd copies
  obtain rfl : RecordRef.mk 2 = global := Except.ok.inj (congrArg Prod.fst seeds)
  obtain rfl := congrArg Prod.snd seeds
  have writes (before : Heap) : (Value.array ⟨0⟩).write (.string "1") (.boolean true) none before =
      (.ok (), before.modifyElements ⟨0⟩ (putElement · 1 (.boolean true))) :=
    ArrayRef.write_eq_ok_iff.mpr ⟨1, by decide, rfl, rfl⟩
  refine ⟨present, _, _, evolve, ?_, writes _, fun self isOne => ?_⟩
  · exact evolve.alone mutations ⟨0⟩ (by simp) heap present evolve.same.symm
  · have free : ¬ isReservedName "list" := by decide
    refine evolve.shared mutations "list" (.array ⟨0⟩) (.string "1") (.string "1") (.boolean true)
      none _ (by decide +kernel) (by decide) rfl (writes _) self isOne (fun _ => free) ?_
    revert self
    decide +kernel

end RecordRef

end ScriptCore
