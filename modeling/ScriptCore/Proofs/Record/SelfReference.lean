import ScriptCore.Proofs.Heap
import ScriptCore.Proofs.Session

/-! # Global records refer to themselves

The hooks of a record are never replaced, so what a global record answers to its reserved names and
which writes it refuses does not depend on its entries. Because it refuses those writes, and was
built without such entries, it never gets an entry with a reserved name, unless a host stores one
past the hooks.
-/

namespace ScriptCore

namespace RecordRef

/-- The record has the hooks of a global record. -/
def IsGlobal (self : RecordRef) (heap : Heap) : Prop :=
  (heap.recordCell self).hooks = some .global

/-- No entry of the record has a reserved name. -/
def LacksReserved (self : RecordRef) (heap : Heap) : Prop :=
  ∀ name, isReservedName name → (heap.entries self).get? name = none

/-- Reserved names read as the record itself, as members and where no frame binds them, and writes
to them end with a type error and change nothing. -/
structure RefersToItself (self : RecordRef) (heap : Heap) : Prop where
  read : ∀ property key range, property.propertyKey? = some key → isReservedName key.text →
    (Value.record self).read property range heap = (.ok (.record self), heap)
  write : ∀ property key value range, property.propertyKey? = some key →
    isReservedName key.text → ∃ error, error.cause.errorClass = .type ∧
      (Value.record self).write property value range heap = (.error error, heap)
  readName : ∀ context name range, context.globalRecord = self → context.find? name = none →
    isReservedName name → Realm.readName name range ⟨heap, context⟩ =
      (.ok (.record self), ⟨heap, context⟩)
  assignName : ∀ context name value range, context.globalRecord = self →
    context.find? name = none → isReservedName name → ∃ error, error.cause.errorClass = .type ∧
      Realm.assignName name value range ⟨heap, context⟩ = (.error error, ⟨heap, context⟩)

namespace IsGlobal

variable {self : RecordRef} {heap : Heap}

theorem read_eq (isGlobal : self.IsGlobal heap) {property : Value} {key : PropertyKey}
    (named : property.propertyKey? = some key) (reserved : isReservedName key.text)
    (range : Option SourceRange) :
    self.read property range heap = (.ok (.record self), heap) := by
  have answered : (heap.recordCell self).hooks.bind
      (·.answer? self (heap.recordCell self).entries key range) = some (.record self) := by
    rw [isGlobal]
    exact if_pos reserved
  rw [read_apply, Value.narrowKey_eq, named]
  simp only [answered]

theorem accept_eq (isGlobal : self.IsGlobal heap) (key : PropertyKey) (value : Value)
    (range : Option SourceRange) :
    self.accept (heap.recordCell self) key value range =
      if isReservedName key.text then .error ⟨.reservedName key.text, range⟩ else .ok [] := by
  rw [accept, isGlobal]
  rfl

theorem write_eq (isGlobal : self.IsGlobal heap) {property : Value} {key : PropertyKey}
    (named : property.propertyKey? = some key) (reserved : isReservedName key.text)
    (value : Value) (range : Option SourceRange) :
    self.write property value range heap = (.error ⟨.reservedName key.text, range⟩, heap) := by
  rw [write_apply, Value.narrowKey_eq, named]
  simp only [isGlobal.accept_eq, reserved, if_true]

theorem refersToItself (isGlobal : self.IsGlobal heap) : self.RefersToItself heap where
  read _ _ range named reserved := isGlobal.read_eq named reserved range
  write _ _ value range named reserved :=
    ⟨_, rfl, isGlobal.write_eq named reserved value range⟩
  readName context name range based unbound reserved := by
    have named : (Value.string name).propertyKey? = some (.string name) := rfl
    have answer := isGlobal.read_eq named reserved range
    simp only [Realm.readName_apply, unbound, based, Realm.onHeap, answer]
  assignName context name value range based unbound reserved := by
    have named : (Value.string name).propertyKey? = some (.string name) := rfl
    have refusal := isGlobal.write_eq named reserved value range
    refine ⟨⟨.reservedName name, range⟩, rfl, ?_⟩
    simp only [Realm.assignName_apply, unbound, based, Realm.onHeap, refusal]
    rfl

end IsGlobal

end RecordRef

open RecordRef (IsGlobal LacksReserved RefersToItself)

/-- Whether a step stores an entry with a reserved name past the hooks of a record. -/
def SessionStep.plants (self : RecordRef) : SessionStep → Bool
  | insert ref key _ => ref = self && isReservedName key
  | _ => false

namespace SessionStep.RecordEffect

variable {heap after : Heap} {step : SessionStep} {self : RecordRef}

theorem recordCell_of_same (same : after.records = heap.records) :
    after.recordCell self = heap.recordCell self := by
  rw [Heap.recordCell, same]
  rfl

theorem isGlobal (effect : RecordEffect heap step after) (before : self.IsGlobal heap) :
    self.IsGlobal after := by
  unfold IsGlobal at *
  cases effect with
  | still _ same => rwa [recordCell_of_same same]
  | written => rwa [Heap.hooks_modifyEntries]
  | inserted => rwa [Heap.hooks_modifyEntries]

theorem valid_of_isGlobal (before : self.IsGlobal heap) : self.index < heap.records.size := by
  refine Nat.lt_of_not_le fun beyond => ?_
  unfold IsGlobal Heap.recordCell at before
  rw [Array.getD_eq_getD_getElem?, Array.getElem?_eq_none beyond] at before
  contradiction

/-- Storing under a name that is not reserved leaves the reserved names without entries. -/
theorem lacksReserved_insert (before : self.IsGlobal heap) (lacks : self.LacksReserved heap)
    (ref : RecordRef) {key : String} (value : Value)
    (allowed : ref = self → ¬ isReservedName key) :
    self.LacksReserved (heap.modifyEntries ref (·.insert key value)) := by
  intro name reserved
  by_cases same : ref = self
  · subst same
    have different : key ≠ name := by
      rintro rfl
      exact allowed rfl reserved
    rw [Heap.entries_modifyEntries_self _ _ _ (valid_of_isGlobal before),
      Entries.get?_insert_of_ne different, lacks name reserved]
  · rw [Heap.entries_modifyEntries_of_ne _ _ _ _ same, lacks name reserved]

theorem lacksReserved (effect : RecordEffect heap step after) (before : self.IsGlobal heap)
    (harmless : ¬ step.plants self) (lacks : self.LacksReserved heap) :
    self.LacksReserved after := by
  cases effect with
  | still _ same =>
    intro name reserved
    rw [Heap.entries, recordCell_of_same same]
    exact lacks name reserved
  | inserted ref key value =>
    exact lacksReserved_insert before lacks ref value fun same reserved =>
      harmless (by simp [plants, same, reserved])
  | written _ ref key value range accepted =>
    by_cases same : ref = self
    · subst same
      -- Hooks of a global record accept no reserved name and store nothing before a write.
      rw [before.accept_eq] at accepted
      split at accepted
      · contradiction
      · next free =>
        cases accepted
        exact lacksReserved_insert before lacks ref value fun _ => free
    · intro name reserved
      rw [Heap.entries_modifyEntries_of_ne _ _ _ _ same, lacks name reserved]

end SessionStep.RecordEffect

/-- In every state of every session the global record reads its reserved names as itself and
refuses to have them written; no entry of it has such a name unless a host stores one past the
hooks. -/
theorem newGlobalRecord_refersToItself (base : Entries Value) (heap : Heap) :
    ∃ self seeded, newGlobalRecord base heap = (.ok self, seeded) ∧
      ∀ script : Script,
        (∀ state ∈ script.states ⟨seeded, []⟩, self.RefersToItself state.heap) ∧
        ((∀ step ∈ script.steps ⟨seeded, []⟩, ¬ step.plants self) →
          ∀ state ∈ script.states ⟨seeded, []⟩, self.LacksReserved state.heap) := by
  obtain ⟨seeded, allocated, -, -, holds⟩ :=
    newRecord_apply (base.filterKeys (!isReservedName ·)) (some .global) heap
  have cell := holds seeded (.refl seeded)
  have isGlobal : IsGlobal ⟨heap.records.size⟩ seeded := by rw [IsGlobal, cell]
  have lacks : LacksReserved ⟨heap.records.size⟩ seeded := by
    intro name reserved
    rw [Heap.entries, cell, Entries.get?_filterKeys, reserved]
    rfl
  refine ⟨_, seeded, allocated, fun script => ⟨?_, ?_⟩⟩
  · intro state member
    have always := Script.forall_states (IsGlobal ⟨heap.records.size⟩) (fun _ => True)
      (fun step session _ holds => (step.recordEffect session).isGlobal holds) script ⟨seeded, []⟩
      (fun _ _ => trivial) isGlobal
    exact (always.1 state member).refersToItself
  · intro harmless
    have always := Script.forall_states
      (fun later => IsGlobal ⟨heap.records.size⟩ later ∧ LacksReserved ⟨heap.records.size⟩ later)
      (fun step => ¬ step.plants ⟨heap.records.size⟩)
      (fun step session allowed holds =>
        have effect := step.recordEffect session
        ⟨effect.isGlobal holds.1, effect.lacksReserved holds.1 allowed holds.2⟩)
      script ⟨seeded, []⟩ harmless ⟨isGlobal, lacks⟩
    exact fun state member => (always.1 state member).2

/-- Reads the record through its own name, writes to that alias, covers the name in a frame and
assigns it there. -/
def Script.shadowing : Script :=
  take (.newContext ⟨0⟩) fun _ =>
    take (.read (.record ⟨0⟩) (.string "self") none) fun found =>
      take (.write (found.toOption.getD .null) (.string "globalThis") .null none) fun _ =>
        inScope 0
          (take (.inContext 0 (.declare "self" .null .mutable none)) fun _ =>
            take (.inContext 0 (.assign "self" (.boolean true) none)) finish)
          finish

theorem newGlobalRecord_refersToItself_shadowing :
    let base := Entries.ofList [("self", .null), ("x", .boolean true), ("globalThis", .null)]
    ∃ seeded, newGlobalRecord base Heap.empty = (.ok ⟨0⟩, seeded) ∧
      (∀ step ∈ Script.shadowing.steps ⟨seeded, []⟩, ¬ step.plants ⟨0⟩) ∧
      ∀ state ∈ Script.shadowing.states ⟨seeded, []⟩,
        RefersToItself ⟨0⟩ state.heap ∧ LacksReserved ⟨0⟩ state.heap := by
  intro base
  obtain ⟨self, seeded, built, always⟩ := newGlobalRecord_refersToItself base Heap.empty
  obtain rfl : RecordRef.mk 0 = self := by
    have first : Except.ok (RecordRef.mk 0) = Except.ok self := congrArg Prod.fst built
    exact Except.ok.inj first
  obtain rfl : (newGlobalRecord base Heap.empty).2 = seeded := congrArg Prod.snd built
  have harmless : ∀ step ∈ Script.shadowing.steps ⟨(newGlobalRecord base Heap.empty).2, []⟩,
      ¬ step.plants ⟨0⟩ := by
    decide
  exact ⟨_, built, harmless, fun state member =>
    ⟨(always Script.shadowing).1 state member, (always Script.shadowing).2 harmless state member⟩⟩

end ScriptCore
