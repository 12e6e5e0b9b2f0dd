import ScriptCore.Proofs.Heap.Evolution
import ScriptCore.Proofs.Record.SelfReference

/-! # Global records under evolving heaps

However a heap evolves after a global record was built in it, the record keeps its hooks. So a name
always reads as its own entry, a reserved name as the record itself; and a write of a name that is
not reserved stores that entry and nothing else.
-/

namespace ScriptCore

namespace RecordRef.IsGlobal

variable {self : RecordRef} {heap later : Heap}

theorem of_evolves (isGlobal : self.IsGlobal heap) (evolves : heap.Evolves later) :
    self.IsGlobal later := by
  have present := SessionStep.RecordEffect.valid_of_isGlobal isGlobal
  unfold IsGlobal at *
  rw [evolves.hooks_eq present, isGlobal]

theorem read_name (isGlobal : self.IsGlobal heap) (name : String) (range : Option SourceRange) :
    self.read (.string name) range heap =
      (.ok (if isReservedName name then .record self
        else ((heap.entries self).get? name).getD .undefined), heap) := by
  have named : (Value.string name).propertyKey? = some (.string name) := rfl
  have answer : (heap.recordCell self).hooks.bind
      (·.answer? self (heap.recordCell self).entries (.string name) range) =
        if isReservedName name then some (.record self) else none := by
    rw [isGlobal]
    rfl
  rw [read_apply, Value.narrowKey_eq, named]
  simp only [answer]
  cases isReservedName name <;> rfl

theorem write_name (isGlobal : self.IsGlobal heap) (name : String) (value : Value)
    (range : Option SourceRange) :
    self.write (.string name) value range heap =
      if isReservedName name then (.error ⟨.reservedName name, range⟩, heap)
      else (.ok (), heap.modifyEntries self (·.insert name value)) := by
  have named : (Value.string name).propertyKey? = some (.string name) := rfl
  rw [write_apply, Value.narrowKey_eq, named]
  simp only [isGlobal.accept_eq, PropertyKey.text]
  by_cases reserved : isReservedName name
  · simp only [reserved, if_true]
  · simp only [reserved]
    rfl

theorem entries_insert (isGlobal : self.IsGlobal heap) (name : String) (value : Value) :
    (heap.modifyEntries self (·.insert name value)).entries self =
      (heap.entries self).insert name value :=
  Heap.entries_modifyEntries_self _ _ _ (SessionStep.RecordEffect.valid_of_isGlobal isGlobal)

end RecordRef.IsGlobal

theorem isGlobal_newGlobalRecord {base : Entries Value} {heap seeded : Heap} {self : RecordRef}
    (built : newGlobalRecord base heap = (.ok self, seeded)) : self.IsGlobal seeded := by
  obtain ⟨after, allocated, -, -, holds⟩ :=
    newRecord_apply (base.filterKeys (!isReservedName ·)) (some .global) heap
  rw [newGlobalRecord, allocated] at built
  cases built
  rw [RecordRef.IsGlobal, holds seeded (.refl seeded)]

/-- The global record of the realm was built as one in a heap that has become the present heap. -/
def Realm.HasGlobalRecord (realm : Realm) : Prop :=
  ∃ base heap seeded, newGlobalRecord base heap = (.ok realm.context.globalRecord, seeded) ∧
    seeded.Evolves realm.heap

theorem Realm.HasGlobalRecord.isGlobal {realm : Realm} (global : realm.HasGlobalRecord) :
    realm.context.globalRecord.IsGlobal realm.heap := by
  obtain ⟨base, heap, seeded, built, evolves⟩ := global
  exact (isGlobal_newGlobalRecord built).of_evolves evolves

end ScriptCore
