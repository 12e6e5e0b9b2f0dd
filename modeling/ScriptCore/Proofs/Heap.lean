import ScriptCore.Heap
import ScriptCore.Proofs.Action

/-! # Extensions of a heap

Building new objects extends a heap: every earlier object is where it was and what it was. What is
read off an earlier object is therefore the same in every extension.
-/

namespace ScriptCore

namespace Heap

/-- Every object of a heap is unchanged in a later one. -/
structure Extends (heap later : Heap) : Prop where
  arrays : ∀ index < heap.arrays.size, later.arrays[index]? = heap.arrays[index]?
  records : ∀ index < heap.records.size, later.records[index]? = heap.records[index]?
  functions : ∀ index < heap.functions.size, later.functions[index]? = heap.functions[index]?

private theorem size_le_of_getElem?_eq {α : Type} {first second : Array α}
    (same : ∀ index < first.size, second[index]? = first[index]?) : first.size ≤ second.size := by
  refine Nat.le_of_not_lt fun shorter => ?_
  have missing := same second.size shorter
  rw [Array.getElem?_eq_none (Nat.le_refl _), Array.getElem?_eq_getElem shorter] at missing
  contradiction

namespace Extends

variable {first second third : Heap}

theorem refl (heap : Heap) : heap.Extends heap := ⟨fun _ _ => rfl, fun _ _ => rfl, fun _ _ => rfl⟩

theorem arrays_size_le (extension : first.Extends second) :
    first.arrays.size ≤ second.arrays.size :=
  size_le_of_getElem?_eq extension.arrays

theorem records_size_le (extension : first.Extends second) :
    first.records.size ≤ second.records.size :=
  size_le_of_getElem?_eq extension.records

theorem trans (left : first.Extends second) (right : second.Extends third) :
    first.Extends third where
  arrays index valid :=
    (right.arrays index (Nat.lt_of_lt_of_le valid left.arrays_size_le)).trans
      (left.arrays index valid)
  records index valid :=
    (right.records index (Nat.lt_of_lt_of_le valid left.records_size_le)).trans
      (left.records index valid)
  functions index valid :=
    (right.functions index
        (Nat.lt_of_lt_of_le valid (size_le_of_getElem?_eq left.functions))).trans
      (left.functions index valid)

theorem elements_eq (extension : first.Extends second) {ref : ArrayRef}
    (valid : ref.index < first.arrays.size) : second.elements ref = first.elements ref := by
  rw [elements, elements, Array.getD_eq_getD_getElem?, Array.getD_eq_getD_getElem?,
    extension.arrays _ valid]

theorem recordCell_eq (extension : first.Extends second) {ref : RecordRef}
    (valid : ref.index < first.records.size) : second.recordCell ref = first.recordCell ref := by
  rw [recordCell, recordCell, Array.getD_eq_getD_getElem?, Array.getD_eq_getD_getElem?,
    extension.records _ valid]

end Extends

end Heap

/-! ## Changes in place -/

namespace Heap

variable (heap : Heap) (ref other : RecordRef) (change : Entries Value → Entries Value)

theorem hooks_modifyEntries :
    ((heap.modifyEntries ref change).recordCell other).hooks = (heap.recordCell other).hooks := by
  simp only [recordCell, modifyEntries, Array.getD_eq_getD_getElem?, Array.getElem?_modify]
  split
  · cases heap.records[other.index]? <;> rfl
  · rfl

theorem entries_modifyEntries_of_ne (different : ref ≠ other) :
    (heap.modifyEntries ref change).entries other = heap.entries other := by
  have apart : ref.index ≠ other.index := by
    intro same
    exact different (by cases ref; cases other; simp_all)
  simp only [entries, recordCell, modifyEntries, Array.getD_eq_getD_getElem?,
    Array.getElem?_modify, if_neg apart]

theorem entries_modifyEntries_self (valid : ref.index < heap.records.size) :
    (heap.modifyEntries ref change).entries ref = change (heap.entries ref) := by
  simp only [entries, recordCell, modifyEntries, Array.getD_eq_getD_getElem?,
    Array.getElem?_modify, if_true, Array.getElem?_eq_getElem valid]
  rfl

end Heap

/-! ## Allocation -/

theorem push_getElem?_of_lt {α : Type} (cells : Array α) (cell : α) :
    ∀ index < cells.size, (cells.push cell)[index]? = cells[index]? := fun index valid => by
  rw [Array.getElem?_push, if_neg (Nat.ne_of_lt valid)]

/-- A new array is the only change, and it keeps its elements as the heap is extended. -/
theorem newArray_apply (elements : Array Value) (heap : Heap) :
    ∃ after, newArray elements heap = (.ok ⟨heap.arrays.size⟩, after) ∧ heap.Extends after ∧
      after.containerCount = heap.containerCount + 1 ∧
      ∀ later, after.Extends later → later.elements ⟨heap.arrays.size⟩ = elements := by
  refine ⟨_, rfl, ⟨push_getElem?_of_lt _ _, fun _ _ => rfl, fun _ _ => rfl⟩, ?_, ?_⟩
  · simp only [Heap.containerCount, Array.size_push]
    omega
  · intro later extension
    rw [extension.elements_eq (by simp)]
    simp [Heap.elements]

/-- A new record is the only change, and it keeps its cell as the heap is extended. -/
theorem newRecord_apply (entries : Entries Value) (hooks : Option Hooks) (heap : Heap) :
    ∃ after, newRecord entries hooks heap = (.ok ⟨heap.records.size⟩, after) ∧
      heap.Extends after ∧
      after.containerCount = heap.containerCount + 1 ∧
      ∀ later, after.Extends later →
        later.recordCell ⟨heap.records.size⟩ = ⟨entries, hooks⟩ := by
  refine ⟨_, rfl, ⟨fun _ _ => rfl, push_getElem?_of_lt _ _, fun _ _ => rfl⟩, ?_, ?_⟩
  · simp only [Heap.containerCount, Array.size_push]
    omega
  · intro later extension
    rw [extension.recordCell_eq (by simp)]
    simp [Heap.recordCell]

end ScriptCore
