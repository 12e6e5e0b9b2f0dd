import Mathlib.Logic.Relation
import ScriptCore.Proofs.Heap

/-! # How a heap evolves

A program allocates objects and gives containers new contents; it does nothing else to a heap. So a
heap evolves by changes of these few kinds. A container that all changes spare keeps its contents,
and no change replaces the hooks of a record. A heap that becomes another keeps its functions too.
-/

namespace ScriptCore

/-- An object that holds other values. -/
inductive Container
  | array (ref : ArrayRef)
  | record (ref : RecordRef)
deriving DecidableEq

namespace Container

def value : Container → Value
  | array ref => .array ref
  | record ref => .record ref

/-- The container that a value refers to. -/
def ofValue? : Value → Option Container
  | .array ref => some (array ref)
  | .record ref => some (record ref)
  | .primitive _ | .function _ => none

@[simp] theorem ofValue?_value (container : Container) :
    ofValue? container.value = some container := by
  cases container <;> rfl

theorem value_injective : Function.Injective value := by
  intro container other same
  have read := congrArg ofValue? same
  rw [ofValue?_value, ofValue?_value] at read
  exact Option.some.inj read

/-- Whether the heap has the object, which need not be so for a reference of another heap. -/
def IsIn (heap : Heap) : Container → Prop
  | array ref => ref.index < heap.arrays.size
  | record ref => ref.index < heap.records.size

instance (heap : Heap) : DecidablePred (IsIn heap)
  | array ref => inferInstanceAs (Decidable (ref.index < heap.arrays.size))
  | record ref => inferInstanceAs (Decidable (ref.index < heap.records.size))

/-- Whether two heaps give the object the same contents. -/
def SameIn (heap later : Heap) : Container → Prop
  | array ref => later.elements ref = heap.elements ref
  | record ref => later.entries ref = heap.entries ref

theorem SameIn.refl (heap : Heap) (container : Container) : container.SameIn heap heap := by
  cases container <;> rfl

theorem SameIn.trans {first second third : Heap} {container : Container}
    (left : container.SameIn first second) (right : container.SameIn second third) :
    container.SameIn first third := by
  cases container <;> exact Eq.trans right left

end Container

namespace Heap

namespace Extends

variable {heap later : Heap}

theorem isIn (extension : heap.Extends later) {container : Container}
    (present : container.IsIn heap) : container.IsIn later := by
  cases container with
  | array ref => exact Nat.lt_of_lt_of_le present extension.arrays_size_le
  | record ref => exact Nat.lt_of_lt_of_le present extension.records_size_le

theorem sameIn (extension : heap.Extends later) {container : Container}
    (present : container.IsIn heap) : container.SameIn heap later := by
  cases container with
  | array ref => exact extension.elements_eq present
  | record ref => exact congrArg RecordCell.entries (extension.recordCell_eq present)

end Extends

/-- One change to a heap, which leaves the contents of spared containers alone. -/
inductive Change (spared : Container → Prop) (heap : Heap) : Heap → Prop
  | newArray (elements : Array Value) :
      Change spared heap { heap with arrays := heap.arrays.push elements }
  | newRecord (cell : RecordCell) :
      Change spared heap { heap with records := heap.records.push cell }
  | functions (functions : Array FunctionCell) : Change spared heap { heap with functions }
  | elements (ref : ArrayRef) (change : Array Value → Array Value)
      (free : ¬ spared (.array ref)) : Change spared heap (heap.modifyElements ref change)
  | entries (ref : RecordRef) (change : Entries Value → Entries Value)
      (free : ¬ spared (.record ref)) : Change spared heap (heap.modifyEntries ref change)

/-- A heap becomes another by changes that leave spared containers alone. -/
def EvolvesSparing (spared : Container → Prop) : Heap → Heap → Prop :=
  Relation.ReflTransGen (Change spared)

/-- A heap becomes another by any changes. -/
abbrev Evolves : Heap → Heap → Prop := EvolvesSparing fun _ => False

/-! ## One change -/

theorem elements_modifyElements_of_ne (heap : Heap) {ref other : ArrayRef} (different : ref ≠ other)
    (change : Array Value → Array Value) :
    (heap.modifyElements ref change).elements other = heap.elements other := by
  have apart : ref.index ≠ other.index := by
    intro same
    apply different
    cases ref
    cases other
    exact congrArg ArrayRef.mk same
  simp only [elements, modifyElements, Array.getD_eq_getD_getElem?, Array.getElem?_modify,
    if_neg apart]

namespace Change

variable {spared : Container → Prop} {heap after : Heap}

theorem isIn (change : Change spared heap after) {container : Container}
    (present : container.IsIn heap) : container.IsIn after := by
  cases container with
  | array ref =>
    change ref.index < _ at present
    change ref.index < _
    cases change with
    | newArray => rw [Array.size_push]; omega
    | elements => simpa only [modifyElements, Array.size_modify] using present
    | newRecord | functions | entries => exact present
  | record ref =>
    change ref.index < _ at present
    change ref.index < _
    cases change with
    | newRecord => rw [Array.size_push]; omega
    | entries => simpa only [modifyEntries, Array.size_modify] using present
    | newArray | functions | elements => exact present

theorem containerCount_le (change : Change spared heap after) :
    heap.containerCount ≤ after.containerCount := by
  unfold containerCount
  cases change with
  | newArray | newRecord => simp only [Array.size_push]; omega
  | elements => simp only [modifyElements, Array.size_modify]; omega
  | entries => simp only [modifyEntries, Array.size_modify]; omega
  | functions => exact Nat.le_refl _

/-- The hooks of a record are those that it was built with. -/
theorem hooks_eq (change : Change spared heap after) {ref : RecordRef}
    (present : ref.index < heap.records.size) :
    (after.recordCell ref).hooks = (heap.recordCell ref).hooks := by
  cases change with
  | newRecord cell =>
    simp only [recordCell, Array.getD_eq_getD_getElem?, push_getElem?_of_lt _ _ _ present]
  | entries other => exact hooks_modifyEntries heap other ref _
  | newArray | functions | elements => rfl

/-- A spared container keeps its contents. -/
theorem sameIn (change : Change spared heap after) {container : Container}
    (present : container.IsIn heap) (kept : spared container) :
    container.SameIn heap after := by
  cases container with
  | array ref =>
    change after.elements ref = heap.elements ref
    cases change with
    | newArray elements =>
      simp only [Heap.elements, Array.getD_eq_getD_getElem?, push_getElem?_of_lt _ _ _ present]
    | elements other change free =>
      apply elements_modifyElements_of_ne
      rintro rfl
      exact free kept
    | newRecord | functions | entries => rfl
  | record ref =>
    change after.entries ref = heap.entries ref
    cases change with
    | newRecord cell =>
      simp only [Heap.entries, recordCell, Array.getD_eq_getD_getElem?,
        push_getElem?_of_lt _ _ _ present]
    | entries other change free =>
      apply entries_modifyEntries_of_ne
      rintro rfl
      exact free kept
    | newArray | functions | elements => rfl

end Change

/-! ## Many changes -/

namespace EvolvesSparing

variable {spared : Container → Prop} {heap later : Heap}

theorem modifyElements (heap : Heap) (ref : ArrayRef) (change : Array Value → Array Value)
    (free : ¬ spared (.array ref)) :
    EvolvesSparing spared heap (heap.modifyElements ref change) :=
  .single (.elements ref change free)

theorem modifyEntries (heap : Heap) (ref : RecordRef) (change : Entries Value → Entries Value)
    (free : ¬ spared (.record ref)) :
    EvolvesSparing spared heap (heap.modifyEntries ref change) :=
  .single (.entries ref change free)

theorem isIn (evolves : EvolvesSparing spared heap later) {container : Container}
    (present : container.IsIn heap) : container.IsIn later := by
  induction evolves with
  | refl => exact present
  | tail _ change ih => exact change.isIn ih

theorem containerCount_le (evolves : EvolvesSparing spared heap later) :
    heap.containerCount ≤ later.containerCount := by
  induction evolves with
  | refl => exact Nat.le_refl _
  | tail _ change ih => exact Nat.le_trans ih change.containerCount_le

theorem hooks_eq (evolves : EvolvesSparing spared heap later) {ref : RecordRef}
    (present : ref.index < heap.records.size) :
    (later.recordCell ref).hooks = (heap.recordCell ref).hooks := by
  induction evolves with
  | refl => rfl
  | tail earlier change ih =>
    have present : Container.IsIn _ (.record ref) := isIn earlier present
    rw [change.hooks_eq present, ih]

theorem sameIn (evolves : EvolvesSparing spared heap later) {container : Container}
    (present : container.IsIn heap) (kept : spared container) :
    container.SameIn heap later := by
  induction evolves with
  | refl => exact .refl heap container
  | tail earlier change ih => exact ih.trans (change.sameIn (isIn earlier present) kept)

end EvolvesSparing

/-! ## What becomes of functions -/

/-- A heap becomes another by changes that take no function away and put none in the place of
another. -/
structure Becomes (heap later : Heap) : Prop where
  evolves : heap.Evolves later
  functions : ∃ added, later.functions = heap.functions ++ added

namespace Becomes

variable {heap later : Heap}

theorem refl (heap : Heap) : heap.Becomes heap := ⟨.refl, #[], Array.append_empty.symm⟩

theorem trans {first second third : Heap} (left : first.Becomes second)
    (right : second.Becomes third) : first.Becomes third := by
  obtain ⟨added, early⟩ := left.functions
  obtain ⟨more, late⟩ := right.functions
  refine ⟨left.evolves.trans right.evolves, added ++ more, ?_⟩
  rw [late, early, Array.append_assoc]

theorem of_change (change : Change (fun _ => False) heap later)
    (same : later.functions = heap.functions) : heap.Becomes later :=
  ⟨.single change, #[], by rw [same, Array.append_empty]⟩

theorem of_added (heap : Heap) (added : Array FunctionCell) :
    heap.Becomes { heap with functions := heap.functions ++ added } :=
  ⟨.single (.functions _), added, rfl⟩

theorem modifyElements (heap : Heap) (ref : ArrayRef) (change : Array Value → Array Value) :
    heap.Becomes (heap.modifyElements ref change) := .of_change (.elements ref change id) rfl

theorem modifyEntries (heap : Heap) (ref : RecordRef) (change : Entries Value → Entries Value) :
    heap.Becomes (heap.modifyEntries ref change) := .of_change (.entries ref change id) rfl

theorem functions_size_le (becomes : heap.Becomes later) :
    heap.functions.size ≤ later.functions.size := by
  obtain ⟨added, later_eq⟩ := becomes.functions
  rw [later_eq, Array.size_append]
  exact Nat.le_add_right _ _

/-- A function stays what it was built as. -/
theorem functionCell_eq (becomes : heap.Becomes later) {ref : FunctionRef}
    (present : ref.index < heap.functions.size) :
    later.functionCell ref = heap.functionCell ref := by
  obtain ⟨added, later_eq⟩ := becomes.functions
  rw [functionCell, functionCell, later_eq, Array.getD_eq_getD_getElem?,
    Array.getD_eq_getD_getElem?, Array.getElem?_append_left present]

end Becomes

end Heap

end ScriptCore
