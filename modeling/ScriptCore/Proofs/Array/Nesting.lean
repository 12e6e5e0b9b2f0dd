import Mathlib.Data.Finset.Card
import Mathlib.Logic.Relation
import ScriptCore.Coercion.Basic

/-! # Arrays inside arrays

An array holds its elements, and among them may be arrays. If none that is found in a value this way
holds itself, fewer arrays are found in each element than in the array. So an outline, which goes as
deep as the heap has arrays, comes to the end of such a value, and the outline of an array is that
of its elements.
-/

namespace ScriptCore

/-- Whether a value is none of the arrays from this index on. -/
def Value.isOlder (index : Nat) : Value → Bool
  | .array ref => ref.index < index
  | .primitive _ | .record _ | .function _ => true

namespace Heap

/-- The first value is an array and the second one of its elements. -/
inductive Holds (heap : Heap) : Value → Value → Prop
  | element {ref v} (isThere : v ∈ (heap.elements ref).toList) : Holds heap (.array ref) v

/-- No value that is found in this one through arrays is found in itself. -/
def ArraysAcyclic (heap : Heap) (v : Value) : Prop :=
  ∀ w, Relation.ReflTransGen heap.Holds v w → ¬ Relation.TransGen heap.Holds w w

open Classical in
/-- The arrays of the heap that are found in a value, itself included. -/
noncomputable def arraysIn (heap : Heap) (v : Value) : Finset Nat :=
  (Finset.range heap.arrays.size).filter fun index =>
    Relation.ReflTransGen heap.Holds v (.array ⟨index⟩)

variable {heap : Heap} {v w : Value} {ref : ArrayRef}

theorem mem_arraysIn_iff {index : Nat} : index ∈ heap.arraysIn v ↔
    index < heap.arrays.size ∧ Relation.ReflTransGen heap.Holds v (.array ⟨index⟩) := by
  classical
  rw [arraysIn, Finset.mem_filter, Finset.mem_range]

theorem card_arraysIn_le (heap : Heap) (v : Value) :
    (heap.arraysIn v).card ≤ heap.arrays.size := by
  classical
  exact (Finset.card_filter_le _ _).trans_eq (Finset.card_range _)

/-- An array that holds anything is in the heap. -/
theorem Holds.index_lt (holds : heap.Holds (.array ref) w) : ref.index < heap.arrays.size := by
  obtain ⟨isThere⟩ := holds
  by_contra outside
  rw [elements, Array.getD_eq_getD_getElem?, Array.getElem?_eq_none (Nat.le_of_not_lt outside)]
    at isThere
  exact absurd isThere List.not_mem_nil

/-- Arrays hold only arrays that were made before them. -/
def HoldsOlder (heap : Heap) : Prop :=
  ∀ index < heap.arrays.size, ∀ v ∈ (heap.elements ⟨index⟩).toList, v.isOlder index

instance : DecidablePred HoldsOlder := fun _ => Nat.decidableBallLT ..

theorem HoldsOlder.index_lt (older : heap.HoldsOlder) {ref inner : ArrayRef}
    (found : Relation.TransGen heap.Holds (.array ref) (.array inner)) :
    inner.index < ref.index := by
  have step {ref inner : ArrayRef} (holds : heap.Holds (.array ref) (.array inner)) :
      inner.index < ref.index := by
    have present := holds.index_lt
    obtain ⟨isThere⟩ := holds
    exact of_decide_eq_true (older ref.index present _ isThere)
  generalize isOuter : Value.array ref = outer at found
  induction found using Relation.TransGen.head_induction_on generalizing ref with
  | single holds => exact step (isOuter ▸ holds)
  | head holds found ih =>
    obtain ⟨_, ⟨_⟩, -⟩ := Relation.TransGen.head'_iff.mp found
    exact (ih rfl).trans (step (isOuter ▸ holds))

theorem HoldsOlder.arraysAcyclic (older : heap.HoldsOlder) (v : Value) : heap.ArraysAcyclic v := by
  intro w _ loops
  obtain ⟨_, ⟨_⟩, -⟩ := Relation.TransGen.head'_iff.mp loops
  exact Nat.lt_irrefl _ (older.index_lt loops)

namespace ArraysAcyclic

theorem of_holds (acyclic : heap.ArraysAcyclic v) (holds : heap.Holds v w) :
    heap.ArraysAcyclic w := fun other found => acyclic other (.head holds found)

/-- A value is acyclic if its elements are found in one that is. -/
theorem of_found {u : Value} (acyclic : heap.ArraysAcyclic v)
    (found : ∀ w, heap.Holds u w → Relation.ReflTransGen heap.Holds v w) :
    heap.ArraysAcyclic u := by
  intro w below loops
  rcases below.cases_head with rfl | ⟨x, holds, below⟩
  · obtain ⟨x, holds, back⟩ := Relation.TransGen.head'_iff.mp loops
    exact acyclic x (found x holds) (.tail' back holds)
  · exact acyclic w ((found x holds).trans below) loops

theorem card_lt (acyclic : heap.ArraysAcyclic v) (holds : heap.Holds v w) :
    (heap.arraysIn w).card < (heap.arraysIn v).card := by
  obtain @⟨ref, w, isThere⟩ := holds
  have holds : heap.Holds (.array ref) w := .element isThere
  refine Finset.card_lt_card (Finset.ssubset_iff_of_subset ?_ |>.mpr ⟨ref.index, ?_, ?_⟩)
  · intro index inside
    rw [mem_arraysIn_iff] at inside ⊢
    exact ⟨inside.1, .head holds inside.2⟩
  · exact mem_arraysIn_iff.mpr ⟨holds.index_lt, .refl⟩
  · intro inside
    exact acyclic _ .refl (.head' holds (mem_arraysIn_iff.mp inside).2)

/-- What holds of a value as soon as it holds of its elements holds of all acyclic values. -/
theorem induction {motive : Value → Prop} (acyclic : heap.ArraysAcyclic v)
    (step : ∀ v, heap.ArraysAcyclic v → (∀ w, heap.Holds v w → motive w) → motive v) :
    motive v := by
  induction size : (heap.arraysIn v).card using Nat.strong_induction_on generalizing v with
  | _ size ih =>
    refine step v acyclic fun w holds => ?_
    exact ih _ (size ▸ acyclic.card_lt holds) (acyclic.of_holds holds) rfl

/-- How deep an outline may go does not show once it is deep enough. -/
theorem outlineWithin_eq (acyclic : heap.ArraysAcyclic v) {room wide : Nat}
    (enough : (heap.arraysIn v).card < room) (ample : (heap.arraysIn v).card < wide) :
    heap.outlineWithin room v = heap.outlineWithin wide v := by
  induction room generalizing v wide with
  | zero => exact absurd enough (Nat.not_lt_zero _)
  | succ room ih =>
    obtain ⟨wide, rfl⟩ : ∃ inner, wide = inner + 1 := ⟨wide - 1, by omega⟩
    cases v with
    | primitive | record | function => rfl
    | array ref =>
      rw [outlineWithin, outlineWithin]
      refine congrArg _ (List.map_congr_left fun w isThere => ?_)
      have less := acyclic.card_lt (.element isThere)
      exact ih (acyclic.of_holds (.element isThere)) (by omega) (by omega)

/-- The outline of an array is that of its elements. -/
theorem outline_array (acyclic : heap.ArraysAcyclic (.array ref)) :
    heap.outline (.array ref) = .array ((heap.elements ref).toList.map heap.outline) := by
  rw [outline, outlineWithin]
  refine congrArg _ (List.map_congr_left fun w isThere => ?_)
  have less := acyclic.card_lt (.element isThere)
  have few := heap.card_arraysIn_le (.array ref)
  exact (acyclic.of_holds (.element isThere)).outlineWithin_eq (by omega) (by omega)

end ArraysAcyclic

end Heap

end ScriptCore
