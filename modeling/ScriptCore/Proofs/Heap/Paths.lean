import Mathlib.Data.List.Perm.Subperm
import ScriptCore.Proofs.Heap.Evolution

/-! # Paths through containers

A path is a list of positions, each among the contents of the container that the path has come to. A
value reaches the containers that paths from it lead to. Where paths lead depends on the contents
of these containers alone, so nothing changes below a value in a heap that evolves sparing them.

A value is acyclic if no path comes back to where it has been. Paths from it are then no longer than
there are containers.
-/

namespace ScriptCore

namespace Heap

/-- The elements of an array, or the values of the own entries of a record, in order. -/
def contents (heap : Heap) : Value → List Value
  | .array ref => (heap.elements ref).toList
  | .record ref => (heap.entries ref).toList.map Prod.snd
  | .primitive _ | .function _ => []

/-- The value that a path leads to. -/
def follow (heap : Heap) : Value → List Nat → Option Value
  | v, [] => some v
  | v, index :: path => (heap.contents v)[index]?.bind (heap.follow · path)

def Reaches (heap : Heap) (v : Value) (container : Container) : Prop :=
  ∃ path, heap.follow v path = some container.value

/-- All containers that a value reaches are in the heap, as they are for the values of that heap. -/
def Covers (heap : Heap) (v : Value) : Prop :=
  ∀ container, heap.Reaches v container → container.IsIn heap

/-- No path from a value comes back to where it has been. -/
def Acyclic (heap : Heap) (v : Value) : Prop :=
  ∀ path loop w, heap.follow v path = some w → heap.follow v (path ++ loop) = some w → loop = []

/-- No path from a value leads to a function. -/
def Functionless (heap : Heap) (v : Value) : Prop :=
  ∀ path ref, heap.follow v path ≠ some (.function ref)

/-- All containers that a value reaches have the same contents in another heap. -/
def SameBelow (heap later : Heap) (v : Value) : Prop :=
  ∀ container, heap.Reaches v container → container.SameIn heap later

variable {heap later : Heap} {v w : Value}

/-! ## Following paths -/

theorem follow_cons (heap : Heap) (v : Value) (index : Nat) (path : List Nat) :
    heap.follow v (index :: path) = (heap.contents v)[index]?.bind (heap.follow · path) := rfl

theorem follow_append (heap : Heap) (v : Value) (path rest : List Nat) :
    heap.follow v (path ++ rest) = (heap.follow v path).bind (heap.follow · rest) := by
  induction path generalizing v with
  | nil => rfl
  | cons index path ih =>
    rw [List.cons_append, follow_cons, follow_cons, Option.bind_assoc]
    exact congrArg _ (funext ih)

theorem follow_append_of_some {path : List Nat} (leads : heap.follow v path = some w)
    (rest : List Nat) : heap.follow v (path ++ rest) = heap.follow w rest := by
  rw [follow_append, leads, Option.bind_some]

/-- What is held by a value is one position away from it. -/
theorem exists_index_of_mem (held : w ∈ heap.contents v) :
    ∃ index, ∀ path, heap.follow v (index :: path) = heap.follow w path := by
  obtain ⟨index, isThere⟩ := List.mem_iff_getElem?.mp held
  refine ⟨index, fun path => ?_⟩
  rw [follow_cons, isThere, Option.bind_some]

/-- Only containers hold anything. -/
theorem exists_container_of_mem (held : w ∈ heap.contents v) :
    ∃ container : Container, v = container.value := by
  cases v with
  | array ref => exact ⟨.array ref, rfl⟩
  | record ref => exact ⟨.record ref, rfl⟩
  | primitive | function => exact absurd held List.not_mem_nil

theorem Reaches.self (heap : Heap) (container : Container) :
    heap.Reaches container.value container := ⟨[], rfl⟩

theorem Reaches.of_mem {container : Container} (reaches : heap.Reaches w container)
    (held : w ∈ heap.contents v) : heap.Reaches v container := by
  obtain ⟨index, step⟩ := exists_index_of_mem held
  obtain ⟨path, leads⟩ := reaches
  exact ⟨index :: path, (step path).trans leads⟩

theorem Functionless.of_mem (functionless : heap.Functionless v) (held : w ∈ heap.contents v) :
    heap.Functionless w := by
  intro path ref leads
  obtain ⟨index, step⟩ := exists_index_of_mem held
  exact functionless (index :: path) ref ((step path).trans leads)

/-! ## The same containers below a value -/

namespace SameBelow

theorem of_mem (same : heap.SameBelow later v) (held : w ∈ heap.contents v) :
    heap.SameBelow later w := fun container reaches => same container (reaches.of_mem held)

theorem contents_eq (same : heap.SameBelow later v) : later.contents v = heap.contents v := by
  cases v with
  | array ref =>
    have elements : later.elements ref = heap.elements ref :=
      same (.array ref) (.self heap (.array ref))
    rw [contents, contents, elements]
  | record ref =>
    have entries : later.entries ref = heap.entries ref :=
      same (.record ref) (.self heap (.record ref))
    rw [contents, contents, entries]
  | primitive | function => rfl

theorem follow_eq (same : heap.SameBelow later v) (path : List Nat) :
    later.follow v path = heap.follow v path := by
  induction path generalizing v with
  | nil => rfl
  | cons index path ih =>
    rw [follow_cons, follow_cons, same.contents_eq]
    cases isThere : (heap.contents v)[index]? with
    | none => rfl
    | some w => exact ih (same.of_mem (List.mem_of_getElem? isThere))

theorem reaches_iff (same : heap.SameBelow later v) (container : Container) :
    later.Reaches v container ↔ heap.Reaches v container := by
  unfold Reaches
  simp only [same.follow_eq]

theorem acyclic (same : heap.SameBelow later v) (acyclic : heap.Acyclic v) :
    later.Acyclic v := by
  intro path loop w leads back
  rw [same.follow_eq] at leads back
  exact acyclic path loop w leads back

end SameBelow

/-- A heap that evolves sparing what a value reaches stays the same below the value. -/
theorem EvolvesSparing.sameBelow (evolves : heap.EvolvesSparing (heap.Reaches v) later)
    (covers : heap.Covers v) : heap.SameBelow later v :=
  fun container reaches => evolves.sameIn (covers container reaches) reaches

theorem EvolvesSparing.covers (evolves : heap.EvolvesSparing (heap.Reaches v) later)
    (covers : heap.Covers v) : later.Covers v := by
  intro container reaches
  have reached := ((evolves.sameBelow covers).reaches_iff container).mp reaches
  exact evolves.isIn (covers container reached)

/-! ## The length of acyclic paths -/

/-- The values that a path leaves behind, first to last. -/
def trail (heap : Heap) : Value → List Nat → List Value
  | _, [] => []
  | v, index :: path =>
    match (heap.contents v)[index]? with
    | none => []
    | some w => v :: heap.trail w path

def containers (heap : Heap) : List Value :=
  (List.range heap.arrays.size).map (fun index => .array ⟨index⟩) ++
    (List.range heap.records.size).map fun index => .record ⟨index⟩

theorem length_containers (heap : Heap) : heap.containers.length = heap.containerCount := by
  simp only [containers, List.length_append, List.length_map, List.length_range, containerCount]

theorem mem_containers {container : Container} (present : container.IsIn heap) :
    container.value ∈ heap.containers := by
  cases container with
  | array ref =>
    exact List.mem_append_left _ (List.mem_map.mpr ⟨ref.index, List.mem_range.mpr present, rfl⟩)
  | record ref =>
    exact List.mem_append_right _ (List.mem_map.mpr ⟨ref.index, List.mem_range.mpr present, rfl⟩)

theorem length_trail {path : List Nat} (leads : heap.follow v path = some w) :
    (heap.trail v path).length = path.length := by
  induction path generalizing v with
  | nil => rfl
  | cons index path ih =>
    obtain ⟨next, isThere, leads⟩ := Option.bind_eq_some_iff.mp leads
    simp only [trail, isThere, List.length_cons, ih leads]

theorem exists_path_of_mem_trail {path : List Nat} (left : w ∈ heap.trail v path) :
    ∃ before, heap.follow v before = some w ∧ heap.contents w ≠ [] := by
  induction path generalizing v with
  | nil => exact absurd left List.not_mem_nil
  | cons index path ih =>
    unfold trail at left
    split at left
    · exact absurd left List.not_mem_nil
    · next next isThere =>
      rcases List.mem_cons.mp left with rfl | left
      · exact ⟨[], rfl, List.ne_nil_of_mem (List.mem_of_getElem? isThere)⟩
      · obtain ⟨before, leads, holds⟩ := ih left
        refine ⟨index :: before, ?_, holds⟩
        rw [follow_cons, isThere, Option.bind_some, leads]

/-- A container that holds anything is in the heap. -/
theorem isIn_of_contents_ne_nil {container : Container}
    (holds : heap.contents container.value ≠ []) : container.IsIn heap := by
  by_contra outside
  apply holds
  cases container with
  | array ref =>
    have missing : heap.arrays[ref.index]? = none :=
      Array.getElem?_eq_none (Nat.le_of_not_lt outside)
    rw [Container.value, contents, elements, Array.getD_eq_getD_getElem?, missing]
    rfl
  | record ref =>
    have missing : heap.records[ref.index]? = none :=
      Array.getElem?_eq_none (Nat.le_of_not_lt outside)
    rw [Container.value, contents, entries, recordCell, Array.getD_eq_getD_getElem?, missing]
    rfl

theorem mem_containers_of_mem_trail {path : List Nat} (left : w ∈ heap.trail v path) :
    w ∈ heap.containers := by
  obtain ⟨before, -, holds⟩ := exists_path_of_mem_trail left
  obtain ⟨inner, held⟩ := List.exists_mem_of_ne_nil _ holds
  obtain ⟨container, rfl⟩ := exists_container_of_mem held
  exact mem_containers (isIn_of_contents_ne_nil holds)

namespace Acyclic

theorem of_mem (acyclic : heap.Acyclic v) (held : w ∈ heap.contents v) : heap.Acyclic w := by
  intro path loop other leads back
  obtain ⟨index, step⟩ := exists_index_of_mem held
  exact acyclic (index :: path) loop other ((step path).trans leads)
    ((step (path ++ loop)).trans back)

/-- A path from an acyclic value leaves no value twice. -/
theorem nodup_trail (acyclic : heap.Acyclic v) (path : List Nat) : (heap.trail v path).Nodup := by
  induction path generalizing v with
  | nil => exact List.nodup_nil
  | cons index path ih =>
    unfold trail
    split
    · exact List.nodup_nil
    · next next isThere =>
      have below := acyclic.of_mem (List.mem_of_getElem? isThere)
      refine List.nodup_cons.mpr ⟨fun again => ?_, ih below⟩
      obtain ⟨before, back, -⟩ := exists_path_of_mem_trail again
      have loop : heap.follow v (index :: before) = some v := by
        rw [follow_cons, isThere, Option.bind_some, back]
      exact List.cons_ne_nil index before (acyclic [] (index :: before) v rfl loop)

/-- The values that the path leaves are different containers of the heap. -/
theorem length_le (acyclic : heap.Acyclic v) {path : List Nat}
    (leads : heap.follow v path = some w) : path.length ≤ heap.containerCount := by
  have among : heap.trail v path ⊆ heap.containers :=
    fun _ left => mem_containers_of_mem_trail left
  calc path.length = (heap.trail v path).length := (length_trail leads).symm
    _ ≤ heap.containers.length :=
      (List.subperm_of_subset (acyclic.nodup_trail path) among).length_le
    _ = heap.containerCount := heap.length_containers

end Acyclic

/-! ## What holds along paths -/

section Below

variable {Below : Value → Prop} (closed : ∀ v, Below v → ∀ w ∈ heap.contents v, Below w)
include closed

theorem of_follow (below : Below v) {path : List Nat} (leads : heap.follow v path = some w) :
    Below w := by
  induction path generalizing v with
  | nil => exact Option.some.inj leads ▸ below
  | cons index path ih =>
    obtain ⟨next, isThere, leads⟩ := Option.bind_eq_some_iff.mp leads
    exact ih (closed v below next (List.mem_of_getElem? isThere)) leads

variable {rank : Value → Nat}
  (falls : ∀ v, Below v → ∀ w ∈ heap.contents v, rank w < rank v)
include falls

theorem rank_add_length_le (below : Below v) {path : List Nat}
    (leads : heap.follow v path = some w) : rank w + path.length ≤ rank v := by
  induction path generalizing v with
  | nil => exact Option.some.inj leads ▸ Nat.le_refl _
  | cons index path ih =>
    obtain ⟨next, isThere, leads⟩ := Option.bind_eq_some_iff.mp leads
    have held := List.mem_of_getElem? isThere
    have lower := falls v below next held
    have := ih (closed v below next held) leads
    rw [List.length_cons]
    omega

/-- There is no way back up when a rank falls along every path. -/
theorem acyclic_of_rank (below : Below v) : heap.Acyclic v := by
  intro path loop w leads back
  have loops := (follow_append_of_some leads loop).symm.trans back
  have := rank_add_length_le closed falls (of_follow closed below leads) loops
  exact List.eq_nil_of_length_eq_zero (by omega)

end Below

end Heap

end ScriptCore
