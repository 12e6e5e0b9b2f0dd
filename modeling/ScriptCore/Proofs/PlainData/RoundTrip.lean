import ScriptCore.PlainData.Conversion
import ScriptCore.Proofs.Entries
import ScriptCore.Proofs.Heap

/-! # Plain data round trip

Creating a value from plain data extends the heap, and in every extension of the new heap the value
projects to the data again: containers built later for siblings are never among those built before.
The number of new containers bounds how deep they stand in each other, so the depth that a
projection allows is always enough.
-/

namespace ScriptCore

/-- The keys of every object in the data are distinct. -/
inductive PlainData.DistinctKeys : PlainData → Prop
  | primitive (p : Primitive) : DistinctKeys (.primitive p)
  | array {items : List PlainData} (each : ∀ item ∈ items, item.DistinctKeys) :
      DistinctKeys (.array items)
  | object {members : List (String × PlainData)} (distinct : (members.map Prod.fst).Nodup)
      (each : ∀ member ∈ members, member.2.DistinctKeys) : DistinctKeys (.object members)

namespace Heap

theorem Extends.containerCount_le {heap later : Heap} (extension : heap.Extends later) :
    heap.containerCount ≤ later.containerCount :=
  Nat.add_le_add extension.arrays_size_le extension.records_size_le

theorem toPlainWithin_array (heap : Heap) (depth : Nat) (ref : ArrayRef) :
    heap.toPlainWithin (depth + 1) (.array ref) =
      .array <$> (heap.elements ref).toList.mapM (heap.toPlainWithin depth) := by
  rw [toPlainWithin]

theorem toPlainWithin_record (heap : Heap) (depth : Nat) (ref : RecordRef) :
    heap.toPlainWithin (depth + 1) (.record ref) =
      .object <$> (heap.entries ref).toList.mapM fun entry =>
        (entry.1, ·) <$> heap.toPlainWithin depth entry.2 := by
  rw [toPlainWithin]

end Heap

namespace PlainData

mutual

theorem create_projects : ∀ (data : PlainData), data.DistinctKeys → ∀ heap : Heap,
    ∃ value after, data.create heap = (.ok value, after) ∧ heap.Extends after ∧
      ∀ later, after.Extends later →
        ∀ room, after.containerCount ≤ heap.containerCount + room →
          later.toPlainWithin room value = .ok data
  | .primitive p, _, heap => ⟨.primitive p, heap, rfl, .refl heap, fun _ _ _ _ => by
      rw [Heap.toPlainWithin]⟩
  | .array items, .array each, heap => by
    obtain ⟨values, middle, created, extension, projects⟩ := createAll_projects items each heap
    obtain ⟨after, allocated, growth, count, holds⟩ := newArray_apply values.toArray middle
    refine ⟨.array ⟨middle.arrays.size⟩, after, ?_, extension.trans growth, ?_⟩
    · rw [create, Action.bind_of_ok created, Action.map_of_ok allocated]
    · intro later further room enough
      have grown := extension.containerCount_le
      obtain ⟨room, rfl⟩ : ∃ inner, room = inner + 1 := ⟨room - 1, by omega⟩
      rw [Heap.toPlainWithin_array, holds later further,
        projects later (growth.trans further) room (by omega)]
      rfl
  | .object members, .object distinct each, heap => by
    obtain ⟨entries, middle, created, keys, extension, projects⟩ :=
      createMembers_projects members each heap
    obtain ⟨after, allocated, growth, count, holds⟩ :=
      newRecord_apply (.ofList entries) none middle
    refine ⟨.record ⟨middle.records.size⟩, after, ?_, extension.trans growth, ?_⟩
    · rw [create, Action.bind_of_ok created, Action.map_of_ok allocated]
    · intro later further room enough
      have grown := extension.containerCount_le
      obtain ⟨room, rfl⟩ : ∃ inner, room = inner + 1 := ⟨room - 1, by omega⟩
      rw [Heap.toPlainWithin_record, Heap.entries, holds later further,
        Entries.toList_ofList_of_nodup (by rw [keys]; exact distinct),
        projects later (growth.trans further) room (by omega)]
      rfl

theorem createAll_projects : ∀ (items : List PlainData), (∀ item ∈ items, item.DistinctKeys) →
    ∀ heap : Heap, ∃ values after, createAll items heap = (.ok values, after) ∧
      heap.Extends after ∧
      ∀ later, after.Extends later →
        ∀ room, after.containerCount ≤ heap.containerCount + room →
          values.mapM (later.toPlainWithin room) = .ok items
  | [], _, heap => ⟨[], heap, rfl, .refl heap, fun _ _ _ _ => rfl⟩
  | item :: rest, each, heap => by
    obtain ⟨value, middle, created, extension, projects⟩ :=
      create_projects item (each item (List.mem_cons_self ..)) heap
    obtain ⟨values, after, createdAll, growth, projectsAll⟩ :=
      createAll_projects rest (fun other member => each other (List.mem_cons_of_mem _ member))
        middle
    refine ⟨value :: values, after, ?_, extension.trans growth, ?_⟩
    · rw [createAll, Action.bind_of_ok created, Action.bind_of_ok createdAll]
      rfl
    · intro later further room enough
      have grown := extension.containerCount_le
      have growing := growth.containerCount_le
      rw [List.mapM_cons, projects later (growth.trans further) room (by omega),
        projectsAll later further room (by omega)]
      rfl

theorem createMembers_projects : ∀ (members : List (String × PlainData)),
    (∀ member ∈ members, member.2.DistinctKeys) → ∀ heap : Heap,
    ∃ entries after, createMembers members heap = (.ok entries, after) ∧
      entries.map Prod.fst = members.map Prod.fst ∧ heap.Extends after ∧
      ∀ later, after.Extends later →
        ∀ room, after.containerCount ≤ heap.containerCount + room →
          (entries.mapM fun entry => (entry.1, ·) <$> later.toPlainWithin room entry.2) =
            .ok members
  | [], _, heap => ⟨[], heap, rfl, rfl, .refl heap, fun _ _ _ _ => rfl⟩
  | (key, item) :: rest, each, heap => by
    obtain ⟨value, middle, created, extension, projects⟩ :=
      create_projects item (each (key, item) (List.mem_cons_self ..)) heap
    obtain ⟨entries, after, createdAll, keys, growth, projectsAll⟩ :=
      createMembers_projects rest (fun other member => each other (List.mem_cons_of_mem _ member))
        middle
    refine ⟨(key, value) :: entries, after, ?_, by simp [keys], extension.trans growth, ?_⟩
    · rw [createMembers, Action.bind_of_ok created, Action.bind_of_ok createdAll]
      rfl
    · intro later further room enough
      have grown := extension.containerCount_le
      have growing := growth.containerCount_le
      rw [List.mapM_cons, projects later (growth.trans further) room (by omega),
        projectsAll later further room (by omega)]
      rfl

end

/-- Data whose objects have distinct keys comes back as it was, order included, and building it
changes no array and no record that was there. -/
theorem toPlain_create (data : PlainData) (distinct : data.DistinctKeys) (heap : Heap) :
    ∃ value after, data.create heap = (.ok value, after) ∧ after.toPlain value = .ok data ∧
      (∀ ref : ArrayRef, ref.index < heap.arrays.size →
        after.elements ref = heap.elements ref) ∧
      (∀ ref : RecordRef, ref.index < heap.records.size →
        after.recordCell ref = heap.recordCell ref) := by
  obtain ⟨value, after, created, extension, projects⟩ := data.create_projects distinct heap
  exact ⟨value, after, created, projects after (.refl after) _ (by omega),
    fun _ valid => extension.elements_eq valid, fun _ valid => extension.recordCell_eq valid⟩

theorem toPlain_create_unusualKeys :
    let data : PlainData := .object [
      ("__proto__", .array [.primitive (.number .nan), .primitive (.number .negativeZero)]),
      ("self", .object []), ("", .primitive .undefined)]
    let heap : Heap := ⟨#[#[.null]], #[⟨.ofList [("x", .null)], none⟩], #[]⟩
    data.DistinctKeys ∧
      ∃ value after, data.create heap = (.ok value, after) ∧ after.toPlain value = .ok data ∧
        after.elements ⟨0⟩ = #[.null] ∧ after.recordCell ⟨0⟩ = heap.recordCell ⟨0⟩ := by
  intro data heap
  have distinct : data.DistinctKeys := by
    refine .object (by decide) fun member isMember => ?_
    simp only [List.mem_cons, List.not_mem_nil, or_false] at isMember
    obtain rfl | rfl | rfl := isMember
    · refine .array fun item isItem => ?_
      simp only [List.mem_cons, List.not_mem_nil, or_false] at isItem
      obtain rfl | rfl := isItem <;> exact .primitive _
    · exact .object (by decide) (by simp)
    · exact .primitive _
  obtain ⟨value, after, created, projects, arrays, records⟩ := toPlain_create data distinct heap
  exact ⟨distinct, value, after, created, projects, arrays ⟨0⟩ (by decide),
    records ⟨0⟩ (by decide)⟩

end PlainData

end ScriptCore
