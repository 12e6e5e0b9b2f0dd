import ScriptCore.Member
import ScriptCore.Proofs.Heap.Evolution

/-! # Members read and written

A write to a member either fails and leaves the heap as it was, or changes the one container that it
goes to. A read changes no container; all that it can add to the heap is the function of a method.
-/

namespace ScriptCore

theorem Value.narrowKey_eq (v : Value) (range : Option SourceRange) :
    v.narrowKey range =
      match v.propertyKey? with
      | some key => .ok key
      | none => .error ⟨.unexpectedKind [.string, .number] v.kind, range⟩ := by
  cases v with
  | primitive p => cases p <;> rfl
  | array | record | function => rfl

theorem Method.ofName?_array {name : String} {method : Method}
    (has : ofName? .array name = some method) : name = "filter" ∨ name = "map" := by
  unfold ofName? at has
  split at has <;> simp_all

namespace ArrayRef

theorem write_apply (ref : ArrayRef) (property value : Value) (range : Option SourceRange)
    (heap : Heap) :
    ref.write property value range heap =
      match property.narrowKey range with
      | .error error => (.error error, heap)
      | .ok key =>
        match readIndex? key.text.toList with
        | none => (.error ⟨.invalidIndex key.text, range⟩, heap)
        | some index =>
          if arrayLengthLimit ≤ index then
            (.error ⟨.arrayTooLong (index + 1) arrayLengthLimit, range⟩, heap)
          else (.ok (), heap.modifyElements ref (putElement · index value)) := by
  simp only [write, Action.bind_apply, Action.ofExcept_apply]
  cases property.narrowKey range with
  | error error => rfl
  | ok key =>
    cases found : readIndex? key.text.toList with
    | none => simp only [found, Action.fail_apply]
    | some index =>
      by_cases long : arrayLengthLimit ≤ index <;>
        simp only [found, long, if_true, if_false, Action.fail_apply, Action.modify_apply]

end ArrayRef

namespace RecordRef

theorem read_apply (ref : RecordRef) (property : Value) (range : Option SourceRange)
    (heap : Heap) :
    ref.read property range heap =
      match property.narrowKey range with
      | .error error => (.error error, heap)
      | .ok key =>
        match (heap.recordCell ref).hooks.bind
            (·.answer? ref (heap.recordCell ref).entries key range) with
        | some value => (.ok value, heap)
        | none => (.ok (((heap.recordCell ref).entries.get? key.text).getD .undefined), heap) := by
  simp only [read, Action.bind_apply, Action.ofExcept_apply, Action.get_apply]
  cases property.narrowKey range with
  | error error => rfl
  | ok key =>
    dsimp only
    split <;> simp only [Action.pure_apply, *]

theorem write_apply (ref : RecordRef) (property value : Value) (range : Option SourceRange)
    (heap : Heap) :
    ref.write property value range heap =
      match property.narrowKey range with
      | .error error => (.error error, heap)
      | .ok key =>
        match ref.accept (heap.recordCell ref) key value range with
        | .error error => (.error error, heap)
        | .ok stored =>
          (.ok (), heap.modifyEntries ref fun entries =>
            (entries.insertAll stored).insert key.text value) := by
  simp only [write, Action.bind_apply, Action.ofExcept_apply, Action.get_apply]
  cases property.narrowKey range with
  | error error => rfl
  | ok key =>
    cases accepted : ref.accept (heap.recordCell ref) key value range <;>
      simp only [accepted, Action.modify_apply]

end RecordRef

namespace Value

/-- What a write that succeeds does to its target. -/
inductive WriteEffect (heap : Heap) : Value → Heap → Prop
  | element (ref : ArrayRef) (index : Nat) (value : Value) :
      WriteEffect heap (.array ref) (heap.modifyElements ref (putElement · index value))
  | entry (ref : RecordRef) (key : PropertyKey) (value : Value) (range : Option SourceRange)
      {stored : List (String × Value)}
      (accepted : ref.accept (heap.recordCell ref) key value range = .ok stored) :
      WriteEffect heap (.record ref) (heap.modifyEntries ref fun entries =>
        (entries.insertAll stored).insert key.text value)

theorem write_cases (v property value : Value) (range : Option SourceRange) (heap : Heap) :
    (∃ error, v.write property value range heap = (.error error, heap)) ∨
      ∃ after, v.write property value range heap = (.ok (), after) ∧
        v.WriteEffect heap after := by
  cases v with
  | primitive p => cases p <;> exact .inl ⟨_, rfl⟩
  | function ref => exact .inl ⟨_, rfl⟩
  | array ref =>
    change (∃ error, ref.write property value range heap = _) ∨
      ∃ after, ref.write property value range heap = _ ∧ _
    rw [ArrayRef.write_apply]
    split
    · exact .inl ⟨_, rfl⟩
    · split
      · exact .inl ⟨_, rfl⟩
      · split
        · exact .inl ⟨_, rfl⟩
        · exact .inr ⟨_, rfl, .element ref _ value⟩
  | record ref =>
    change (∃ error, ref.write property value range heap = _) ∨
      ∃ after, ref.write property value range heap = _ ∧ _
    rw [RecordRef.write_apply]
    split
    · exact .inl ⟨_, rfl⟩
    · split
      · exact .inl ⟨_, rfl⟩
      · next accepted => exact .inr ⟨_, rfl, .entry ref _ value range accepted⟩

/-- A write spares every container but the one that it goes to. -/
theorem write_evolvesSparing (v property value : Value) (range : Option SourceRange) (heap : Heap)
    {spared : Container → Prop}
    (elsewhere : ∀ container, Container.ofValue? v = some container → ¬ spared container) :
    heap.EvolvesSparing spared (v.write property value range heap).2 := by
  rcases v.write_cases property value range heap with ⟨error, fails⟩ | ⟨after, succeeds, effect⟩
  · rw [fails]
    exact .refl
  · rw [succeeds]
    cases effect with
    | element ref index value => exact .modifyElements heap ref _ (elsewhere _ rfl)
    | entry ref key value range accepted =>
      exact .modifyEntries heap ref (fun entries => (entries.insertAll _).insert key.text value)
        (elsewhere _ rfl)

end Value

/-- All that the action can do to a heap is to add functions. -/
def KeepsContainers {α : Type} (action : Action Heap α) : Prop :=
  ∀ heap, ∃ result added,
    action heap = (result, { heap with functions := heap.functions ++ added })

namespace KeepsContainers

variable {α β : Type}

theorem of_result {action : Action Heap α}
    (still : ∀ heap, ∃ result, action heap = (result, heap)) : KeepsContainers action := by
  intro heap
  obtain ⟨result, unchanged⟩ := still heap
  exact ⟨result, #[], by rw [unchanged, Array.append_empty]⟩

theorem pure (a : α) : KeepsContainers (pure a) := of_result fun _ => ⟨_, rfl⟩

theorem fail (cause : Cause) (range : Option SourceRange) :
    KeepsContainers (Action.fail cause range : Action Heap α) := of_result fun _ => ⟨_, rfl⟩

theorem bind {action : Action Heap α} {next : α → Action Heap β} (first : KeepsContainers action)
    (second : ∀ a, KeepsContainers (next a)) : KeepsContainers (action >>= next) := by
  intro heap
  obtain ⟨result, added, runs⟩ := first heap
  rw [Action.bind_apply, runs]
  cases result with
  | error error => exact ⟨_, _, rfl⟩
  | ok a =>
    obtain ⟨answer, more, continues⟩ := second a { heap with functions := heap.functions ++ added }
    exact ⟨answer, added ++ more, by rw [← Array.append_assoc, ← continues]⟩

theorem ofExcept (result : Except ScriptError α) :
    KeepsContainers (ofExcept result : Action Heap α) :=
  of_result fun heap => ⟨result, Action.ofExcept_apply result heap⟩

theorem get : KeepsContainers (get : Action Heap Heap) := of_result fun _ => ⟨_, rfl⟩

theorem newMethod (method : Method) (receiver : Value) (range : Option SourceRange) :
    KeepsContainers (newMethod method receiver range) := by
  intro heap
  exact ⟨_, #[⟨.method method range, receiver, false⟩], rfl⟩

end KeepsContainers

namespace Value

theorem readPayload_keepsContainers (p : Primitive) (property : Value)
    (range : Option SourceRange) : KeepsContainers (readPayload p property range) := by
  unfold readPayload
  split
  · exact .pure _
  · split
    · exact .pure _
    · split
      · exact .newMethod _ _ _
      · exact .pure _

theorem read_keepsContainers (v property : Value) (range : Option SourceRange) :
    KeepsContainers (v.read property range) := by
  unfold read
  split
  · exact .fail _ _
  · exact .fail _ _
  · exact readPayload_keepsContainers _ _ _
  · refine .bind (.ofExcept _) fun key => .bind .get fun heap => ?_
    dsimp only
    split
    · exact .pure _
    · split
      · exact .pure _
      · split
        · exact .newMethod _ _ _
        · exact .fail _ _
  · refine .bind (.ofExcept _) fun key => .bind .get fun heap => ?_
    dsimp only
    split <;> exact .pure _
  · exact .bind (.ofExcept _) fun _ => .pure _

end Value

end ScriptCore
