import Mathlib.Tactic.Common
import ScriptCore.Number.Fixed
import ScriptCore.Proofs.Member.Access
import ScriptCore.Proofs.Scope.Operations
import ScriptCore.Record.Hooked

/-! # Where errors are placed

Whoever reads, writes, narrows or converts says for which place in the script it does so, and an
error of the operation is at that place, whichever of its checks fails. Hooks raise errors of their
own and are trusted to put them there too.
-/

namespace ScriptCore

/-- If the result is an error, it is at the place. -/
def Placed {α : Type} (range : Option SourceRange) (result : Except ScriptError α) : Prop :=
  ∀ error, result = .error error → error.range = range

namespace Placed

variable {α : Type} {range : Option SourceRange}

theorem ok (a : α) : Placed range (.ok a) := by
  rintro error ⟨⟩

theorem error (cause : Cause) : Placed range (.error ⟨cause, range⟩ : Except ScriptError α) := by
  rintro error ⟨⟩
  rfl

theorem of_error {β : Type} {result : Except ScriptError α} (placed : Placed range result)
    {error : ScriptError} (failed : result = .error error) :
    Placed range (.error error : Except ScriptError β) := by
  rintro _ ⟨⟩
  exact placed error failed

theorem bind {β : Type} {result : Except ScriptError α} {next : α → Except ScriptError β}
    (first : Placed range result) (second : ∀ a, Placed range (next a)) :
    Placed range (result >>= next) := by
  cases result with
  | error error => exact first.of_error rfl
  | ok a => exact second a

end Placed

/-- Whatever the state is, if the action fails, it fails at the place. -/
def Action.FailsAt {σ α : Type} (range : Option SourceRange) (action : Action σ α) : Prop :=
  ∀ state, Placed range (action state).1

namespace Action.FailsAt

variable {σ α β : Type} {range : Option SourceRange}

theorem pure (a : α) : FailsAt range (pure a : Action σ α) := fun _ => .ok a

theorem fail (cause : Cause) : FailsAt range (Action.fail cause range : Action σ α) :=
  fun _ => .error cause

theorem modify (change : σ → σ) : FailsAt range (modify change : Action σ PUnit) :=
  fun _ => .ok _

theorem ofExcept {result : Except ScriptError α} (placed : Placed range result) :
    FailsAt range (ofExcept result : Action σ α) := by
  intro state
  rwa [ofExcept_apply]

theorem bind {action : Action σ α} {next : α → Action σ β} (first : FailsAt range action)
    (second : ∀ a, FailsAt range (next a)) : FailsAt range (action >>= next) := by
  intro state
  have placed := first state
  rw [bind_apply]
  rcases outcome : action state with ⟨error | a, after⟩
  · rw [outcome] at placed
    exact placed.of_error rfl
  · exact second a after

theorem of_get {next : σ → Action σ β} (second : ∀ state, FailsAt range (next state)) :
    FailsAt range (get >>= next) := bind (fun _ => .ok _) second

theorem newMethod (method : Method) (receiver : Value) :
    FailsAt range (newMethod method receiver range) := fun _ => .ok _

end Action.FailsAt

open ScriptCore.Action (FailsAt)

/-! ## Narrowings and numbers -/

theorem Narrowing.finish_placed {α : Type} (narrowing : Narrowing α)
    (range : Option SourceRange) : Placed range (narrowing.finish range) := by
  unfold finish
  split
  · exact .ok _
  · exact .error _

theorem Value.narrowKey_placed (v : Value) (range : Option SourceRange) :
    Placed range (v.narrowKey range) := Narrowing.finish_placed _ range

theorem Double.toFixed_placed (n places : Double) (range : Option SourceRange) :
    Placed range (n.toFixed places range) := by
  fun_induction toFixed n places range with
  | case1 => exact .error _
  | case2 => exact .ok _
  | case3 _ _ _ _ _ _ ih => exact ih.bind fun _ => .ok _
  | case4 => exact .ok _
  | case5 => exact .ok _

/-! ## Hooks -/

/-- The refusals of the hooks are at the place that the hooks were given. -/
def Hooks.KeepsPlace (hooks : Hooks) : Prop :=
  ∀ ref entries key value range, Placed range (hooks.accept ref entries key value range)

theorem Hooks.global_keepsPlace : global.KeepsPlace := by
  intro ref entries key value range
  unfold global
  dsimp only
  split
  · exact .error _
  · exact .ok _

theorem HookTable.hooks_keepsPlace (table : HookTable) (operands : List Value) :
    (table.hooks operands).KeepsPlace := by
  intro ref entries key value range
  unfold hooks
  dsimp only
  split
  · exact .error _
  · exact .ok _

/-- All hooks of records keep their refusals at the place that they were given. -/
def Heap.HooksKeepPlace (heap : Heap) : Prop :=
  ∀ ref hooks, (heap.recordCell ref).hooks = some hooks → hooks.KeepsPlace

/-! ## Members -/

theorem ArrayRef.read_failsAt (ref : ArrayRef) (property : Value) (range : Option SourceRange) :
    FailsAt range (ref.read property range) := by
  refine .bind (.ofExcept (property.narrowKey_placed range)) fun key => .of_get fun heap => ?_
  dsimp only
  split
  · exact .pure _
  · split
    · exact .pure _
    · split
      · exact .newMethod _ _
      · exact .fail _

theorem ArrayRef.write_failsAt (ref : ArrayRef) (property value : Value)
    (range : Option SourceRange) : FailsAt range (ref.write property value range) := by
  refine .bind (.ofExcept (property.narrowKey_placed range)) fun key => ?_
  dsimp only
  split
  · exact .fail _
  · split
    · exact .fail _
    · exact .modify _

namespace RecordRef

variable {heap : Heap}

theorem read_failsAt (ref : RecordRef) (property : Value) (range : Option SourceRange) :
    FailsAt range (ref.read property range) := by
  refine .bind (.ofExcept (property.narrowKey_placed range)) fun key => .of_get fun heap => ?_
  dsimp only
  split <;> exact .pure _

theorem accept_placed (kept : heap.HooksKeepPlace) (ref : RecordRef) (key : PropertyKey)
    (value : Value) (range : Option SourceRange) :
    Placed range (ref.accept (heap.recordCell ref) key value range) := by
  unfold accept
  split
  · next hooks attached => exact kept ref hooks attached ref _ key value range
  · exact .ok _

theorem write_placed (kept : heap.HooksKeepPlace) (ref : RecordRef) (property value : Value)
    (range : Option SourceRange) : Placed range (ref.write property value range heap).1 := by
  rw [write_apply]
  split
  · next failed => exact (property.narrowKey_placed range).of_error failed
  · next key _ =>
    split
    · next refused => exact (accept_placed kept ref key value range).of_error refused
    · exact .ok _

end RecordRef

namespace Value

theorem readPayload_failsAt (p : Primitive) (property : Value) (range : Option SourceRange) :
    FailsAt range (readPayload p property range) := by
  unfold readPayload
  split
  · exact .pure _
  · split
    · exact .pure _
    · split
      · exact .newMethod _ _
      · exact .pure _

theorem read_failsAt (v property : Value) (range : Option SourceRange) :
    FailsAt range (v.read property range) := by
  unfold read
  split
  · exact .fail _
  · exact .fail _
  · exact readPayload_failsAt _ property range
  · exact ArrayRef.read_failsAt _ property range
  · exact RecordRef.read_failsAt _ property range
  · exact .bind (.ofExcept (property.narrowKey_placed range)) fun _ => .pure _

theorem write_placed {heap : Heap} (kept : heap.HooksKeepPlace) (v property value : Value)
    (range : Option SourceRange) : Placed range (v.write property value range heap).1 := by
  unfold write
  split
  · exact .error _
  · exact .error _
  · exact ArrayRef.write_failsAt _ property value range heap
  · exact RecordRef.write_placed kept _ property value range
  · exact .error _
  · exact .error _

end Value

/-! ## Names -/

namespace Realm

variable {realm : Realm}

theorem readName_placed (name : String) (range : Option SourceRange) :
    Placed range (readName name range realm).1 := by
  rw [readName_apply]
  split
  · exact .ok _
  · exact RecordRef.read_failsAt _ (.string name) range realm.heap

theorem assignName_placed (kept : realm.heap.HooksKeepPlace) (name : String) (value : Value)
    (range : Option SourceRange) : Placed range (assignName name value range realm).1 := by
  rw [assignName_apply]
  split
  · split
    · exact .error _
    · exact .ok _
  · exact RecordRef.write_placed kept _ (.string name) value range

theorem declareName_placed (name : String) (value : Value) (kind : BindingKind)
    (range : Option SourceRange) : Placed range (declareName name value kind range realm).1 := by
  rw [declareName_apply]
  split
  · exact .error _
  · exact .ok _

/-- What is asked for at a place in the script fails, if it does, at that place. -/
structure PlacesErrors (realm : Realm) (range : Option SourceRange) : Prop where
  read : ∀ v property : Value, Placed range (v.read property range realm.heap).1
  write : ∀ v property value : Value, Placed range (v.write property value range realm.heap).1
  readName : ∀ name, Placed range (readName name range realm).1
  assignName : ∀ name value, Placed range (assignName name value range realm).1
  declareName : ∀ name value kind, Placed range (declareName name value kind range realm).1
  narrowing : ∀ {α : Type} (narrowing : Narrowing α), Placed range (narrowing.finish range)
  toFixed : ∀ n places : Double, Placed range (n.toFixed places range)

theorem placesErrors (kept : realm.heap.HooksKeepPlace) (range : Option SourceRange) :
    realm.PlacesErrors range where
  read v property := v.read_failsAt property range realm.heap
  write v property value := v.write_placed kept property value range
  readName name := readName_placed name range
  assignName name value := assignName_placed kept name value range
  declareName name value kind := declareName_placed name value kind range
  narrowing narrowing := narrowing.finish_placed range
  toFixed n places := n.toFixed_placed places range

end Realm

end ScriptCore
