import Mathlib.Tactic.Common
import ScriptCore.Proofs.Member.Access
import ScriptCore.Record.Hooked
import ScriptCore.Scope.Context

/-! # Writes that fail

A write checks before it changes. It looks at its key, asks the hooks and looks at the bounds, the
kind of the binding or the frames, and only its last action changes anything. So a write that fails
leaves all of the realm as it was: elements, entries and their order, frames, values and kinds of
bindings, depth and `this`. Hooks that refuse a write have nothing stored, because what they store
is part of accepting it.
-/

namespace ScriptCore

/-- An action that fails only before it changes anything. -/
structure Action.Atomic {σ α : Type} (action : Action σ α) : Prop where
  unchanged : ∀ state error, (action state).1 = .error error → (action state).2 = state

namespace Action.Atomic

variable {σ α β : Type}

/-- What only looks at the state can come before an atomic action. -/
theorem bind {action : Action σ α} {next : α → Action σ β}
    (looks : ∀ state, (action state).2 = state) (last : ∀ a, Atomic (next a)) :
    Atomic (action >>= next) := by
  refine ⟨fun state error fails => ?_⟩
  have still := looks state
  rw [Action.bind_apply] at fails ⊢
  rcases outcome : action state with ⟨result, after⟩
  rw [outcome] at still fails
  obtain rfl : after = state := still
  cases result with
  | error => rfl
  | ok a => exact (last a).unchanged after error fails

theorem of_get {next : σ → Action σ β} (last : ∀ state, Atomic (next state)) :
    Atomic (get >>= next) :=
  bind (fun _ => rfl) last

theorem fail (cause : Cause) (range : Option SourceRange) :
    Atomic (Action.fail cause range : Action σ α) := ⟨fun _ _ _ => rfl⟩

theorem modify (change : σ → σ) : Atomic (modify change : Action σ PUnit) := by
  refine ⟨fun state error fails => ?_⟩
  rw [Action.modify_apply] at fails
  contradiction

theorem onHeap {action : Action Heap α} (atomic : Atomic action) :
    Atomic (Realm.onHeap action) := by
  refine ⟨fun realm error fails => ?_⟩
  have unchanged : (action realm.heap).2 = realm.heap := atomic.unchanged realm.heap error fails
  change Realm.mk (action realm.heap).2 realm.context = realm
  rw [unchanged]

end Action.Atomic

open ScriptCore.Action (Atomic)

theorem Value.write_atomic (v property value : Value) (range : Option SourceRange) :
    Atomic (v.write property value range) := by
  refine ⟨fun heap error fails => ?_⟩
  rcases v.write_cases property value range heap with ⟨refusal, refused⟩ | ⟨after, succeeds, -⟩
  · rw [refused]
  · rw [succeeds] at fails
    contradiction

theorem Realm.assignName_atomic (name : String) (value : Value) (range : Option SourceRange) :
    Atomic (assignName name value range) := by
  refine .of_get fun realm => ?_
  split
  · split
    · exact .fail ..
    · exact .modify ..
  · exact .of_get fun realm => .onHeap (Value.write_atomic (.record realm.context.globalRecord) ..)

theorem Realm.declareName_atomic (name : String) (value : Value) (kind : BindingKind)
    (range : Option SourceRange) : Atomic (declareName name value kind range) := by
  refine .of_get fun realm => ?_
  dsimp only
  split
  · exact .fail ..
  · exact .modify ..

theorem Realm.leaveScope_atomic : Atomic leaveScope := by
  refine .of_get fun realm => ?_
  split
  · exact .fail ..
  · exact .modify ..

/-- The operations that change containers and frames and may fail. -/
inductive Write
  | member (target property value : Value) (range : Option SourceRange)
  | assign (name : String) (value : Value) (range : Option SourceRange)
  | declare (name : String) (value : Value) (kind : BindingKind) (range : Option SourceRange)
  | leaveScope

def Write.run : Write → Action Realm Unit
  | member target property value range => Realm.onHeap (target.write property value range)
  | assign name value range => Realm.assignName name value range
  | declare name value kind range => Realm.declareName name value kind range
  | leaveScope => Realm.leaveScope

theorem Write.run_atomic (write : Write) : Atomic write.run := by
  cases write with
  | member target property value range => exact .onHeap (Value.write_atomic ..)
  | assign name value range => exact Realm.assignName_atomic ..
  | declare name value kind range => exact Realm.declareName_atomic ..
  | leaveScope => exact Realm.leaveScope_atomic

/-- A write that fails leaves the realm as it was. -/
theorem Write.unchanged_of_error (write : Write) (realm : Realm) (error : ScriptError)
    (fails : (write.run realm).1 = .error error) : (write.run realm).2 = realm :=
  write.run_atomic.unchanged realm error fails

/-- A global record, and one that refuses writes to `k` and echoes those that it accepts. -/
def guardedRealm : Realm where
  heap := ⟨#[],
    #[⟨.empty, some .global⟩,
      ⟨.ofList [("echo", .null)],
        some (HookTable.hooks ⟨[], false, false, none, [("k", "no")], some "echo"⟩ [])⟩], #[]⟩
  context := .ofGlobal ⟨0⟩

theorem unchanged_of_error_guarded :
    let write := Write.member (.record ⟨1⟩) (.string "k") .null none
    (write.run guardedRealm).1 = .error ⟨.raised .type "no", none⟩ ∧
      (write.run guardedRealm).2 = guardedRealm := by
  intro write
  have fails : (write.run guardedRealm).1 = .error ⟨.raised .type "no", none⟩ := by
    decide +kernel
  exact ⟨fails, write.unchanged_of_error guardedRealm _ fails⟩

end ScriptCore
