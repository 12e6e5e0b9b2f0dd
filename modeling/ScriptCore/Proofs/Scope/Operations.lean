import ScriptCore.Proofs.Action
import ScriptCore.Scope.Context

/-! # Operations on names and frames

What each operation of a realm results in and leaves behind, as one case distinction.
-/

namespace ScriptCore

namespace Realm

theorem readName_apply (name : String) (range : Option SourceRange) (realm : Realm) :
    readName name range realm =
      match realm.context.find? name with
      | some binding => (.ok binding.value, realm)
      | none => onHeap (realm.context.globalRecord.read (.string name) range) realm := by
  simp only [readName, Action.bind_apply, Action.get_apply]
  cases realm.context.find? name <;> rfl

theorem assignName_apply (name : String) (value : Value) (range : Option SourceRange)
    (realm : Realm) :
    assignName name value range realm =
      match realm.context.find? name with
      | some binding =>
        if binding.kind = .constant then (.error ⟨.constantAssigned name, range⟩, realm)
        else (.ok (), { realm with context := realm.context.assignBinding name value })
      | none => onHeap (realm.context.globalRecord.write (.string name) value range) realm := by
  simp only [assignName, Action.bind_apply, Action.get_apply]
  cases realm.context.find? name with
  | none => rfl
  | some binding => by_cases constant : binding.kind = .constant <;> simp only [constant] <;> rfl

theorem declareName_apply (name : String) (value : Value) (kind : BindingKind)
    (range : Option SourceRange) (realm : Realm) :
    declareName name value kind range realm =
      if realm.context.inner.contains name then (.error ⟨.redeclared kind name, range⟩, realm)
      else
        (.ok (), { realm with context := { realm.context with
          inner := realm.context.inner.insert name ⟨value, kind⟩ } }) := by
  simp only [declareName, Action.bind_apply, Action.get_apply]
  cases realm.context.inner.contains name <;> rfl

theorem leaveScope_apply (realm : Realm) :
    leaveScope realm =
      match realm.context.leave? with
      | none => (.error ⟨.baseScopeLeft, none⟩, realm)
      | some context => (.ok (), { realm with context }) := by
  simp only [leaveScope, Action.bind_apply, Action.get_apply]
  cases realm.context.leave? <;> rfl

end Realm

end ScriptCore
