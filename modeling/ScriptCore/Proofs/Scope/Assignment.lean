import Mathlib.Tactic.Common
import ScriptCore.Proofs.Record.Global
import ScriptCore.Proofs.Scope.Operations
import ScriptCore.Proofs.Scope.Resolution

/-! # An assignment reaches what a read finds

Reading and assigning a name walk the frames apart from each other, and both fall back to the global
record. They agree on the place: what is assigned is read back, no other name reads differently, and
a single place has changed, be it the innermost binding of the name or its entry in the global
record.
-/

namespace ScriptCore

namespace Realm

variable {realm after : Realm} {name : String} {height : Nat} {binding : Binding}

/-! ## What a name reads as -/

theorem readName_of_resolves (resolves : realm.context.Resolves name height binding)
    (range : Option SourceRange) : readName name range realm = (.ok binding.value, realm) := by
  rw [readName_apply, Context.find?_eq_some_iff.mpr ⟨height, resolves⟩]

theorem readName_of_unbound (global : realm.context.globalRecord.IsGlobal realm.heap)
    (unbound : realm.context.Unbound name) (range : Option SourceRange) :
    readName name range realm =
      (.ok (if isReservedName name then .record realm.context.globalRecord
        else ((realm.heap.entries realm.context.globalRecord).get? name).getD .undefined),
        realm) := by
  rw [readName_apply, Context.find?_eq_none_iff.mpr unbound]
  simp only [onHeap, global.read_name]

/-- What a name reads as depends on its bindings and its entry in the global record alone. -/
theorem readName_congr (global : realm.context.globalRecord.IsGlobal realm.heap)
    (still : after.context.globalRecord.IsGlobal after.heap)
    (sameRecord : after.context.globalRecord = realm.context.globalRecord)
    (bindings : ∀ height, after.context.bindingAt? height name =
      realm.context.bindingAt? height name)
    (entry : (after.heap.entries realm.context.globalRecord).get? name =
      (realm.heap.entries realm.context.globalRecord).get? name)
    (range : Option SourceRange) :
    (readName name range after).1 = (readName name range realm).1 := by
  have same := Context.find?_congr bindings
  cases found : realm.context.find? name with
  | some binding =>
    rw [found] at same
    simp only [readName_apply, same, found]
  | none =>
    rw [found] at same
    rw [readName_of_unbound global (Context.find?_eq_none_iff.mp found),
      readName_of_unbound still (Context.find?_eq_none_iff.mp same), sameRecord, entry]

/-! ## What an assignment changes -/

/-- Two realms are the same but for one binding, which has become the given one. -/
structure SameButBinding (realm after : Realm) (height : Nat) (name : String)
    (binding : Binding) : Prop where
  heap : after.heap = realm.heap
  globalRecord : after.context.globalRecord = realm.context.globalRecord
  currentThis : after.context.currentThis = realm.context.currentThis
  layout : after.context.layout = realm.context.layout
  bindings : ∀ place present, after.context.bindingAt? place present =
    if place = height ∧ present = name then some binding
    else realm.context.bindingAt? place present

/-- Two realms are the same but for one entry of the global record, which has the given value. -/
structure SameButEntry (realm after : Realm) (name : String) (value : Value) : Prop where
  context : after.context = realm.context
  arrays : after.heap.arrays = realm.heap.arrays
  functions : after.heap.functions = realm.heap.functions
  hooks : ∀ ref, (after.heap.recordCell ref).hooks = (realm.heap.recordCell ref).hooks
  others : ∀ ref, ref ≠ realm.context.globalRecord →
    after.heap.entries ref = realm.heap.entries ref
  entries : after.heap.entries realm.context.globalRecord =
    (realm.heap.entries realm.context.globalRecord).insert name value

theorem sameButBinding_assignBinding (resolves : realm.context.Resolves name height binding)
    (value : Value) :
    realm.SameButBinding { realm with context := realm.context.assignBinding name value } height
      name { binding with value } where
  heap := rfl
  globalRecord := realm.context.globalRecord_assignBinding name value
  currentThis := realm.context.currentThis_assignBinding name value
  layout := resolves.layout_assignBinding value
  bindings := resolves.bindingAt?_assignBinding value

theorem sameButEntry_insert (global : realm.context.globalRecord.IsGlobal realm.heap)
    (name : String) (value : Value) :
    realm.SameButEntry
      { realm with
        heap := realm.heap.modifyEntries realm.context.globalRecord (·.insert name value) }
      name value where
  context := rfl
  arrays := rfl
  functions := rfl
  hooks _ := Heap.hooks_modifyEntries ..
  others _ different := Heap.entries_modifyEntries_of_ne _ _ _ _ (Ne.symm different)
  entries := global.entries_insert name value

/-- All that an assignment can come to. -/
inductive AssignEffect (name : String) (value : Value) (range : Option SourceRange)
    (realm : Realm) : Except ScriptError Unit × Realm → Prop
  | constant {height : Nat} {binding : Binding}
      (resolves : realm.context.Resolves name height binding)
      (constant : binding.kind = .constant) :
      AssignEffect name value range realm (.error ⟨.constantAssigned name, range⟩, realm)
  | reserved (unbound : realm.context.Unbound name) (reserved : isReservedName name) :
      AssignEffect name value range realm (.error ⟨.reservedName name, range⟩, realm)
  | binding {height : Nat} {binding : Binding} {after : Realm}
      (resolves : realm.context.Resolves name height binding)
      (mutable : binding.kind ≠ .constant)
      (changed : realm.SameButBinding after height name { binding with value }) :
      AssignEffect name value range realm (.ok (), after)
  | entry {after : Realm} (unbound : realm.context.Unbound name)
      (free : ¬ isReservedName name) (changed : realm.SameButEntry after name value) :
      AssignEffect name value range realm (.ok (), after)

theorem assignName_effect (global : realm.context.globalRecord.IsGlobal realm.heap)
    (name : String) (value : Value) (range : Option SourceRange) :
    AssignEffect name value range realm (assignName name value range realm) := by
  rw [assignName_apply]
  cases found : realm.context.find? name with
  | some binding =>
    obtain ⟨height, resolves⟩ := Context.find?_eq_some_iff.mp found
    by_cases constant : binding.kind = .constant
    · simp only [constant, if_true]
      exact .constant resolves constant
    · simp only [constant, if_false]
      exact .binding resolves constant (sameButBinding_assignBinding resolves value)
  | none =>
    have unbound := Context.find?_eq_none_iff.mp found
    simp only [onHeap, global.write_name]
    by_cases reserved : isReservedName name
    · simp only [reserved, if_true]
      exact .reserved unbound reserved
    · simp only [reserved]
      exact .entry unbound reserved (sameButEntry_insert global name value)

namespace SameButBinding

theorem readName_self {value : Value} (resolves : realm.context.Resolves name height binding)
    (changed : realm.SameButBinding after height name { binding with value })
    (range : Option SourceRange) : readName name range after = (.ok value, after) := by
  have still : after.context.Resolves name height { binding with value } := by
    constructor
    · rw [changed.bindings, if_pos ⟨rfl, rfl⟩]
    · intro above higher
      have elsewhere : ¬ (above = height ∧ name = name) := by omega
      rw [changed.bindings, if_neg elsewhere, resolves.uncovered above higher]
  exact readName_of_resolves still range

theorem readName_other (global : realm.context.globalRecord.IsGlobal realm.heap)
    (changed : realm.SameButBinding after height name binding) {other : String}
    (different : other ≠ name) (range : Option SourceRange) :
    (readName other range after).1 = (readName other range realm).1 := by
  apply readName_congr global
  · rw [changed.globalRecord, changed.heap]
    exact global
  · exact changed.globalRecord
  · intro place
    rw [changed.bindings, if_neg fun both => different both.2]
  · rw [changed.heap]

end SameButBinding

namespace SameButEntry

variable {value : Value}

theorem isGlobal (changed : realm.SameButEntry after name value)
    (global : realm.context.globalRecord.IsGlobal realm.heap) :
    after.context.globalRecord.IsGlobal after.heap := by
  rw [changed.context, RecordRef.IsGlobal, changed.hooks]
  exact global

theorem readName_self (changed : realm.SameButEntry after name value)
    (global : realm.context.globalRecord.IsGlobal realm.heap)
    (unbound : realm.context.Unbound name) (free : ¬ isReservedName name)
    (range : Option SourceRange) : readName name range after = (.ok value, after) := by
  have still : after.context.Unbound name := by rw [changed.context]; exact unbound
  rw [readName_of_unbound (changed.isGlobal global) still, if_neg free, changed.context,
    changed.entries, Entries.get?_insert_self, Option.getD_some]

theorem readName_other (changed : realm.SameButEntry after name value)
    (global : realm.context.globalRecord.IsGlobal realm.heap) {other : String}
    (different : other ≠ name) (range : Option SourceRange) :
    (readName other range after).1 = (readName other range realm).1 := by
  apply readName_congr global (changed.isGlobal global)
  · rw [changed.context]
  · intro place
    rw [changed.context]
  · rw [changed.entries, Entries.get?_insert_of_ne (Ne.symm different)]

end SameButEntry

/-- An assignment fails if the name resolves to a constant, or is reserved and bound nowhere, and in
no other case. When it succeeds the name reads as the new value and every other name as before, and
only the binding to which the name resolves has changed, or only the entry of the global record
where no frame binds the name. -/
theorem assignName_reaches_what_is_read (realm : Realm) (global : realm.HasGlobalRecord)
    (name : String) (value : Value) (range : Option SourceRange) :
    let outcome := assignName name value range realm
    ((∃ error, outcome.1 = .error error) ↔
      (∃ height binding, realm.context.Resolves name height binding ∧
        binding.kind = .constant) ∨
      (realm.context.Unbound name ∧ isReservedName name)) ∧
    (outcome.1 = .ok () →
      (∀ place, readName name place outcome.2 = (.ok value, outcome.2)) ∧
      (∀ other place, other ≠ name →
        (readName other place outcome.2).1 = (readName other place realm).1) ∧
      ((∃ height binding, realm.context.Resolves name height binding ∧
          realm.SameButBinding outcome.2 height name { binding with value }) ∨
        (realm.context.Unbound name ∧ realm.SameButEntry outcome.2 name value))) := by
  have global := global.isGlobal
  intro outcome
  have effect : AssignEffect name value range realm outcome :=
    assignName_effect global name value range
  clear_value outcome
  cases effect with
  | constant resolves constant =>
    exact ⟨⟨fun _ => .inl ⟨_, _, resolves, constant⟩, fun _ => ⟨_, rfl⟩⟩, nofun⟩
  | reserved unbound reserved =>
    exact ⟨⟨fun _ => .inr ⟨unbound, reserved⟩, fun _ => ⟨_, rfl⟩⟩, nofun⟩
  | binding resolves mutable changed =>
    refine ⟨⟨nofun, ?_⟩, fun _ => ⟨?_, ?_, .inl ⟨_, _, resolves, changed⟩⟩⟩
    · rintro (⟨height, binding, again, constant⟩ | ⟨unbound, -⟩)
      · rw [(resolves.unique again).2] at constant
        exact absurd constant mutable
      · exact absurd unbound resolves.not_unbound
    · exact changed.readName_self resolves
    · intro other place different
      exact changed.readName_other global different place
  | entry unbound free changed =>
    refine ⟨⟨nofun, ?_⟩, fun _ => ⟨?_, ?_, .inr ⟨unbound, changed⟩⟩⟩
    · rintro (⟨height, binding, resolves, -⟩ | ⟨-, reserved⟩)
      · exact absurd unbound resolves.not_unbound
      · exact absurd reserved free
    · exact changed.readName_self global unbound free
    · intro other place different
      exact changed.readName_other global different place

/-- Two frames bind `x`, the inner one as a variable; the global record was built with an entry of a
reserved name and has got another entry since. -/
def shadowedConstant : Realm where
  heap :=
    (newGlobalRecord (.ofList [("self", .null), ("y", .null)]) Heap.empty).2.modifyEntries ⟨0⟩
      (·.insert "z" (.boolean false))
  context :=
    ⟨.ofList [("x", ⟨.number 2, .mutable⟩)], [.ofList [("x", ⟨.number 1, .constant⟩)]], ⟨0⟩, .null⟩

theorem assignName_reaches_what_is_read_shadowing :
    let after := (assignName "x" .null none shadowedConstant).2
    shadowedConstant.HasGlobalRecord ∧
      (assignName "x" .null none shadowedConstant).1 = .ok () ∧
      readName "x" none after = (.ok .null, after) ∧
      (readName "z" none after).1 = (readName "z" none shadowedConstant).1 := by
  intro after
  have global : shadowedConstant.HasGlobalRecord :=
    ⟨_, Heap.empty, _, rfl, .single (.entries ⟨0⟩ (·.insert "z" (.boolean false)) id)⟩
  have succeeds : (assignName "x" .null none shadowedConstant).1 = .ok () := by decide +kernel
  obtain ⟨-, reached⟩ := assignName_reaches_what_is_read shadowedConstant global "x" .null none
  obtain ⟨itself, others, -⟩ := reached succeeds
  exact ⟨global, succeeds, itself none, others "z" none (by decide)⟩

end Realm

end ScriptCore
