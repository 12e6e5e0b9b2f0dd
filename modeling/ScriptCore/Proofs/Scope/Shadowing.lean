import ScriptCore.Proofs.Scope.Assignment
import ScriptCore.Proofs.Scope.Stability

/-! # Shadowing isolates the outer name

A name that is declared in a new frame is captured by that frame or by one above it for as long as
the frame lives. So nothing that runs meanwhile reaches a binding of the name further out, or its
entry in the global record, and once the frame is left the name reads as it did before.
-/

namespace ScriptCore

namespace Context

theorem globalRecord_truncate (context : Context) (depth : Nat) :
    (context.truncate depth).globalRecord = context.globalRecord := by
  unfold truncate
  split <;> rfl

theorem globalRecord_of_leave? {context left : Context} (succeeds : context.leave? = some left) :
    left.globalRecord = context.globalRecord := by
  unfold leave? at succeeds
  split at succeeds
  · contradiction
  · cases succeeds
    rfl

end Context

namespace Realm

/-- In the frames of an earlier realm and in the global record the name stands as it did there. -/
structure SameOutside (caller state : Realm) (name : String) : Prop where
  bindings : ∀ height < caller.context.depth,
    state.context.bindingAt? height name = caller.context.bindingAt? height name
  globalRecord : state.context.globalRecord = caller.context.globalRecord
  entry : (state.heap.entries caller.context.globalRecord).get? name =
    (caller.heap.entries caller.context.globalRecord).get? name

/-- The frame right above those of an earlier realm binds the name, and outside of it the name
stands as it did there. -/
structure Shields (caller state : Realm) (name : String) : Prop extends
    SameOutside caller state name where
  isGlobal : state.context.globalRecord.IsGlobal state.heap
  bound : ∃ binding, state.context.bindingAt? caller.context.depth name = some binding

variable {caller state : Realm} {name : String}

/-- Where a name resolves, it does so in the shielding frame or above it. -/
theorem Shields.le_height (shields : caller.Shields state name) {height : Nat} {binding : Binding}
    (resolves : state.context.Resolves name height binding) : caller.context.depth ≤ height := by
  obtain ⟨inner, bound⟩ := shields.bound
  by_contra lower
  rw [resolves.uncovered _ (by omega)] at bound
  contradiction

end Realm

open Realm (SameOutside Shields)

/-! ## Steps under a shielding frame -/

namespace ScopeStep

variable {caller realm : Realm} {name : String}

theorem globalRecord_run (step : ScopeStep) (realm : Realm) :
    (step.run realm).2.context.globalRecord = realm.context.globalRecord := by
  cases step with
  | read name range =>
    simp only [run, Realm.readName_apply]
    cases realm.context.find? name <;> rfl
  | assign name value range =>
    simp only [run, Action.bind_pure_apply, Realm.assignName_apply]
    cases realm.context.find? name with
    | none => rfl
    | some binding =>
      by_cases constant : binding.kind = .constant
      · simp only [constant, if_true]
      · simp only [constant, if_false, Context.globalRecord_assignBinding]
  | declare name value kind range =>
    simp only [run, Action.bind_pure_apply, Realm.declareName_apply]
    cases realm.context.inner.contains name <;> rfl
  | enter => rfl
  | leave =>
    simp only [run, Action.bind_pure_apply, Realm.leaveScope_apply, Context.leave?]
    cases realm.context.outer <;> rfl
  | setThis value => rfl

theorem isGlobal_run (step : ScopeStep) {realm : Realm}
    (global : realm.context.globalRecord.IsGlobal realm.heap) :
    (step.run realm).2.context.globalRecord.IsGlobal (step.run realm).2.heap := by
  rw [step.globalRecord_run]
  exact (SessionStep.RecordEffect.of_scopeStep (.inContext 0 step) step realm).isGlobal global

/-- While a frame binds the name, a step does not reach its entry in the global record. -/
theorem entry_run (step : ScopeStep) (global : realm.context.globalRecord.IsGlobal realm.heap)
    (bound : ¬ realm.context.Unbound name) :
    ((step.run realm).2.heap.entries realm.context.globalRecord).get? name =
      (realm.heap.entries realm.context.globalRecord).get? name := by
  cases step with
  | read other range =>
    simp only [run, Realm.readName_apply]
    cases realm.context.find? other with
    | some binding => rfl
    | none => simp only [Realm.onHeap, global.read_name]
  | assign other value range =>
    simp only [run, Action.bind_pure_apply]
    have effect := Realm.assignName_effect global other value range
    generalize Realm.assignName other value range realm = outcome at effect ⊢
    cases effect with
    | constant | reserved => rfl
    | binding resolves mutable changed => rw [changed.heap]
    | entry unbound free changed =>
      have different : other ≠ name := by
        rintro rfl
        exact bound unbound
      rw [changed.entries, Entries.get?_insert_of_ne different]
  | declare other value kind range =>
    simp only [run, Action.bind_pure_apply, Realm.declareName_apply]
    cases realm.context.inner.contains other <;> rfl
  | enter => rfl
  | leave =>
    simp only [run, Action.bind_pure_apply, Realm.leaveScope_apply]
    cases realm.context.leave? <;> rfl
  | setThis value => rfl

/-- A step that stays above a height, from a stack where the name resolves no lower, changes no
binding of the name under that height. -/
theorem Effect.bindingAt?_eq {before after : Context} {step : ScopeStep}
    {result : Except ScriptError Value} (effect : Effect before step result after) {floor : Nat}
    (captured : ∀ height binding, before.Resolves name height binding → floor ≤ height)
    (deep : floor < before.depth) (within : floor < after.depth) :
    ∀ height < floor, after.bindingAt? height name = before.bindingAt? height name := by
  intro height below
  have under : height < before.outer.length := by
    unfold Context.depth at deep
    omega
  cases effect with
  | still _ _ same => exact Context.bindingAt?_congr (Context.frameAt?_congr same height) name
  | assigned _ _ found mutable value =>
    obtain ⟨place, resolves⟩ := Context.find?_eq_some_iff.mp found
    rw [resolves.bindingAt?_assignBinding, if_neg]
    rintro ⟨rfl, rfl⟩
    have := captured _ _ resolves
    omega
  | declared => exact Context.bindingAt?_congr (Context.frameAt?_with_inner _ _ under) name
  | entered => exact Context.bindingAt?_congr (Context.frameAt?_enter (by omega)) name
  | left succeeds =>
    exact Context.bindingAt?_congr (Context.frameAt?_of_leave? succeeds (by omega)) name

theorem shields_run (step : ScopeStep) (shields : caller.Shields realm name)
    (deep : caller.context.depth < realm.context.depth)
    (within : caller.context.depth < (step.run realm).2.context.depth) :
    caller.Shields (step.run realm).2 name where
  bindings height below :=
    ((step.effect realm).bindingAt?_eq (fun _ _ => shields.le_height) deep within height
      below).trans (shields.bindings height below)
  globalRecord := (step.globalRecord_run realm).trans shields.globalRecord
  entry := by
    obtain ⟨binding, bound⟩ := shields.bound
    have reaches : ¬ realm.context.Unbound name := by
      intro unbound
      rw [unbound] at bound
      contradiction
    have unreached := step.entry_run shields.isGlobal reaches
    rw [shields.globalRecord] at unreached
    exact unreached.trans shields.entry
  isGlobal := step.isGlobal_run shields.isGlobal
  bound := by
    obtain ⟨binding, bound⟩ := shields.bound
    obtain ⟨persisting, found, -⟩ := (step.keeps_moment realm).binding bound within
    exact ⟨persisting, found⟩

end ScopeStep

/-! ## Runs under a shielding frame -/

namespace Routine

/-- The realms that a routine goes through, first to last. -/
def states : Routine → Realm → List Realm
  | finish _, realm => [realm]
  | take step next, realm =>
    let (result, after) := step.run realm
    realm :: states (next result) after
  | inScope body next, realm =>
    let (result, inside) := outcome body realm.entered
    realm :: states body realm.entered ++
      states (next result) (inside.truncated realm.context.depth)

theorem mem_states_first (routine : Routine) (realm : Realm) : realm ∈ routine.states realm := by
  cases routine with
  | finish => exact List.mem_singleton_self realm
  | take | inScope => exact List.mem_cons_self ..

theorem mem_states_last (routine : Routine) (realm : Realm) :
    (routine.outcome realm).2 ∈ routine.states realm := by
  induction routine generalizing realm with
  | finish result => exact List.mem_singleton_self realm
  | take step next ih => exact List.mem_cons_of_mem _ (ih _ _)
  | inScope body next ihBody ih => exact List.mem_append_right _ (ih _ _)

end Routine

namespace Realm.Shields

variable {caller realm : Realm} {name : String}

theorem entered (shields : caller.Shields realm name)
    (deep : caller.context.depth < realm.context.depth) : caller.Shields realm.entered name where
  bindings height below :=
    (Context.bindingAt?_congr (Context.frameAt?_enter (by omega)) name).trans
      (shields.bindings height below)
  globalRecord := shields.globalRecord
  entry := shields.entry
  isGlobal := shields.isGlobal
  bound := by
    obtain ⟨binding, bound⟩ := shields.bound
    exact ⟨binding, (Context.bindingAt?_congr (Context.frameAt?_enter deep) name).trans bound⟩

theorem truncated (shields : caller.Shields realm name) {depth : Nat}
    (deep : caller.context.depth < depth) : caller.Shields (realm.truncated depth) name where
  bindings height below :=
    (Context.bindingAt?_congr (Context.frameAt?_truncate _ (by omega)) name).trans
      (shields.bindings height below)
  globalRecord := (realm.context.globalRecord_truncate depth).trans shields.globalRecord
  entry := shields.entry
  isGlobal := by
    change ((realm.context.truncate depth).globalRecord).IsGlobal realm.heap
    rw [Context.globalRecord_truncate]
    exact shields.isGlobal
  bound := by
    obtain ⟨binding, bound⟩ := shields.bound
    exact ⟨binding, (Context.bindingAt?_congr (Context.frameAt?_truncate _ deep) name).trans bound⟩

end Realm.Shields

theorem Routine.forall_states_shields (routine : Routine) {caller realm : Realm} {name : String}
    (shields : caller.Shields realm name)
    (deep : ∀ state ∈ routine.states realm, caller.context.depth < state.context.depth) :
    ∀ state ∈ routine.states realm, caller.Shields state name := by
  induction routine generalizing realm with
  | finish result =>
    intro state member
    obtain rfl := List.mem_singleton.mp member
    exact shields
  | take step next ih =>
    have later : ∀ state ∈ (next (step.run realm).1).states (step.run realm).2,
        caller.context.depth < state.context.depth := by
      intro state member
      exact deep state (List.mem_cons_of_mem _ member)
    have after := step.shields_run shields (deep realm (List.mem_cons_self ..))
      (later _ (mem_states_first ..))
    intro state member
    rcases List.mem_cons.mp member with rfl | member
    · exact shields
    · exact ih _ after later state member
  | inScope body next ihBody ih =>
    have outer := deep realm (List.mem_cons_self ..)
    have within := ihBody (shields.entered outer) fun state member =>
      deep state (List.mem_append_left _ (List.mem_cons_of_mem _ member))
    have after := (within _ (mem_states_last ..)).truncated outer
    intro state member
    rcases List.mem_append.mp member with member | member
    · rcases List.mem_cons.mp member with rfl | member
      · exact shields
      · exact within state member
    · refine ih _ after (fun state member => ?_) state member
      exact deep state (List.mem_append_right _ member)

namespace Realm

variable {caller last : Realm} {name : String}

/-- Declaring a name in a new frame succeeds and shields the name. -/
theorem shields_declared (global : caller.context.globalRecord.IsGlobal caller.heap)
    (name : String) (value : Value) (kind : BindingKind) (range : Option SourceRange) :
    ∃ declared, declareName name value kind range caller.entered = (.ok (), declared) ∧
      caller.Shields declared name := by
  refine ⟨_, declareName_apply .., ?_⟩
  constructor
  · constructor
    · intro height below
      apply Context.bindingAt?_congr
      exact (Context.frameAt?_with_inner caller.context.enter _ below).trans
        (Context.frameAt?_enter below)
    · rfl
    · rfl
  · exact global
  · refine ⟨⟨value, kind⟩, ?_⟩
    change (Context.frameAt? _ caller.context.enter.outer.length).bind _ = _
    exact (congrArg (Option.bind · _) (Context.frameAt?_top _)).trans
      (Entries.get?_insert_self ..)

/-- Leaving the shielding frame gives the outer realm back as far as the name is concerned. -/
theorem Shields.left (shields : caller.Shields last name)
    (global : caller.context.globalRecord.IsGlobal caller.heap)
    (top : last.context.depth = caller.context.depth + 1) :
    ∃ left, leaveScope last = (.ok (), left) ∧ left.context.depth = caller.context.depth ∧
      caller.SameOutside left name ∧
      ∀ place, (readName name place left).1 = (readName name place caller).1 := by
  have positive := caller.context.depth_pos
  obtain ⟨context, succeeds⟩ : ∃ context, last.context.leave? = some context := by
    cases surrounding : last.context.outer with
    | nil =>
      simp only [Context.depth, surrounding, List.length_nil] at top
      unfold Context.depth at positive
      omega
    | cons frame outer => exact ⟨_, by rw [Context.leave?, surrounding]⟩
  have depth : context.depth = caller.context.depth := by
    have := Context.depth_of_leave? succeeds
    omega
  have sameRecord := Context.globalRecord_of_leave? succeeds
  have outside : caller.SameOutside { last with context } name := by
    refine ⟨?_, sameRecord.trans shields.globalRecord, shields.entry⟩
    intro height below
    rw [← shields.bindings height below]
    exact Context.bindingAt?_congr (Context.frameAt?_of_leave? succeeds (by omega)) name
  refine ⟨{ last with context }, ?_, depth, outside, ?_⟩
  · rw [leaveScope_apply, succeeds]
  · apply readName_congr global
    · rw [sameRecord]
      exact shields.isGlobal
    · exact outside.globalRecord
    · intro height
      by_cases below : height < caller.context.depth
      · exact outside.bindings height below
      · have above : context.depth ≤ height := by omega
        rw [Context.bindingAt?_of_le above, Context.bindingAt?_of_le (by omega)]
    · exact outside.entry

/-- A routine that runs after a name was declared in a new frame, and never leaves that frame,
changes no binding of the name further out and not its entry in the global record. When the frame is
left after it, the name reads as before the frame was entered. -/
theorem shadowed_name_is_isolated (caller : Realm) (global : caller.HasGlobalRecord)
    (name : String) (value : Value) (kind : BindingKind) (range : Option SourceRange)
    (routine : Routine) (registers : Entries Value) :
    ∃ entered declared result last,
      enterScope caller = (.ok (), entered) ∧
      declareName name value kind range entered = (.ok (), declared) ∧
      routine.run ⟨declared, registers⟩ = some (result, ⟨last, registers⟩) ∧
      last ∈ routine.states declared ∧
      ((∀ state ∈ routine.states declared, caller.context.depth < state.context.depth) →
        (∀ state ∈ routine.states declared, caller.SameOutside state name) ∧
        (last.context.depth = caller.context.depth + 1 →
          ∃ left, leaveScope last = (.ok (), left) ∧
            left.context.depth = caller.context.depth ∧ caller.SameOutside left name ∧
            ∀ place, (readName name place left).1 = (readName name place caller).1)) := by
  obtain ⟨declared, succeeds, shields⟩ := shields_declared global.isGlobal name value kind range
  refine ⟨caller.entered, declared, _, _, rfl, succeeds, routine.run_apply declared registers,
    routine.mem_states_last declared, ?_⟩
  intro deep
  have always := routine.forall_states_shields shields deep
  constructor
  · intro state member
    exact (always state member).toSameOutside
  · intro top
    exact (always _ (routine.mem_states_last declared)).left global.isGlobal top

end Realm

/-- Declares the name again in a further frame, fails to assign it and to declare it once more
there, leaves that frame, assigns the name, and assigns one that no frame binds. -/
def Routine.reshadowing : Routine :=
  take .enter fun _ =>
    take (.declare "x" .null .constant none) fun _ =>
      take (.assign "x" (.number 3) none) fun _ =>
        take (.declare "x" .null .mutable none) fun _ =>
          take .leave fun _ =>
            take (.assign "x" (.number 4) none) fun _ =>
              take (.assign "y" .null none) finish

theorem Realm.shadowed_name_is_isolated_reshadowing :
    let caller := Realm.shadowedConstant
    ∃ declared result last left,
      Realm.declareName "x" .null .mutable none caller.entered = (.ok (), declared) ∧
      Routine.reshadowing.run ⟨declared, .empty⟩ = some (result, ⟨last, .empty⟩) ∧
      (∀ state ∈ Routine.reshadowing.states declared,
        caller.context.depth < state.context.depth) ∧
      last.context.depth = caller.context.depth + 1 ∧
      Realm.leaveScope last = (.ok (), left) ∧
      (Realm.readName "x" none left).1 = (Realm.readName "x" none caller).1 := by
  intro caller
  have global : caller.HasGlobalRecord :=
    ⟨_, Heap.empty, _, rfl, .single (.entries ⟨0⟩ (·.insert "z" (.boolean false)) id)⟩
  obtain ⟨entered, declared, result, last, enters, declares, runs, -, isolated⟩ :=
    Realm.shadowed_name_is_isolated caller global "x" .null .mutable none Routine.reshadowing .empty
  cases enters
  obtain rfl : (Realm.declareName "x" .null .mutable none caller.entered).2 = declared :=
    congrArg Prod.snd declares
  have deep : ∀ state ∈ Routine.reshadowing.states
      (Realm.declareName "x" .null .mutable none caller.entered).2,
      caller.context.depth < state.context.depth := by
    decide +kernel
  have outcome := Option.some.inj (runs.symm.trans (Routine.run_apply ..))
  have final : last = (Routine.reshadowing.outcome
      (Realm.declareName "x" .null .mutable none caller.entered).2).2 := by
    injection outcome with _ after
    injection after
  have top : last.context.depth = caller.context.depth + 1 := by
    rw [final]
    decide +kernel
  obtain ⟨left, leaves, -, -, same⟩ := (isolated deep).2 top
  exact ⟨_, result, last, left, declares, runs, deep, top, leaves, same none⟩

end ScriptCore
