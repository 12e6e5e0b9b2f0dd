import ScriptCore.Machine
import ScriptCore.Proofs.Scope.Frames
import ScriptCore.Proofs.Scope.Operations

/-! # Routines on a context

A routine is what a host may do with a context that it was lent: it takes steps, runs further
routines in scopes of their own, and ends with a result. Each choice may depend on the results so
far, so a failing step may end the routine, be passed over or be answered. The trace of a routine
lists its moments in order, those of the routines inside it included.
-/

namespace ScriptCore

/-- The steps that a context offers, scopes with a body apart. -/
inductive ScopeStep
  | read (name : String) (range : Option SourceRange)
  | assign (name : String) (value : Value) (range : Option SourceRange)
  | declare (name : String) (value : Value) (kind : BindingKind) (range : Option SourceRange)
  | enter
  | leave
  | setThis (value : Value)

/-- Takes a step. One that has no value of its own answers undefined. -/
def ScopeStep.run : ScopeStep → Action Realm Value
  | read name range => Realm.readName name range
  | assign name value range => do Realm.assignName name value range; return .undefined
  | declare name value kind range => do
    Realm.declareName name value kind range; return .undefined
  | enter => do Realm.enterScope; return .undefined
  | leave => do Realm.leaveScope; return .undefined
  | setThis value => Realm.setCurrentThis value

inductive Routine
  | finish (result : Except ScriptError Value)
  | take (step : ScopeStep) (next : Except ScriptError Value → Routine)
  | inScope (body : Routine) (next : Except ScriptError Value → Routine)

namespace Realm

/-- The realm in which a body runs in a scope of its own. -/
def entered (realm : Realm) : Realm := { realm with context := realm.context.enter }

/-- The realm after a body that was run from a stack of some depth. -/
def truncated (realm : Realm) (depth : Nat) : Realm :=
  { realm with context := realm.context.truncate depth }

end Realm

/-- A moment of a run: the contexts before and after it. -/
structure Moment where
  before : Context
  /-- The step that was taken, with its result; none where a scope with a body begins or ends. -/
  taken? : Option (ScopeStep × Except ScriptError Value)
  after : Context

/-- Whether a name was declared or a frame was left. -/
def Moment.altersInner (moment : Moment) : Bool :=
  match moment.taken? with
  | some (.declare .., .ok _) | some (.leave, .ok _) => true
  | _ => false

/-- The moment at which a step is taken. -/
def ScopeStep.moment (step : ScopeStep) (realm : Realm) : Moment :=
  ⟨realm.context, some (step, (step.run realm).1), (step.run realm).2.context⟩

namespace Routine

def run : Routine → Execution Value
  | finish result => ofExcept result
  | take step next => do run (next (← observing (Execution.onRealm step.run)))
  | inScope body next => do run (next (← observing (Execution.inScope (run body))))

/-- The result of a routine and the realm that it leaves. -/
def outcome : Routine → Realm → Except ScriptError Value × Realm
  | finish result, realm => (result, realm)
  | take step next, realm =>
    let (result, after) := step.run realm
    outcome (next result) after
  | inScope body next, realm =>
    let (result, inside) := outcome body realm.entered
    outcome (next result) (inside.truncated realm.context.depth)

/-- The moments of a routine, first to last. -/
def trace : Routine → Realm → List Moment
  | finish _, _ => []
  | take step next, realm =>
    let (result, after) := step.run realm
    step.moment realm :: trace (next result) after
  | inScope body next, realm =>
    let (result, inside) := outcome body realm.entered
    let after := inside.truncated realm.context.depth
    ⟨realm.context, none, realm.entered.context⟩ :: trace body realm.entered ++
      ⟨inside.context, none, after.context⟩ :: trace (next result) after

theorem observing_bind_apply {α β : Type} {action : Execution α}
    {machine after : Machine} {result : Except ScriptError α}
    (runs : action machine = some (result, after))
    (next : Except ScriptError α → Execution β) :
    (observing action >>= next) machine = next result after := by
  have observed : (observing action : Execution _) machine = some (.ok result, after) := by
    change ((action machine).bind fun _ => _).bind _ = _
    rw [runs]
    cases result <;> rfl
  change ((observing action : Execution _) machine).bind _ = _
  rw [observed]
  rfl

theorem inScope_apply {α : Type} {body : Execution α} {realm inside : Realm}
    {registers : Entries Value} {result : Except ScriptError α}
    (runs : body ⟨realm.entered, registers⟩ = some (result, ⟨inside, registers⟩)) :
    Execution.inScope body ⟨realm, registers⟩ =
      some (result, ⟨inside.truncated realm.context.depth, registers⟩) := by
  change (body ⟨realm.entered, registers⟩ >>= fun _ => _) = _
  rw [runs]
  rfl

/-- A routine always has an outcome, and it does not touch the registers. -/
theorem run_apply (routine : Routine) (realm : Realm) (registers : Entries Value) :
    routine.run ⟨realm, registers⟩ =
      some ((routine.outcome realm).1, ⟨(routine.outcome realm).2, registers⟩) := by
  induction routine generalizing realm with
  | finish result => cases result <;> rfl
  | take step next ih =>
    have taken : Execution.onRealm step.run ⟨realm, registers⟩ = some _ := rfl
    rw [run, observing_bind_apply taken, ih]
    rfl
  | inScope body next ihBody ih =>
    rw [run, observing_bind_apply (inScope_apply (ihBody realm.entered)), ih]
    rfl

end Routine

/-! ## What a step does to the frames -/

/-- All that a step can do to the frames, with its result where that depends on it. -/
inductive ScopeStep.Effect (before : Context) :
    ScopeStep → Except ScriptError Value → Context → Prop
  | still (step : ScopeStep) (result : Except ScriptError Value) {after : Context}
      (same : after.frames = before.frames) : Effect before step result after
  | assigned (step : ScopeStep) (result : Except ScriptError Value) {name : String}
      {binding : Binding} (found : before.find? name = some binding)
      (mutable : binding.kind ≠ .constant) (value : Value) :
      Effect before step result (before.assignBinding name value)
  | declared (name : String) (value : Value) (kind : BindingKind) (range : Option SourceRange)
      (unbound : before.inner.get? name = none) :
      Effect before (.declare name value kind range) (.ok .undefined)
        { before with inner := before.inner.insert name ⟨value, kind⟩ }
  | entered : Effect before .enter (.ok .undefined) before.enter
  | left {after : Context} (succeeds : before.leave? = some after) :
      Effect before .leave (.ok .undefined) after

theorem Realm.onHeap_context {α : Type} (action : Action Heap α) (realm : Realm) :
    (Realm.onHeap action realm).2.context = realm.context := rfl

theorem ScopeStep.effect (step : ScopeStep) (realm : Realm) :
    Effect realm.context step (step.run realm).1 (step.run realm).2.context := by
  cases step with
  | read name range =>
    refine .still _ _ ?_
    simp only [run, Realm.readName_apply]
    cases realm.context.find? name <;> rfl
  | assign name value range =>
    simp only [run, Action.bind_apply, Realm.assignName_apply]
    cases found : realm.context.find? name with
    | none =>
      refine .still _ _ ?_
      rcases outcome : Realm.onHeap
        (realm.context.globalRecord.write (.string name) value range) realm with ⟨_ | _, after⟩ <;>
      · have same := Realm.onHeap_context
          (realm.context.globalRecord.write (.string name) value range) realm
        rw [outcome] at same
        exact congrArg Context.frames same
    | some binding =>
      by_cases constant : binding.kind = .constant
      · simp only [constant, if_true]
        exact .still _ _ rfl
      · simp only [constant, if_false]
        exact .assigned _ _ found constant value
  | declare name value kind range =>
    simp only [run, Action.bind_apply, Realm.declareName_apply]
    cases bound : realm.context.inner.contains name with
    | true => exact .still _ _ rfl
    | false => exact .declared name value kind range ((Entries.contains_eq_false_iff ..).mp bound)
  | enter => exact .entered
  | leave =>
    simp only [run, Action.bind_apply, Realm.leaveScope_apply]
    cases succeeds : realm.context.leave? with
    | none => exact .still _ _ rfl
    | some after => exact .left succeeds
  | setThis value => exact .still _ _ rfl

namespace ScopeStep.Effect

variable {before after : Context} {step : ScopeStep} {result : Except ScriptError Value}

theorem depth_le (effect : Effect before step result after) :
    before.depth ≤
      after.depth + (Moment.altersInner ⟨before, some (step, result), after⟩).toNat := by
  cases effect with
  | still _ _ same => rw [Context.depth_congr same]; omega
  | assigned _ _ _ _ value => rw [Context.depth_assignBinding]; omega
  | declared => exact Nat.le_add_right ..
  | entered => exact Nat.le_add_right_of_le (Nat.le_succ _)
  | left succeeds => exact Nat.le_of_eq (Context.depth_of_leave? succeeds).symm

/-- A frame that outlasts a step keeps its bindings. Its names and kinds change only if it is the
innermost one and the step alters that. -/
theorem frame (effect : Effect before step result after) {height : Nat} {frame : Frame}
    (present : before.frameAt? height = some frame) (within : height < after.depth) :
    ∃ later, after.frameAt? height = some later ∧ frame.Keeps later ∧
      (height + (Moment.altersInner ⟨before, some (step, result), after⟩).toNat < before.depth →
        Frame.kinds later = Frame.kinds frame) := by
  have inside := Context.lt_depth_of_frameAt? present
  cases effect with
  | still _ _ same =>
    exact ⟨frame, (Context.frameAt?_congr same height).trans present, .refl frame, fun _ => rfl⟩
  | assigned _ _ found mutable value =>
    obtain ⟨later, atHeight, keeps, kinds⟩ :=
      Context.frameAt?_assignBinding found mutable value present
    exact ⟨later, atHeight, keeps, fun _ => kinds⟩
  | declared name value kind range unbound =>
    by_cases top : height = before.outer.length
    · subst top
      obtain rfl : before.inner = frame := by
        rw [Context.frameAt?_top] at present
        exact Option.some.inj present
      refine ⟨_, Context.frameAt?_top _, Frame.keeps_insert_of_unbound unbound _, fun under => ?_⟩
      exact absurd under (Nat.lt_irrefl _)
    · have below : height < before.outer.length := by
        unfold Context.depth at inside
        omega
      exact ⟨frame, (Context.frameAt?_with_inner before _ below).trans present, .refl frame,
        fun _ => rfl⟩
  | entered =>
    exact ⟨frame, (Context.frameAt?_enter inside).trans present, .refl frame, fun _ => rfl⟩
  | left succeeds =>
    exact ⟨frame, (Context.frameAt?_of_leave? succeeds within).trans present, .refl frame,
      fun _ => rfl⟩

end ScopeStep.Effect

end ScriptCore
