import ScriptCore.Proofs.Member.Access
import ScriptCore.Proofs.Scope.Routine

/-! # Sessions

A session is a heap with any number of contexts over it. What scripts do to it are reads and writes
of members and the steps of the contexts; a host may also open a context and store an entry past the
hooks of its record. A script takes such steps one after another, each chosen by the results so far,
and may run parts of itself in scopes of their own.

Whatever a step is, at most one record has its entries changed by it, and no record its hooks.
-/

namespace ScriptCore

structure Session where
  heap : Heap
  contexts : List Context

namespace Session

def onHeap (action : Action Heap Value) : Action Session Value := fun session =>
  ((action session.heap).1, { session with heap := (action session.heap).2 })

/-- Takes a step of the context with an index; without that context nothing happens. -/
def onContext (index : Nat) (step : ScopeStep) : Action Session Value := fun session =>
  match session.contexts[index]? with
  | none => (.ok .undefined, session)
  | some context =>
    let (result, after) := step.run ⟨session.heap, context⟩
    (result, ⟨after.heap, session.contexts.set index after.context⟩)

def modifyContext (session : Session) (index : Nat) (change : Context → Context) : Session :=
  { session with contexts := session.contexts.modify index change }

def depthOf (session : Session) (index : Nat) : Nat :=
  (session.contexts[index]?.map Context.depth).getD 0

end Session

inductive SessionStep
  | read (target property : Value) (range : Option SourceRange)
  | write (target property value : Value) (range : Option SourceRange)
  | inContext (index : Nat) (step : ScopeStep)
  | newContext (globalRecord : RecordRef)
  /-- Stores an entry past the hooks of its record. -/
  | insert (ref : RecordRef) (key : String) (value : Value)

/-- Takes a step. One that has no value of its own answers undefined. -/
def SessionStep.run : SessionStep → Action Session Value
  | read target property range => Session.onHeap (target.read property range)
  | write target property value range => Session.onHeap do
    target.write property value range
    return .undefined
  | inContext index step => Session.onContext index step
  | newContext globalRecord => fun session =>
    (.ok .undefined, { session with contexts := session.contexts ++ [.ofGlobal globalRecord] })
  | insert ref key value => Session.onHeap do
    ref.insert key value
    return .undefined

inductive Script
  | finish (result : Except ScriptError Value)
  | take (step : SessionStep) (next : Except ScriptError Value → Script)
  | inScope (index : Nat) (body : Script) (next : Except ScriptError Value → Script)

namespace Script

/-- The result of a script and the session that it leaves. -/
def outcome : Script → Session → Except ScriptError Value × Session
  | finish result, session => (result, session)
  | take step next, session =>
    let (result, after) := step.run session
    outcome (next result) after
  | inScope index body next, session =>
    let (result, inside) := outcome body (session.modifyContext index .enter)
    outcome (next result) (inside.modifyContext index (·.truncate (session.depthOf index)))

/-- The sessions that a script goes through, first to last. -/
def states : Script → Session → List Session
  | finish _, session => [session]
  | take step next, session =>
    let (result, after) := step.run session
    session :: states (next result) after
  | inScope index body next, session =>
    let (result, inside) := outcome body (session.modifyContext index .enter)
    session :: states body (session.modifyContext index .enter) ++
      states (next result) (inside.modifyContext index (·.truncate (session.depthOf index)))

/-- The steps that a script takes, first to last. -/
def steps : Script → Session → List SessionStep
  | finish _, _ => []
  | take step next, session =>
    let (result, after) := step.run session
    step :: steps (next result) after
  | inScope index body next, session =>
    let (result, inside) := outcome body (session.modifyContext index .enter)
    steps body (session.modifyContext index .enter) ++
      steps (next result) (inside.modifyContext index (·.truncate (session.depthOf index)))

/-- What every allowed step preserves of the heap holds in all states of a script that takes only
such steps. -/
theorem forall_states (Holds : Heap → Prop) (Allowed : SessionStep → Prop)
    (preserved : ∀ step session, Allowed step → Holds session.heap →
      Holds (step.run session).2.heap)
    (script : Script) (session : Session) (allowed : ∀ step ∈ script.steps session, Allowed step)
    (holds : Holds session.heap) :
    (∀ state ∈ script.states session, Holds state.heap) ∧
      Holds (script.outcome session).2.heap := by
  induction script generalizing session with
  | finish result =>
    refine ⟨fun state member => ?_, holds⟩
    obtain rfl := List.mem_singleton.mp member
    exact holds
  | take step next ih =>
    have after := preserved step session (allowed step (List.mem_cons_self ..)) holds
    obtain ⟨later, final⟩ := ih _ _ (fun other member =>
      allowed other (List.mem_cons_of_mem _ member)) after
    refine ⟨fun state member => ?_, final⟩
    rcases List.mem_cons.mp member with rfl | member
    · exact holds
    · exact later state member
  | inScope index body next ihBody ih =>
    obtain ⟨within, inside⟩ := ihBody (session.modifyContext index .enter)
      (fun other member => allowed other (List.mem_append_left _ member)) holds
    obtain ⟨later, final⟩ := ih _ (Session.modifyContext _ index _)
      (fun other member => allowed other (List.mem_append_right _ member)) inside
    refine ⟨fun state member => ?_, final⟩
    rcases List.mem_append.mp member with member | member
    · rcases List.mem_cons.mp member with rfl | member
      · exact holds
      · exact within state member
    · exact later state member

end Script

/-! ## What a step does to the records -/

/-- All that a step can do to the records: nothing, or a write to one that its hooks accept, or an
entry stored past them. -/
inductive SessionStep.RecordEffect (heap : Heap) : SessionStep → Heap → Prop
  | still (step : SessionStep) {after : Heap} (same : after.records = heap.records) :
      RecordEffect heap step after
  | written (step : SessionStep) (ref : RecordRef) (key : PropertyKey) (value : Value)
      (range : Option SourceRange) {stored : List (String × Value)}
      (accepted : ref.accept (heap.recordCell ref) key value range = .ok stored) :
      RecordEffect heap step (heap.modifyEntries ref fun entries =>
        (entries.insertAll stored).insert key.text value)
  | inserted (ref : RecordRef) (key : String) (value : Value) :
      RecordEffect heap (.insert ref key value) (heap.modifyEntries ref (·.insert key value))

theorem KeepsContainers.records_eq {α : Type} {action : Action Heap α}
    (keeps : KeepsContainers action) (heap : Heap) : (action heap).2.records = heap.records := by
  obtain ⟨result, functions, runs⟩ := keeps heap
  rw [runs]

namespace SessionStep.RecordEffect

theorem of_write (step : SessionStep) (target property value : Value)
    (range : Option SourceRange) (heap : Heap) :
    RecordEffect heap step (target.write property value range heap).2 := by
  rcases target.write_cases property value range heap with ⟨error, fails⟩ |
    ⟨after, succeeds, effect⟩
  · rw [fails]
    exact .still step rfl
  · rw [succeeds]
    cases effect with
    | element ref index value => exact .still step rfl
    | entry ref key value range accepted => exact .written step ref key value range accepted

theorem of_scopeStep (step : SessionStep) (taken : ScopeStep) (realm : Realm) :
    RecordEffect realm.heap step (taken.run realm).2.heap := by
  cases taken with
  | read name range =>
    simp only [ScopeStep.run, Realm.readName_apply]
    split
    · exact .still step rfl
    · have keeps := Value.read_keepsContainers (.record realm.context.globalRecord) (.string name)
        range
      exact .still step (keeps.records_eq realm.heap)
  | assign name value range =>
    simp only [ScopeStep.run, Action.bind_apply, Realm.assignName_apply]
    cases realm.context.find? name with
    | some binding =>
      by_cases constant : binding.kind = .constant <;>
      · simp only [constant, if_true, if_false]
        exact .still step rfl
    | none =>
      have effect := of_write step (.record realm.context.globalRecord) (.string name) value range
        realm.heap
      change RecordEffect _ step (realm.context.globalRecord.write (.string name) value range
        realm.heap).2 at effect
      dsimp only [Realm.onHeap]
      generalize realm.context.globalRecord.write (.string name) value range realm.heap = outcome
        at effect ⊢
      rcases outcome with ⟨_ | _, after⟩ <;> exact effect
  | declare name value kind range =>
    simp only [ScopeStep.run, Action.bind_apply, Realm.declareName_apply]
    cases realm.context.inner.contains name <;> exact .still step rfl
  | enter => exact .still step rfl
  | leave =>
    simp only [ScopeStep.run, Action.bind_apply, Realm.leaveScope_apply]
    cases realm.context.leave? <;> exact .still step rfl
  | setThis value => exact .still step rfl

end SessionStep.RecordEffect

theorem SessionStep.recordEffect (step : SessionStep) (session : Session) :
    RecordEffect session.heap step (step.run session).2.heap := by
  cases step with
  | read target property range =>
    exact .still _ ((target.read_keepsContainers property range).records_eq session.heap)
  | write target property value range =>
    have effect := RecordEffect.of_write (.write target property value range) target property value
      range session.heap
    simp only [run, Session.onHeap, Action.bind_apply]
    generalize target.write property value range session.heap = outcome at effect ⊢
    rcases outcome with ⟨_ | _, after⟩ <;> exact effect
  | inContext index step =>
    simp only [run, Session.onContext]
    split
    · exact .still _ rfl
    · next context _ => exact .of_scopeStep _ step ⟨session.heap, context⟩
  | newContext globalRecord => exact .still _ rfl
  | insert ref key value => exact .inserted ref key value

end ScriptCore
