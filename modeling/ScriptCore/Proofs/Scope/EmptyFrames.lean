import ScriptCore.Proofs.Scope.Routine

/-! # Empty frames are unobservable

Reading and assigning names does not see frames that bind nothing. A stack with empty frames put
into it anywhere above its base is in step with the stack itself: each access has the same result,
and the stacks that it leaves differ by the same empty frames. A block that declares nothing is the
case of one empty frame on top, be it entered and left by steps of their own or by a scope with a
body.
-/

namespace ScriptCore

/-! ## Stacks with empty frames -/

/-- Puts as many empty frames in front of each frame as counted; none comes behind the last one. -/
def padFrames : List Nat → List Frame → List Frame
  | _, [] => []
  | [], frame :: outer => frame :: outer
  | gap :: gaps, frame :: outer => List.replicate gap .empty ++ frame :: padFrames gaps outer

theorem padFrames_nil (frames : List Frame) : padFrames [] frames = frames := by
  cases frames <;> rfl

theorem padFrames_ne_nil (gaps : List Nat) (frame : Frame) (outer : List Frame) :
    padFrames gaps (frame :: outer) ≠ [] := by
  cases gaps <;> simp [padFrames]

theorem findSome?_empty_append (name : String) (gap : Nat) (frames : List Frame) :
    (List.replicate gap (.empty : Frame) ++ frames).findSome? (·.get? name) =
      frames.findSome? (·.get? name) := by
  induction gap with
  | zero => rfl
  | succ gap ih => exact ih

theorem findSome?_padFrames (name : String) (gaps : List Nat) (frames : List Frame) :
    (padFrames gaps frames).findSome? (·.get? name) = frames.findSome? (·.get? name) := by
  induction frames generalizing gaps with
  | nil => cases gaps <;> rfl
  | cons frame outer ih =>
    cases gaps with
    | nil => rfl
    | cons gap gaps => simp only [padFrames, findSome?_empty_append, List.findSome?_cons, ih]

namespace Context

theorem assignIn_empty_append (name : String) (value : Value) (gap : Nat) (frames : List Frame) :
    assignIn name value (List.replicate gap .empty ++ frames) =
      List.replicate gap .empty ++ assignIn name value frames := by
  induction gap with
  | zero => rfl
  | succ gap ih =>
    have free : (Entries.empty : Frame).get? name = none := rfl
    rw [List.replicate_succ, List.cons_append, assignIn, free, ih]
    rfl

theorem assignIn_padFrames (name : String) (value : Value) (gaps : List Nat)
    (frames : List Frame) :
    assignIn name value (padFrames gaps frames) = padFrames gaps (assignIn name value frames) := by
  induction frames generalizing gaps with
  | nil => cases gaps <;> rfl
  | cons frame outer ih =>
    cases gaps with
    | nil => rw [padFrames_nil, padFrames_nil]
    | cons gap gaps =>
      rw [padFrames, assignIn_empty_append]
      unfold assignIn
      cases frame.get? name with
      | some binding => rfl
      | none => simp only [ih, padFrames]

/-- The context with empty frames put into its stack. -/
def padded (context : Context) (gaps : List Nat) : Context :=
  match padFrames gaps context.frames with
  | [] => context
  | inner :: outer => { context with inner, outer }

theorem frames_padded (context : Context) (gaps : List Nat) :
    (context.padded gaps).frames = padFrames gaps context.frames := by
  unfold padded
  split
  · next empty => exact absurd empty (padFrames_ne_nil gaps context.inner context.outer)
  · next inner outer padding => rw [padding]; rfl

theorem globalRecord_padded (context : Context) (gaps : List Nat) :
    (context.padded gaps).globalRecord = context.globalRecord := by
  unfold padded
  split <;> rfl

theorem currentThis_padded (context : Context) (gaps : List Nat) :
    (context.padded gaps).currentThis = context.currentThis := by
  unfold padded
  split <;> rfl

/-- A context is its frames, its global record and `this`. -/
theorem ext_frames {context other : Context} (frames : context.frames = other.frames)
    (globalRecord : context.globalRecord = other.globalRecord)
    (currentThis : context.currentThis = other.currentThis) : context = other := by
  cases context
  cases other
  obtain ⟨rfl, rfl⟩ := List.cons.inj frames
  cases globalRecord
  cases currentThis
  rfl

theorem find?_padded (context : Context) (gaps : List Nat) (name : String) :
    (context.padded gaps).find? name = context.find? name := by
  rw [find?, frames_padded, findSome?_padFrames, find?]

theorem assignBinding_padded (context : Context) (gaps : List Nat) (name : String)
    (value : Value) :
    (context.padded gaps).assignBinding name value =
      (context.assignBinding name value).padded gaps := by
  apply ext_frames
  · rw [frames_assignBinding, frames_padded, assignIn_padFrames, frames_padded,
      frames_assignBinding]
  · rw [globalRecord_assignBinding, globalRecord_padded, globalRecord_padded,
      globalRecord_assignBinding]
  · rw [currentThis_assignBinding, currentThis_padded, currentThis_padded,
      currentThis_assignBinding]

/-- Entering a frame is putting one empty frame in front of all. -/
theorem padded_enter (context : Context) : context.padded [1] = context.enter := by
  cases context with
  | mk inner outer globalRecord currentThis => cases outer <;> rfl

theorem truncate_enter (context : Context) : context.enter.truncate context.depth = context := by
  have one : context.enter.depth - context.depth = 1 := by
    change context.depth + 1 - context.depth = 1
    omega
  unfold truncate
  rw [one]
  rfl

end Context

def Realm.padded (realm : Realm) (gaps : List Nat) : Realm :=
  { realm with context := realm.context.padded gaps }

/-! ## Accesses -/

namespace ScopeStep

/-- Whether the step reads or assigns a name. -/
def isAccess : ScopeStep → Bool
  | read .. | assign .. => true
  | _ => false

/-- An access has the same result under empty frames, and its effect is the same among them. -/
theorem run_padded (step : ScopeStep) (access : step.isAccess) (realm : Realm)
    (gaps : List Nat) :
    step.run (realm.padded gaps) = ((step.run realm).1, (step.run realm).2.padded gaps) := by
  cases step with
  | read name range =>
    simp only [run, Realm.readName_apply, Realm.padded, Context.find?_padded,
      Context.globalRecord_padded]
    cases realm.context.find? name <;> rfl
  | assign name value range =>
    simp only [run, Action.bind_pure_apply, Realm.assignName_apply, Realm.padded,
      Context.find?_padded, Context.globalRecord_padded]
    cases realm.context.find? name with
    | none => rfl
    | some binding =>
      by_cases constant : binding.kind = .constant
      · simp only [constant, if_true]
      · simp only [constant, if_false, Context.assignBinding_padded]
  | declare | enter | leave | setThis => contradiction

theorem depth_run_of_access (step : ScopeStep) (access : step.isAccess) (realm : Realm) :
    (step.run realm).2.context.depth = realm.context.depth := by
  cases step with
  | read name range =>
    simp only [run, Realm.readName_apply]
    cases realm.context.find? name <;> rfl
  | assign name value range =>
    simp only [run, Action.bind_pure_apply, Realm.assignName_apply]
    cases realm.context.find? name with
    | none => rfl
    | some binding =>
      by_cases constant : binding.kind = .constant
      · simp only [constant, if_true]
      · simp only [constant, if_false, Context.depth_assignBinding]
  | declare | enter | leave | setThis => contradiction

/-! ## Runs of steps -/

/-- Takes steps in order, goes on after those that fail, and answers with all results. -/
def observeAll : List ScopeStep → Execution (List (Except ScriptError Value))
  | [] => return []
  | step :: rest => do
    let result ← observing (Execution.onRealm step.run)
    return result :: (← observeAll rest)

/-- The results of the steps and the realm that they leave. -/
def outcomes : List ScopeStep → Realm → List (Except ScriptError Value) × Realm
  | [], realm => ([], realm)
  | step :: rest, realm =>
    let (results, after) := outcomes rest (step.run realm).2
    ((step.run realm).1 :: results, after)

theorem observeAll_apply (steps : List ScopeStep) (realm : Realm) (registers : Entries Value) :
    observeAll steps ⟨realm, registers⟩ =
      some (.ok (outcomes steps realm).1, ⟨(outcomes steps realm).2, registers⟩) := by
  induction steps generalizing realm with
  | nil => rfl
  | cons step rest ih =>
    have taken : Execution.onRealm step.run ⟨realm, registers⟩ = some _ := rfl
    rw [observeAll, Routine.observing_bind_apply taken]
    change ((observeAll rest : Execution _) _).bind _ = _
    rw [ih]
    rfl

theorem outcomes_append (first second : List ScopeStep) (realm : Realm) :
    outcomes (first ++ second) realm =
      ((outcomes first realm).1 ++ (outcomes second (outcomes first realm).2).1,
        (outcomes second (outcomes first realm).2).2) := by
  induction first generalizing realm with
  | nil => rfl
  | cons step rest ih => simp only [List.cons_append, outcomes, ih]

theorem outcomes_padded (steps : List ScopeStep) (accesses : ∀ step ∈ steps, step.isAccess)
    (realm : Realm) (gaps : List Nat) :
    outcomes steps (realm.padded gaps) =
      ((outcomes steps realm).1, (outcomes steps realm).2.padded gaps) := by
  induction steps generalizing realm with
  | nil => rfl
  | cons step rest ih =>
    have first := step.run_padded (accesses step (List.mem_cons_self ..)) realm gaps
    have others := ih fun other member => accesses other (List.mem_cons_of_mem _ member)
    simp only [outcomes, first, others]

theorem depth_outcomes (steps : List ScopeStep) (accesses : ∀ step ∈ steps, step.isAccess)
    (realm : Realm) : (outcomes steps realm).2.context.depth = realm.context.depth := by
  induction steps generalizing realm with
  | nil => rfl
  | cons step rest ih =>
    have others := ih fun other member => accesses other (List.mem_cons_of_mem _ member)
    exact (others _).trans (step.depth_run_of_access (accesses step (List.mem_cons_self ..)) realm)

theorem outcomes_entered (steps : List ScopeStep) (accesses : ∀ step ∈ steps, step.isAccess)
    (realm : Realm) :
    outcomes steps realm.entered =
      ((outcomes steps realm).1, (outcomes steps realm).2.entered) := by
  have asPadded : ∀ realm : Realm, realm.entered = realm.padded [1] := by
    intro realm
    rw [Realm.entered, Realm.padded, Context.padded_enter]
  rw [asPadded, outcomes_padded steps accesses, asPadded]

/-- Reads and assignments, whether or not they fail, have the same results and leave the same realm
when they run in a frame of their own, entered and left by steps or around a body. Under any empty
frames above the base of the stack they have the same results and leave what they leave without
them, with these empty frames in their places. -/
theorem accesses_ignore_empty_frames (steps : List ScopeStep)
    (accesses : ∀ step ∈ steps, step.isAccess) (realm : Realm) (registers : Entries Value) :
    ∃ results after,
      observeAll steps ⟨realm, registers⟩ = some (.ok results, ⟨after, registers⟩) ∧
      observeAll (.enter :: steps ++ [.leave]) ⟨realm, registers⟩ =
        some (.ok (.ok .undefined :: results ++ [.ok .undefined]), ⟨after, registers⟩) ∧
      Execution.inScope (observeAll steps) ⟨realm, registers⟩ =
        some (.ok results, ⟨after, registers⟩) ∧
      ∀ gaps, observeAll steps ⟨realm.padded gaps, registers⟩ =
        some (.ok results, ⟨after.padded gaps, registers⟩) := by
  have inside := outcomes_entered steps accesses realm
  refine ⟨(outcomes steps realm).1, (outcomes steps realm).2, observeAll_apply .., ?_, ?_, ?_⟩
  · have entering : outcomes (.enter :: steps) realm =
        (.ok .undefined :: (outcomes steps realm).1, (outcomes steps realm).2.entered) := by
      change (_ :: (outcomes steps realm.entered).1, (outcomes steps realm.entered).2) = _
      rw [inside]
      rfl
    rw [observeAll_apply, outcomes_append, entering]
    rfl
  · have runs := observeAll_apply steps realm.entered registers
    rw [inside] at runs
    rw [Routine.inScope_apply runs, ← depth_outcomes steps accesses realm, Realm.truncated,
      Realm.entered, Context.truncate_enter]
  · intro gaps
    rw [observeAll_apply, outcomes_padded steps accesses]

theorem accesses_ignore_empty_frames_failing :
    let steps : List ScopeStep := [.assign "c" .null none, .assign "self" .null none,
      .assign "x" .null none, .read "x" none]
    let realm : Realm := { Realm.initial with
      context := ⟨.ofList [("c", ⟨.boolean true, .constant⟩)], [.empty], ⟨0⟩, .null⟩ }
    (∀ step ∈ steps, step.isAccess) ∧
    ∃ results after,
      observeAll steps ⟨realm, .empty⟩ = some (.ok results, ⟨after, .empty⟩) ∧
      Execution.inScope (observeAll steps) ⟨realm, .empty⟩ =
        some (.ok results, ⟨after, .empty⟩) ∧
      observeAll steps ⟨realm.padded [0, 2], .empty⟩ =
        some (.ok results, ⟨after.padded [0, 2], .empty⟩) := by
  intro steps realm
  have accesses : ∀ step ∈ steps, step.isAccess := by decide
  obtain ⟨results, after, directly, -, within, padded⟩ :=
    accesses_ignore_empty_frames steps accesses realm .empty
  exact ⟨accesses, results, after, directly, within, padded [0, 2]⟩

end ScopeStep

end ScriptCore
