import ScriptCore.Proofs.Error.Placement
import ScriptCore.Proofs.Member.Failure
import ScriptCore.Proofs.Method.Snapshot

/-! # Errors of methods

A method keeps the place at which it was read, however it is bound and called afterwards, and raises
its own errors there. It changes nothing before it raises one. An error of a callback of `filter` or
`map` is not its own: it ends the call and is passed on as it is.
-/

namespace ScriptCore

theorem Value.eq_function_of_narrowFunction {v : Value} {range : Option SourceRange}
    {ref : FunctionRef} (narrowed : v.narrowFunction range = .ok ref) : v = .function ref := by
  cases v with
  | primitive p => cases p <;> cases narrowed
  | array | record => cases narrowed
  | function other =>
    cases narrowed
    rfl

namespace Method

/-! ## Callbacks -/

/-- A callback answers for some elements and fails for the next one. -/
inductive CallbackFails (invoke : Invocation) (callback : FunctionRef) (self : ArrayRef) :
    Nat → List Value → Machine → ScriptError → Machine → Prop
  | here {index element rest machine error after}
      (fails : callBack invoke callback self index element machine =
        some (.error error, after)) :
      CallbackFails invoke callback self index (element :: rest) machine error after
  | later {index element rest machine answer between error after}
      (answers : callBack invoke callback self index element machine =
        some (.ok answer, between))
      (fails : CallbackFails invoke callback self (index + 1) rest between error after) :
      CallbackFails invoke callback self index (element :: rest) machine error after

theorem mapFrom_fails_iff {invoke : Invocation} {callback : FunctionRef} {self : ArrayRef}
    {machine after : Machine} {error : ScriptError} (index : Nat) (elements : List Value) :
    mapFrom invoke callback self index elements machine = some (.error error, after) ↔
      CallbackFails invoke callback self index elements machine error after := by
  induction elements generalizing index machine with
  | nil => constructor <;> rintro ⟨⟩
  | cons element rest ih =>
    have goesOn : ∀ answer between, (do
        let others ← mapFrom invoke callback self (index + 1) rest
        return answer :: others : Execution (List Value)) between = some (.error error, after) ↔
          CallbackFails invoke callback self (index + 1) rest between error after := by
      intro answer between
      have returns : ∀ (others : List Value) last, ∃ results later,
          (pure (answer :: others) : Execution (List Value)) last = some (.ok results, later) :=
        fun _ last => ⟨_, last, rfl⟩
      rw [Execution.bind_fails_iff_of_answers returns, ih]
    rw [mapFrom, Execution.bind_fails_iff]
    constructor
    · rintro (fails | ⟨answer, between, answers, fails⟩)
      · exact .here fails
      · exact .later answers ((goesOn answer between).mp fails)
    · intro fails
      cases fails with
      | here fails => exact .inl fails
      | later answers fails => exact .inr ⟨_, _, answers, (goesOn _ _).mpr fails⟩

/-- `filter` or `map` is called on an array with a function, and calling that back fails. -/
inductive CallbackRaises (invoke : Invocation) (method : Method) :
    Value → List Value → Bool → Machine → ScriptError → Machine → Prop
  | intro {self callback arguments machine error after}
      (iterates : method.receiverKind = .array)
      (given : arguments.headD .undefined = .function callback)
      (fails : CallbackFails invoke callback self 0 (machine.realm.heap.elements self).toList
        machine error after) :
      CallbackRaises invoke method (.array self) arguments false machine error after

/-! ## Calls -/

theorem onPayload_placed (method : Method) (p : Primitive) (argument : Value)
    (range : Option SourceRange) : Placed range (method.onPayload p argument range) := by
  unfold onPayload
  split
  · refine .bind (Narrowing.finish_placed _ range) fun radix => .bind ?_ fun _ => .ok _
    unfold numberTextFor
    split
    · exact .ok _
    · split
      · exact .ok _
      · exact .error _
  · exact .bind (Narrowing.finish_placed _ range) fun places =>
      .bind (Double.toFixed_placed _ _ range) fun _ => .ok _
  · exact .ok _
  · exact .ok _
  · exact .ok _
  · exact .ok _

variable {invoke : Invocation} {method : Method} {range : Option SourceRange}
  {machine after : Machine} {error : ScriptError}

theorem onArray_of_refused {self : ArrayRef} {argument : Value}
    (refused : argument.narrowFunction range = .error error) :
    method.onArray invoke self argument range machine = some (.error error, machine) := by
  rw [onArray, Execution.bind_apply, Execution.ofExcept_apply, refused]

/-- Once it has a callback, a method of arrays fails just as that does. -/
theorem onArray_function_fails_iff {self : ArrayRef} {callback : FunctionRef} :
    method.onArray invoke self (.function callback) range machine = some (.error error, after) ↔
      CallbackFails invoke callback self 0 (machine.realm.heap.elements self).toList machine
        error after := by
  have collects : ∀ (answers : List Value) between, ∃ v later,
      (Value.array <$> Execution.onHeap (newArray (method.collected
        (machine.realm.heap.elements self).toList answers).toArray)) between =
          some (.ok v, later) := fun _ _ => ⟨_, _, rfl⟩
  rw [onArray_eq]
  dsimp only
  rw [Execution.bind_fails_iff_of_answers collects, ← mapFrom_zero, mapFrom_fails_iff]

variable {receiver : Value} {arguments : List Value} {isConstructing : Bool}

/-- A call fails at the place of the method, having changed nothing, or by its callback. -/
theorem run_fails
    (fails : method.run invoke receiver arguments isConstructing range machine =
      some (.error error, after)) :
    error.range = range ∧ after = machine ∨
      CallbackRaises invoke method receiver arguments isConstructing machine error after := by
  unfold run at fails
  split at fails
  · cases fails
    exact .inl ⟨rfl, rfl⟩
  · next calls =>
    split at fails
    · cases fails
      exact .inl ⟨rfl, rfl⟩
    · next fits =>
      have same := Classical.not_not.mp fits
      split at fails
      · next self =>
        cases narrowed : (arguments.headD .undefined).narrowFunction range with
        | error refusal =>
          cases (onArray_of_refused narrowed).symm.trans fails
          exact .inl ⟨Narrowing.finish_placed _ range error narrowed, rfl⟩
        | ok callback =>
          have given := Value.eq_function_of_narrowFunction narrowed
          rw [given] at fails
          obtain rfl : isConstructing = false := Bool.eq_false_iff.mpr calls
          exact .inr (.intro same.symm given (onArray_function_fails_iff.mp fails))
      · rw [Execution.ofExcept_apply] at fails
        obtain ⟨refused, rfl⟩ := Prod.mk.inj (Option.some.inj fails)
        exact .inl ⟨onPayload_placed method _ _ range error refused, rfl⟩

/-- The error of a callback is that of the call. -/
theorem run_of_callbackRaises
    (raises : CallbackRaises invoke method receiver arguments isConstructing machine error after) :
    method.run invoke receiver arguments isConstructing range machine =
      some (.error error, after) := by
  obtain ⟨iterates, given, fails⟩ := raises
  rw [run_function iterates given]
  exact onArray_function_fails_iff.mpr fails

end Method

/-! ## Functions that are methods -/

namespace Machine

/-- The function is what the method became that was read at the place: the function that the read
made, or one that was bound from it, with any evaluations since. -/
inductive HoldsMethod (method : Method) (range : Option SourceRange) :
    Machine → FunctionRef → Prop
  | read {machine after v property key ref} (named : property.propertyKey? = some key)
      (has : Method.ofName? v.kind key.text = some method)
      (reads : (Binary.readMember range).run v property machine =
        some (.ok (.value (.function ref)), after)) :
      HoldsMethod method range after ref
  | bind {machine after ref receiver bound} (holds : HoldsMethod method range machine ref)
      (binds : Binary.bind.run (.function ref) receiver machine =
        some (.ok (.value (.function bound)), after)) :
      HoldsMethod method range after bound
  | later {machine after ref depth call} {term : Term} {result}
      (holds : HoldsMethod method range machine ref)
      (evaluates : term.eval (invoke depth) call machine = some (result, after)) :
      HoldsMethod method range after ref

/-- Calls of the function fail at the place where the method was read, having changed nothing,
unless a callback fails, whose error they pass on. -/
structure FailsAsMethod (machine : Machine) (ref : FunctionRef) (method : Method)
    (range : Option SourceRange) : Prop where
  raised : ∀ depth arguments isConstructing error after,
    invoke (depth + 1) ref arguments isConstructing machine = some (.error error, after) →
    error.range = range ∧ after = machine ∨
      Method.CallbackRaises (invoke depth) method (machine.realm.heap.functionCell ref).receiver
        arguments isConstructing machine error after
  passedOn : ∀ depth arguments isConstructing error after,
    Method.CallbackRaises (invoke depth) method (machine.realm.heap.functionCell ref).receiver
      arguments isConstructing machine error after →
    invoke (depth + 1) ref arguments isConstructing machine = some (.error error, after)

variable {machine : Machine} {ref : FunctionRef} {method : Method} {range : Option SourceRange}

theorem HoldsMethod.code (holds : HoldsMethod method range machine ref) :
    ref.index < machine.realm.heap.functions.size ∧
      (machine.realm.heap.functionCell ref).code = .method method range := by
  induction holds with
  | @read machine after v property key ref named has reads =>
    cases (readMember_method named has range machine).symm.trans reads
    exact ⟨nextFunction_lt machine _, by rw [functionCell_withFunction]⟩
  | @bind machine after ref receiver bound holds binds ih =>
    cases (bind_apply ref receiver machine).symm.trans binds
    refine ⟨nextFunction_lt machine _, ?_⟩
    rw [functionCell_withFunction, FunctionCell.bind_code, ih.2]
  | later holds evaluates ih =>
    have becomes := Term.eval_evolves (invoke_evolves _) _ _ _ _ _ evaluates
    constructor
    · exact Nat.lt_of_lt_of_le ih.1 becomes.functions_size_le
    · rw [becomes.functionCell_eq ih.1, ih.2]

theorem failsAsMethod_of_code
    (code : (machine.realm.heap.functionCell ref).code = .method method range) :
    machine.FailsAsMethod ref method range := by
  constructor
  · intro depth arguments isConstructing error after fails
    rw [invoke_method code] at fails
    exact Method.run_fails fails
  · intro depth arguments isConstructing error after raises
    rw [invoke_method code]
    exact Method.run_of_callbackRaises raises

end Machine

/-- Errors are at the place in the script that asked for what failed. For methods that is the place
where they were read, however they were bound and called since; the errors of callbacks stay where
they were raised. -/
theorem errors_are_placed :
    (∀ realm : Realm, realm.heap.HooksKeepPlace → ∀ range, realm.PlacesErrors range) ∧
      ∀ method range machine ref, Machine.HoldsMethod method range machine ref →
        machine.FailsAsMethod ref method range := by
  constructor
  · intro realm kept range
    exact Realm.placesErrors kept range
  · intro method range machine ref holds
    exact Machine.failsAsMethod_of_code holds.code.2

/-- `map` is read from an array, bound to null and bound to the array again. Called to construct it
fails where it was read, called with a function that raises an error it fails where that does. -/
theorem errors_are_placed_rebound :
    let place : Option SourceRange := some ⟨⟨1, 2⟩, ⟨1, 5⟩⟩
    let elsewhere : Option SourceRange := some ⟨⟨7, 1⟩, ⟨7, 9⟩⟩
    let callback : FunctionCell :=
      ⟨.program [.nullary (.raise .notConstructor elsewhere)], .null, false⟩
    let mapping (receiver : Value) : FunctionCell := ⟨.method .arrayMap place, receiver, false⟩
    let having (functions : Array FunctionCell) : Machine :=
      ⟨⟨⟨#[#[.null]], guardedRealm.heap.records, functions⟩, guardedRealm.context⟩, .empty⟩
    let machine := having #[callback, mapping (.array ⟨0⟩), mapping .null, mapping (.array ⟨0⟩)]
    machine.realm.heap.HooksKeepPlace ∧ machine.realm.PlacesErrors place ∧
      machine.HoldsMethod .arrayMap place ⟨3⟩ ∧ machine.FailsAsMethod ⟨3⟩ .arrayMap place ∧
      invoke 1 ⟨3⟩ [] true machine = some (.error ⟨.notConstructor, place⟩, machine) ∧
      invoke 2 ⟨3⟩ [.function ⟨0⟩] false machine =
        some (.error ⟨.notConstructor, elsewhere⟩, machine) := by
  intro place elsewhere callback mapping having machine
  have kept : machine.realm.heap.HooksKeepPlace := by
    rintro ⟨_ | _ | index⟩ hooks attached
    · cases attached
      exact Hooks.global_keepsPlace
    · cases attached
      exact HookTable.hooks_keepsPlace _ _
    · cases attached
  have reads : (Binary.readMember place).run (.array ⟨0⟩) (.string "map") (having #[callback]) =
      some (.ok (.value (.function ⟨1⟩)), having #[callback, mapping (.array ⟨0⟩)]) := rfl
  have binds : Binary.bind.run (.function ⟨1⟩) .null (having #[callback, mapping (.array ⟨0⟩)]) =
      some (.ok (.value (.function ⟨2⟩)),
        having #[callback, mapping (.array ⟨0⟩), mapping .null]) := rfl
  have rebinds : Binary.bind.run (.function ⟨2⟩) (.array ⟨0⟩)
      (having #[callback, mapping (.array ⟨0⟩), mapping .null]) =
        some (.ok (.value (.function ⟨3⟩)), machine) := rfl
  have holds : machine.HoldsMethod .arrayMap place ⟨3⟩ :=
    .bind (.bind (.read rfl rfl reads) binds) rebinds
  obtain ⟨placed, fails⟩ := errors_are_placed
  exact ⟨kept, placed machine.realm kept place, holds, fails _ _ _ _ holds, rfl, rfl⟩

end ScriptCore
