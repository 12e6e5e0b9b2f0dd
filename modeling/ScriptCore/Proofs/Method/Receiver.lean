import ScriptCore.Proofs.Method.Function

/-! # What calls of a method depend on

A function that is a method has been read from a value and may have been bound since, many times. A
call sees nothing of that history but the last receiver: it runs the method on it. To construct
fails before anything else is looked at, and a receiver of another kind before the arguments are.
-/

namespace ScriptCore

namespace Method

theorem run_constructing (method : Method) (calls : Invocation) (receiver : Value)
    (arguments : List Value) (range : Option SourceRange) (machine : Machine) :
    method.run calls receiver arguments true range machine =
      some (.error ⟨.notConstructor, range⟩, machine) := rfl

theorem run_of_kind_ne {method : Method} {receiver : Value}
    (differs : receiver.kind ≠ method.receiverKind) (calls : Invocation) (arguments : List Value)
    (range : Option SourceRange) (machine : Machine) :
    method.run calls receiver arguments false range machine =
      some (.error ⟨.unexpectedReceiver method.receiverKind receiver.kind, range⟩, machine) := by
  unfold run
  rw [if_neg Bool.false_ne_true, if_pos differs, Execution.fail_apply]

theorem receiverKind_of_ofName? {kind : Kind} {name : String} {method : Method}
    (has : ofName? kind name = some method) : method.receiverKind = kind := by
  unfold ofName? at has
  split at has <;> cases has <;> rfl

end Method

namespace Machine

/-- The function was read from the source, by a key that is written as the name, and bound to the
receivers since, first to last. What happens to the heap in between takes no function away. -/
inductive BoundFrom (name : String) (range : Option SourceRange) (source : Value) :
    Machine → List Value → FunctionRef → Prop
  | read {machine after property key ref} (named : property.propertyKey? = some key)
      (text : key.text = name)
      (reads : (Binary.readMember range).run source property machine =
        some (.ok (.value (.function ref)), after)) :
      BoundFrom name range source after [] ref
  | bind {machine after receivers receiver ref bound}
      (earlier : BoundFrom name range source machine receivers ref)
      (binds : Binary.bind.run (.function ref) receiver machine =
        some (.ok (.value (.function bound)), after)) :
      BoundFrom name range source after (receivers ++ [receiver]) bound
  | later {machine after receivers ref}
      (earlier : BoundFrom name range source machine receivers ref)
      (becomes : machine.realm.heap.Becomes after.realm.heap) :
      BoundFrom name range source after receivers ref

variable {name : String} {range : Option SourceRange} {source : Value} {machine : Machine}
  {receivers : List Value} {ref : FunctionRef} {method : Method}

/-- The function is the method with the last receiver, at first the value that it was read from. -/
theorem BoundFrom.functionCell_eq (bound : machine.BoundFrom name range source receivers ref)
    (has : Method.ofName? source.kind name = some method) :
    ref.index < machine.realm.heap.functions.size ∧
      machine.realm.heap.functionCell ref =
        ⟨.method method range, receivers.getLastD source, false⟩ := by
  induction bound with
  | @read machine after property key ref named text reads =>
    rw [← text] at has
    cases (readMember_method named has range machine).symm.trans reads
    exact ⟨nextFunction_lt machine _, functionCell_withFunction machine _⟩
  | @bind machine after receivers receiver ref bound earlier binds ih =>
    cases (bind_apply ref receiver machine).symm.trans binds
    refine ⟨nextFunction_lt machine _, ?_⟩
    rw [functionCell_withFunction, ih.2, List.getLastD_concat]
    rfl
  | later earlier becomes ih =>
    constructor
    · exact Nat.lt_of_lt_of_le ih.1 becomes.functions_size_le
    · rw [becomes.functionCell_eq ih.1, ih.2]

/-- Functions that are built alike cannot be told apart by calling them. -/
theorem invoke_congr {twin : FunctionRef}
    (alike : machine.realm.heap.functionCell twin = machine.realm.heap.functionCell ref)
    (depth : Nat) (arguments : List Value) (isConstructing : Bool) :
    invoke depth twin arguments isConstructing machine =
      invoke depth ref arguments isConstructing machine := by
  cases depth with
  | zero => rfl
  | succ depth =>
    rw [invoke, invoke, Execution.bind_apply, Execution.bind_apply, Execution.heap_apply]
    dsimp only
    rw [alike]

end Machine

/-- Of two functions that were read at one place by one name from values of one kind, and whose last
receivers are the same, calls have the same outcome; the receiver of a function that was never bound
is the value that it was read from. A call is a run of the method on the receiver. Whatever the
arguments are and callbacks would do, it fails and changes nothing if it is to construct, and
otherwise if the receiver is of another kind. -/
theorem Method.depends_on_receiver {kind : Kind} {name : String} {method : Method}
    (has : Method.ofName? kind name = some method) {range : Option SourceRange} {machine : Machine}
    {source : Value} {receivers : List Value} {ref : FunctionRef} (fits : source.kind = kind)
    (bound : machine.BoundFrom name range source receivers ref) :
    let receiver := receivers.getLastD source
    (∀ other others twin, other.kind = kind →
      machine.BoundFrom name range other others twin → others.getLastD other = receiver →
        ∀ depth arguments isConstructing,
          invoke depth twin arguments isConstructing machine =
            invoke depth ref arguments isConstructing machine) ∧
    (∀ depth arguments isConstructing,
      invoke (depth + 1) ref arguments isConstructing machine =
        method.run (invoke depth) receiver arguments isConstructing range machine) ∧
    (∃ error : ScriptError, error.range = range ∧ error.cause.errorClass = .type ∧
      error.cause.message = "This is not a constructor" ∧
      ∀ calls arguments,
        method.run calls receiver arguments true range machine = some (.error error, machine)) ∧
    (receiver.kind ≠ kind → ∃ error : ScriptError, error.range = range ∧
      error.cause.errorClass = .type ∧
      error.cause.message =
        "Expected 'this' to be " ++ kind.withArticle ++ ", but actually " ++
          receiver.kind.name ∧
      ∀ calls arguments,
        method.run calls receiver arguments false range machine =
          some (.error error, machine)) := by
  intro receiver
  subst fits
  have cell := (bound.functionCell_eq has).2
  refine ⟨?_, ?_, ?_, ?_⟩
  · intro other others twin fits boundTwin same
    rw [← fits] at has
    refine Machine.invoke_congr ?_
    rw [(boundTwin.functionCell_eq has).2, cell, same]
  · intro depth arguments isConstructing
    rw [Machine.invoke_method (by rw [cell]), cell]
  · exact ⟨⟨.notConstructor, range⟩, rfl, rfl, rfl, fun calls arguments =>
      method.run_constructing calls receiver arguments range machine⟩
  · intro differs
    rw [← receiverKind_of_ofName? has] at differs ⊢
    exact ⟨_, rfl, rfl, rfl, fun calls arguments =>
      run_of_kind_ne differs calls arguments range machine⟩

/-- `toString` is read from zero and bound to null and then to not-a-number, and it is read from
not-a-number as it is. Calls of the last two functions are the same; those of the function bound to
null fail. -/
theorem Method.depends_on_receiver_rebound :
    let place : Option SourceRange := some ⟨⟨1, 2⟩, ⟨1, 5⟩⟩
    let zero := Value.number .zero
    let nan := Value.number .nan
    let method (receiver : Value) : FunctionCell := ⟨.method .numberText place, receiver, false⟩
    let having (functions : Array FunctionCell) : Machine :=
      ⟨⟨⟨#[], #[], functions⟩, .ofGlobal ⟨0⟩⟩, .empty⟩
    let machine := having #[method zero, method .null, method nan, method nan]
    ofName? .number "toString" = some .numberText ∧
      machine.BoundFrom "toString" place zero [.null] ⟨1⟩ ∧
      machine.BoundFrom "toString" place zero [.null, nan] ⟨2⟩ ∧
      machine.BoundFrom "toString" place nan [] ⟨3⟩ ∧
      (∀ depth arguments isConstructing, invoke depth ⟨3⟩ arguments isConstructing machine =
        invoke depth ⟨2⟩ arguments isConstructing machine) ∧
      ∃ error : ScriptError,
        error.cause.message = "Expected 'this' to be a Number, but actually null" ∧
        ∀ depth arguments,
          invoke (depth + 1) ⟨1⟩ arguments false machine = some (.error error, machine) := by
  intro place zero nan method having machine
  have has : ofName? .number "toString" = some .numberText := rfl
  have reads : (Binary.readMember place).run zero (.string "toString") (having #[]) =
      some (.ok (.value (.function ⟨0⟩)), having #[method zero]) := rfl
  have readsNaN : (Binary.readMember place).run nan (.string "toString")
      (having #[method zero, method .null, method nan]) =
        some (.ok (.value (.function ⟨3⟩)), machine) := rfl
  have read : (having #[method zero]).BoundFrom "toString" place zero [] ⟨0⟩ :=
    .read rfl rfl reads
  have nulled : (having #[method zero, method .null]).BoundFrom "toString" place zero [.null] ⟨1⟩ :=
    .bind read ((having #[method zero]).bind_apply ⟨0⟩ .null)
  have bound : (having #[method zero, method .null, method nan]).BoundFrom "toString" place zero
      [.null, nan] ⟨2⟩ := .bind nulled ((having #[method zero, method .null]).bind_apply ⟨1⟩ nan)
  have twin : machine.BoundFrom "toString" place nan [] ⟨3⟩ :=
    .read rfl rfl readsNaN
  have nulledLater : machine.BoundFrom "toString" place zero [.null] ⟨1⟩ :=
    .later nulled (.of_added _ #[method nan, method nan])
  have boundLater : machine.BoundFrom "toString" place zero [.null, nan] ⟨2⟩ :=
    .later bound (.of_added _ #[method nan])
  refine ⟨has, nulledLater, boundLater, twin, ?_, ?_⟩
  · exact (depends_on_receiver has rfl boundLater).1 nan [] ⟨3⟩ rfl twin rfl
  · obtain ⟨-, runs, -, mismatch⟩ := depends_on_receiver has rfl nulledLater
    obtain ⟨error, -, -, message, fails⟩ := mismatch nofun
    refine ⟨error, message, fun depth arguments => ?_⟩
    rw [runs, fails]

end ScriptCore
