import ScriptCore.Proofs.Method.Function

/-! # Methods that call back

`filter` and `map` call back for the elements that their array had when they were called, one after
another, whatever the callback does to this or any other array meanwhile. The first error of the
callback is theirs. If there is none, they answer with an array that is new, and that is all that
they change themselves.
-/

namespace ScriptCore

/-! ## Calls in a row -/

namespace Invocation

variable (invoke : Invocation) (callback : FunctionRef)

/-- Calls with these arguments are answered one after another, each on the machine that the one
before left. -/
inductive Answers : List (List Value) → Machine → List Value → Machine → Prop
  | nil {machine} : Answers [] machine [] machine
  | cons {arguments later machine answer between answers after}
      (first : invoke callback arguments false machine = some (.ok answer, between))
      (others : Answers later between answers after) :
      Answers (arguments :: later) machine (answer :: answers) after

/-- The calls before one are answered, and it is made on the machine that they leave. -/
inductive Reaches : List (List Value) → Machine → List Value → Machine → Prop
  | here {arguments later machine} : Reaches (arguments :: later) machine arguments machine
  | later {first later machine answer between arguments before}
      (answers : invoke callback first false machine = some (.ok answer, between))
      (reaches : Reaches later between arguments before) :
      Reaches (first :: later) machine arguments before

/-- Makes one call after another and collects the answers. -/
def callEach (calls : List (List Value)) : Execution (List Value) :=
  calls.mapM fun arguments => invoke callback arguments false

variable {invoke callback} {calls later : List (List Value)} {arguments answers : List Value}
  {machine after : Machine}

theorem Answers.becomes (calls_evolve : invoke.Evolves)
    (answered : invoke.Answers callback calls machine answers after) :
    machine.realm.heap.Becomes after.realm.heap := by
  induction answered with
  | nil => exact .refl _
  | cons first _ ih => exact (calls_evolve _ _ _ _ _ _ first).trans ih

theorem callEach_cons : invoke.callEach callback (arguments :: later) = do
    let answer ← invoke callback arguments false
    let others ← invoke.callEach callback later
    return answer :: others := List.mapM_cons

theorem callEach_answers_iff :
    invoke.callEach callback calls machine = some (.ok answers, after) ↔
      invoke.Answers callback calls machine answers after := by
  induction calls generalizing machine answers with
  | nil =>
    constructor <;> rintro ⟨⟩
    · exact .nil
    · rfl
  | cons arguments later ih =>
    rw [callEach_cons, Execution.bind_answers_iff]
    constructor
    · rintro ⟨answer, between, first, goesOn⟩
      obtain ⟨others, last, collects, returns⟩ := Execution.bind_answers_iff.mp goesOn
      cases returns
      exact .cons first (ih.mp collects)
    · rintro (_ | ⟨first, others⟩)
      exact ⟨_, _, first, Execution.bind_answers_iff.mpr ⟨_, _, ih.mpr others, rfl⟩⟩

/-- Calls in a row stop at the first that does not answer, and as it does. -/
theorem callEach_stopped_iff (stop : Option (ScriptError × Machine)) :
    invoke.callEach callback calls machine = Execution.stopped stop ↔
      ∃ arguments before, invoke.Reaches callback calls machine arguments before ∧
        invoke callback arguments false before = Execution.stopped stop := by
  induction calls generalizing machine with
  | nil =>
    constructor
    · intro stops
      cases stop <;> cases stops
    · rintro ⟨_, _, ⟨⟩, _⟩
  | cons first later ih =>
    have goesOn : ∀ answer between, (do
        let others ← invoke.callEach callback later
        return answer :: others : Execution (List Value)) between = Execution.stopped stop ↔
          invoke.callEach callback later between = Execution.stopped stop :=
      fun answer between => Execution.bind_stopped_iff_of_answers stop fun _ _ => ⟨_, _, rfl⟩
    rw [callEach_cons, Execution.bind_stopped_iff]
    simp only [goesOn, ih]
    constructor
    · rintro (stops | ⟨answer, between, answers, arguments, before, reaches, stops⟩)
      · exact ⟨first, machine, .here, stops⟩
      · exact ⟨arguments, before, .later answers reaches, stops⟩
    · rintro ⟨arguments, before, _ | ⟨answers, reaches⟩, stops⟩
      · exact .inl stops
      · exact .inr ⟨_, _, answers, arguments, before, reaches, stops⟩

end Invocation

/-! ## Traversals -/

namespace Method

variable {invoke : Invocation} {callback : FunctionRef} {self : ArrayRef}

/-- What a callback is called with for elements of an array: each with its index and the array. -/
def callbackArguments (self : ArrayRef) (elements : List Value) : List (List Value) :=
  elements.mapIdx fun index element => [element, .number (.ofNat index), .array self]

/-- The elements for which the answer is truthy. -/
def accepted (elements answers : List Value) : List Value :=
  ((elements.zip answers).filter fun pair => pair.2.isTruthy).map Prod.fst

/-- What a method of arrays makes its result of. -/
def collected (method : Method) (elements answers : List Value) : List Value :=
  if method = .arrayFilter then accepted elements answers else answers

theorem accepted_cons (element answer : Value) (elements answers : List Value) :
    accepted (element :: elements) (answer :: answers) =
      if answer.isTruthy then element :: accepted elements answers
      else accepted elements answers := by
  unfold accepted
  rw [List.zip_cons_cons, List.filter_cons]
  split <;> rfl

theorem mapFrom_eq (start : Nat) (elements : List Value) :
    mapFrom invoke callback self start elements =
      invoke.callEach callback (elements.mapIdx fun index element =>
        [element, .number (.ofNat (start + index)), .array self]) := by
  induction elements generalizing start with
  | nil => rfl
  | cons element rest ih =>
    rw [mapFrom, ih, List.mapIdx_cons, Invocation.callEach_cons]
    simp only [Nat.add_assoc, Nat.add_comm 1]
    rfl

theorem mapFrom_zero (elements : List Value) :
    mapFrom invoke callback self 0 elements =
      invoke.callEach callback (callbackArguments self elements) := by
  rw [mapFrom_eq]
  simp only [Nat.zero_add]
  rfl

/-- Filtering calls back just as mapping does. -/
theorem filterFrom_eq (start : Nat) (elements : List Value) :
    filterFrom invoke callback self start elements =
      accepted elements <$> mapFrom invoke callback self start elements := by
  induction elements generalizing start with
  | nil => rfl
  | cons element rest ih =>
    rw [filterFrom, mapFrom, ih]
    simp only [map_bind, bind_map_left, map_pure]
    refine bind_congr fun answer => bind_congr fun answers => ?_
    rw [accepted_cons]

/-- Calls back for the elements of the array, and then makes the result of the answers. -/
theorem onArray_eq (method : Method) (range : Option SourceRange) (machine : Machine) :
    method.onArray invoke self (.function callback) range machine =
      (do
        let elements := (machine.realm.heap.elements self).toList
        let answers ← invoke.callEach callback (callbackArguments self elements)
        .array <$> Execution.onHeap (newArray (method.collected elements answers).toArray)
        : Execution Value) machine := by
  have narrowed : (Value.function callback).narrowFunction range = .ok callback := rfl
  rw [onArray, Execution.bind_apply, Execution.ofExcept_apply, narrowed]
  dsimp only
  rw [Execution.bind_apply, Execution.heap_apply]
  dsimp only
  unfold collected
  by_cases filters : method = .arrayFilter
  · simp only [if_pos filters, filterFrom_eq, mapFrom_zero, bind_map_left]
  · simp only [if_neg filters, mapFrom_zero]

end Method

/-! ## Calls of `filter` and `map` -/

/-- An array of the elements is new in the later machine, which is otherwise what the earlier one
was. -/
structure Machine.AddsArray (machine : Machine) (elements : List Value) (ref : ArrayRef)
    (after : Machine) : Prop where
  isNew : ¬ (Container.array ref).IsIn machine.realm.heap
  elements_eq : after.realm.heap.elements ref = elements.toArray
  kept : machine.realm.heap.Extends after.realm.heap
  records_eq : after.realm.heap.records = machine.realm.heap.records
  functions_eq : after.realm.heap.functions = machine.realm.heap.functions
  context_eq : after.realm.context = machine.realm.context
  registers_eq : after.registers = machine.registers

theorem Machine.newArray_adds (machine : Machine) (elements : List Value) :
    ∃ ref after, Execution.onHeap (newArray elements.toArray) machine = some (.ok ref, after) ∧
      machine.AddsArray elements ref after := by
  obtain ⟨heap, allocates, extended, -, holds⟩ := newArray_apply elements.toArray machine.realm.heap
  refine ⟨_, _, rfl, Nat.lt_irrefl _, ?_, ?_, rfl, rfl, rfl, rfl⟩
  · cases allocates
    exact holds _ (.refl _)
  · cases allocates
    exact extended

namespace Method

variable {invoke : Invocation} {callback : FunctionRef} {self : ArrayRef} {machine : Machine}

/-- The outcome is what calls of the callback make it, for the elements that the array has at first:
a new array if all calls are answered, and else what the first call that is not comes to. -/
structure IteratesSnapshot (method : Method) (invoke : Invocation) (callback : FunctionRef)
    (array : ArrayRef) (machine : Machine)
    (outcome : Option (Except ScriptError Value × Machine)) : Prop where
  ends : let calls := callbackArguments array (machine.realm.heap.elements array).toList
    (∃ answers last, invoke.Answers callback calls machine answers last) ∨
      ∃ arguments before stop, invoke.Reaches callback calls machine arguments before ∧
        invoke callback arguments false before = Execution.stopped stop
  answered : let elements := (machine.realm.heap.elements array).toList
    ∀ answers last,
      invoke.Answers callback (callbackArguments array elements) machine answers last →
        ∃ ref after, outcome = some (.ok (.array ref), after) ∧
          last.AddsArray (method.collected elements answers) ref after ∧
          ¬ (Container.array ref).IsIn machine.realm.heap
  stopped : let calls := callbackArguments array (machine.realm.heap.elements array).toList
    ∀ arguments before stop, invoke.Reaches callback calls machine arguments before →
      invoke callback arguments false before = Execution.stopped stop →
        outcome = Execution.stopped stop

theorem onArray_iteratesSnapshot (calls_evolve : invoke.Evolves) (method : Method)
    (range : Option SourceRange) :
    method.IteratesSnapshot invoke callback self machine
      (method.onArray invoke self (.function callback) range machine) where
  ends := by
    intro calls
    rcases Execution.answers_or_stops (invoke.callEach callback calls machine) with
      ⟨answers, last, collects⟩ | ⟨stop, stops⟩
    · exact .inl ⟨answers, last, Invocation.callEach_answers_iff.mp collects⟩
    · obtain ⟨arguments, before, reaches, stops⟩ := (Invocation.callEach_stopped_iff stop).mp stops
      exact .inr ⟨arguments, before, stop, reaches, stops⟩
  answered := by
    intro elements answers last answered
    obtain ⟨ref, after, allocates, adds⟩ :=
      last.newArray_adds (method.collected elements answers)
    refine ⟨ref, after, ?_, adds, fun present => adds.isNew ?_⟩
    · rw [onArray_eq]
      refine Execution.bind_answers_iff.mpr
        ⟨answers, last, Invocation.callEach_answers_iff.mpr answered, ?_⟩
      rw [Execution.map_apply, allocates]
      rfl
    · exact (answered.becomes calls_evolve).evolves.isIn present
  stopped := by
    intro calls arguments before stop reaches stops
    rw [onArray_eq]
    exact (Execution.bind_stopped_iff stop).mpr
      (.inl ((Invocation.callEach_stopped_iff stop).mpr ⟨arguments, before, reaches, stops⟩))

/-- A call with a function runs the method on the array. -/
theorem run_function {method : Method} (iterates : method.receiverKind = .array)
    {arguments : List Value} (given : arguments.headD .undefined = .function callback)
    (range : Option SourceRange) :
    method.run invoke (.array self) arguments false range machine =
      method.onArray invoke self (.function callback) range machine := by
  have fits : ¬ (Value.array self).kind ≠ method.receiverKind := fun differs =>
    differs iterates.symm
  unfold run
  dsimp only
  rw [if_neg Bool.false_ne_true, if_neg fits, given]

end Method

/-- `filter` and `map` call back once for each element that the array has when they are called, in
order and with its index and the array, whatever the calls change. They stop with the first call
that fails, as it does; otherwise they answer with a new array, of the accepted elements or of the
answers, and change nothing else themselves. -/
theorem Method.arrays_iterate_snapshot {method : Method} (iterates : method.receiverKind = .array)
    (callback : FunctionRef) (self : ArrayRef) (others : List Value) (range : Option SourceRange)
    (machine : Machine) :
    (∀ invoke : Invocation, invoke.Evolves →
      method.IteratesSnapshot invoke callback self machine
        (method.run invoke (.array self) (.function callback :: others) false range machine)) ∧
      ∀ depth ref isArrow,
        machine.realm.heap.functionCell ref = ⟨.method method range, .array self, isArrow⟩ →
          method.IteratesSnapshot (invoke depth) callback self machine
            (invoke (depth + 1) ref (.function callback :: others) false machine) := by
  have runs : ∀ invoke : Invocation, invoke.Evolves →
      method.IteratesSnapshot invoke callback self machine
        (method.run invoke (.array self) (.function callback :: others) false range machine) := by
    intro invoke calls_evolve
    rw [run_function iterates rfl]
    exact onArray_iteratesSnapshot calls_evolve method range
  refine ⟨runs, fun depth ref isArrow cell => ?_⟩
  have code : (machine.realm.heap.functionCell ref).code = .method method range := by rw [cell]
  rw [Machine.invoke_method code, cell]
  exact runs _ (invoke_evolves depth)

/-- `filter` with a callback that adds each element to the array once more and answers with it. The
array doubles, and what is kept are the elements that it had, but for the zero. -/
theorem Method.arrays_iterate_snapshot_growing :
    let doubling : FunctionCell := ⟨.program [
      .binary .push (.nullary (.argument 2)) (.nullary (.argument 0)), .nullary (.argument 0)],
      .undefined, false⟩
    let filtering : FunctionCell := ⟨.method .arrayFilter none, .array ⟨0⟩, false⟩
    let zero := Value.number .zero
    let a := Value.string "a"
    let having (elements : Array Value) : Machine :=
      ⟨⟨⟨#[elements], #[], #[doubling, filtering]⟩, .ofGlobal ⟨0⟩⟩, .empty⟩
    let machine := having #[zero, a]
    machine.realm.heap.functionCell ⟨1⟩ = filtering ∧
      ∃ ref after, invoke 2 ⟨1⟩ [.function ⟨0⟩] false machine = some (.ok (.array ref), after) ∧
        after.realm.heap.elements ref = #[a] ∧
        after.realm.heap.elements ⟨0⟩ = #[zero, a, zero, a] := by
  intro doubling filtering zero a having machine
  have first : invoke 1 ⟨0⟩ [zero, .number (.ofNat 0), .array ⟨0⟩] false machine =
      some (.ok zero, having #[zero, a, zero]) := rfl
  have second : invoke 1 ⟨0⟩ [a, .number (.ofNat 1), .array ⟨0⟩] false
      (having #[zero, a, zero]) = some (.ok a, having #[zero, a, zero, a]) := rfl
  have answered : (invoke 1).Answers ⟨0⟩ (callbackArguments ⟨0⟩ [zero, a]) machine [zero, a]
      (having #[zero, a, zero, a]) := .cons first (.cons second .nil)
  have snapshot := (arrays_iterate_snapshot rfl ⟨0⟩ ⟨0⟩ [] none machine).2 1 ⟨1⟩ false rfl
  obtain ⟨ref, after, answers, adds, -⟩ := snapshot.answered _ _ answered
  refine ⟨rfl, ref, after, answers, adds.elements_eq.trans ?_, ?_⟩
  · decide
  · exact adds.kept.elements_eq (by decide)

end ScriptCore
