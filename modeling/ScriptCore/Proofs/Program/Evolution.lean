import ScriptCore.Program.Run
import ScriptCore.Proofs.Execution
import ScriptCore.Proofs.Record.Global
import ScriptCore.Proofs.Scope.Operations

/-! # Programs evolve heaps

Whatever a host program does, on its own or through the functions that it calls, the heap that it
leaves has evolved from the one that it was given: no object is taken away, a record keeps the hooks
that it was built with, and a function its code and its receiver. A global record is therefore one
in all states of a machine after it was built.
-/

namespace ScriptCore

/-- Whether or not it fails, the action leaves a heap that the one before has become. -/
def Action.Evolves {σ α : Type} (heapOf : σ → Heap) (action : Action σ α) : Prop :=
  ∀ state, (heapOf state).Becomes (heapOf (action state).2)

namespace Action.Evolves

variable {σ α β : Type} {heapOf : σ → Heap}

theorem of_state {action : Action σ α} (still : ∀ state, (action state).2 = state) :
    Evolves heapOf action := by
  intro state
  rw [still]
  exact .refl _

theorem pure (a : α) : Evolves heapOf (pure a : Action σ α) := of_state fun _ => rfl

theorem fail (cause : Cause) (range : Option SourceRange) :
    Evolves heapOf (Action.fail cause range : Action σ α) := of_state fun _ => rfl

theorem ofExcept (result : Except ScriptError α) :
    Evolves heapOf (ofExcept result : Action σ α) :=
  of_state fun state => by rw [ofExcept_apply]

theorem bind {action : Action σ α} {next : α → Action σ β} (first : Evolves heapOf action)
    (second : ∀ a, Evolves heapOf (next a)) : Evolves heapOf (action >>= next) := by
  intro state
  have before := first state
  rw [bind_apply]
  rcases outcome : action state with ⟨_ | a, after⟩
  · rw [outcome] at before
    exact before
  · rw [outcome] at before
    exact before.trans (second a after)

theorem map {action : Action σ α} (evolves : Evolves heapOf action) (change : α → β) :
    Evolves heapOf (change <$> action) := by
  intro state
  rw [map_apply]
  exact evolves state

theorem of_get {next : σ → Action σ β} (second : ∀ state, Evolves heapOf (next state)) :
    Evolves heapOf (get >>= next) := bind (of_state fun _ => rfl) second

end Action.Evolves

/-! ## Actions of the heap -/

/-- The action leaves a heap that the one before has become. -/
abbrev EvolvesHeap {α : Type} (action : Action Heap α) : Prop := action.Evolves id

theorem newArray_evolves (elements : Array Value) : EvolvesHeap (newArray elements) :=
  fun _ => .of_change (.newArray elements) rfl

theorem newRecord_evolves (entries : Entries Value) (hooks : Option Hooks) :
    EvolvesHeap (newRecord entries hooks) :=
  fun _ => .of_change (.newRecord ⟨entries, hooks⟩) rfl

theorem newFunction_evolves (cell : FunctionCell) : EvolvesHeap (newFunction cell) :=
  fun heap => .of_added heap #[cell]

theorem KeepsContainers.evolves {α : Type} {action : Action Heap α}
    (keeps : KeepsContainers action) : EvolvesHeap action := by
  intro heap
  obtain ⟨result, added, runs⟩ := keeps heap
  rw [runs]
  exact .of_added heap added

theorem Value.write_evolves (v property value : Value) (range : Option SourceRange) :
    EvolvesHeap (v.write property value range) := by
  intro heap
  rcases v.write_cases property value range heap with ⟨error, fails⟩ | ⟨after, succeeds, effect⟩
  · rw [fails]
    exact .refl heap
  · rw [succeeds]
    cases effect with
    | element ref index value => exact .modifyElements heap ref _
    | entry ref key value range accepted =>
      exact .modifyEntries heap ref fun entries => (entries.insertAll _).insert key.text value

theorem newGlobalRecord_evolves (entries : Entries Value) : EvolvesHeap (newGlobalRecord entries) :=
  newRecord_evolves _ _

theorem nestValue_evolves (inRecords : Bool) (depth : Nat) (v : Value) :
    EvolvesHeap (nestValue inRecords depth v) := by
  induction depth with
  | zero => exact .pure v
  | succ depth ih =>
    refine .bind ih fun inner => ?_
    split
    · exact .map (newRecord_evolves _ _) _
    · exact .map (newArray_evolves _) _

namespace PlainData

mutual

theorem create_evolves : ∀ data : PlainData, EvolvesHeap data.create
  | .primitive _ => .pure _
  | .array items => .bind (createAll_evolves items) fun _ => .map (newArray_evolves _) _
  | .object members =>
    .bind (createMembers_evolves members) fun _ => .map (newRecord_evolves _ _) _

theorem createAll_evolves : ∀ items : List PlainData, EvolvesHeap (createAll items)
  | [] => .pure _
  | item :: rest =>
    .bind (create_evolves item) fun _ => .bind (createAll_evolves rest) fun _ => .pure _

theorem createMembers_evolves :
    ∀ members : List (String × PlainData), EvolvesHeap (createMembers members)
  | [] => .pure _
  | (_, item) :: rest =>
    .bind (create_evolves item) fun _ => .bind (createMembers_evolves rest) fun _ => .pure _

end

end PlainData

theorem valueOfJson_evolves (text : String) : EvolvesHeap (valueOfJson text) := by
  unfold valueOfJson
  split
  · exact PlainData.create_evolves _
  · exact .pure _

/-! ## Actions of a realm -/

/-- The action leaves a realm whose heap the one before has become. -/
abbrev EvolvesRealm {α : Type} (action : Action Realm α) : Prop := action.Evolves Realm.heap

namespace Realm

theorem onHeap_evolves {α : Type} {action : Action Heap α} (evolves : EvolvesHeap action) :
    EvolvesRealm (onHeap action) := fun realm => evolves realm.heap

/-- Whatever becomes of the context, the heap stays as it is. -/
theorem modifyContext_evolves (change : Context → Context) :
    EvolvesRealm (modify fun realm => { realm with context := change realm.context }) :=
  fun realm => .refl realm.heap

theorem readName_evolves (name : String) (range : Option SourceRange) :
    EvolvesRealm (readName name range) := by
  refine .of_get fun realm => ?_
  split
  · exact .pure _
  · exact .of_get fun realm => onHeap_evolves
      (Value.read_keepsContainers (.record realm.context.globalRecord) _ _).evolves

theorem assignName_evolves (name : String) (value : Value) (range : Option SourceRange) :
    EvolvesRealm (assignName name value range) := by
  refine .of_get fun realm => ?_
  split
  · split
    · exact .fail _ _
    · exact modifyContext_evolves (·.assignBinding name value)
  · exact .of_get fun realm => onHeap_evolves
      (Value.write_evolves (.record realm.context.globalRecord) _ _ _)

theorem declareName_evolves (name : String) (value : Value) (kind : BindingKind)
    (range : Option SourceRange) : EvolvesRealm (declareName name value kind range) := by
  refine .of_get fun realm => ?_
  dsimp only
  split
  · exact .fail _ _
  · exact modifyContext_evolves fun _ => _

theorem leaveScope_evolves : EvolvesRealm leaveScope := by
  refine .of_get fun realm => ?_
  split
  · exact .fail _ _
  · exact modifyContext_evolves fun _ => _

end Realm

/-! ## Executions -/

namespace Execution

variable {α β : Type}

/-- Whether it succeeds or fails, an execution that has an outcome leaves a machine whose heap the
one before has become. -/
def Evolves (execution : Execution α) : Prop :=
  ∀ machine result after, execution machine = some (result, after) →
    machine.realm.heap.Becomes after.realm.heap

namespace Evolves

theorem of_heap {execution : Execution α}
    (still : ∀ machine, ∃ result after, execution machine = some (result, after) ∧
      after.realm.heap = machine.realm.heap) : Evolves execution := by
  intro machine result after runs
  obtain ⟨_, _, outcome, same⟩ := still machine
  cases outcome.symm.trans runs
  rw [same]
  exact .refl _

theorem pure (a : α) : Evolves (pure a : Execution α) := of_heap fun _ => ⟨_, _, rfl, rfl⟩

theorem fail (cause : Cause) (range : Option SourceRange) :
    Evolves (Execution.fail cause range : Execution α) := of_heap fun _ => ⟨_, _, rfl, rfl⟩

theorem get : Evolves (get : Execution Machine) := of_heap fun _ => ⟨_, _, rfl, rfl⟩

theorem modifyRegisters (change : Machine → Entries Value) :
    Evolves (modify fun machine => { machine with registers := change machine }) :=
  of_heap fun _ => ⟨_, _, rfl, rfl⟩

theorem ofExcept (result : Except ScriptError α) :
    Evolves (ofExcept result : Execution α) :=
  of_heap fun machine => ⟨result, machine, by cases result <;> rfl, rfl⟩

theorem exhausted : Evolves (exhausted : Execution α) :=
  fun _ _ _ runs => absurd runs.symm (Option.some_ne_none _)

theorem bind {execution : Execution α} {next : α → Execution β} (first : Evolves execution)
    (second : ∀ a, Evolves (next a)) : Evolves (execution >>= next) := by
  intro machine result after runs
  rw [bind_apply] at runs
  split at runs
  · contradiction
  · next a middle earlier => exact (first _ _ _ earlier).trans (second a _ _ _ runs)
  · next error middle earlier =>
    cases runs
    exact first _ _ _ earlier

theorem map {execution : Execution α} (evolves : Evolves execution) (change : α → β) :
    Evolves (change <$> execution) := by
  rw [map_eq_pure_bind]
  exact bind evolves fun _ => pure _

theorem onRealm {action : Action Realm α} (evolves : EvolvesRealm action) :
    Evolves (onRealm action) := by
  rintro ⟨realm, registers⟩ result after runs
  cases runs
  exact evolves realm

theorem onHeap {action : Action Heap α} (evolves : EvolvesHeap action) :
    Evolves (onHeap action) := onRealm (Realm.onHeap_evolves evolves)

theorem inScope {body : Execution α} (evolves : Evolves body) : Evolves (inScope body) := by
  rintro ⟨realm, registers⟩ result after runs
  obtain ⟨⟨answer, inside⟩, within, left⟩ := Option.bind_eq_some_iff.mp runs
  have grown : realm.heap.Becomes inside.realm.heap := evolves _ _ _ within
  obtain ⟨-, rfl⟩ := Prod.mk.inj (Option.some.inj left)
  exact grown

theorem heap : Evolves heap := bind get fun _ => pure _

theorem valueOfHeap {action : Action Heap Value} (evolves : EvolvesHeap action) :
    Evolves (valueOfHeap action) := map (onHeap evolves) _

theorem valueOfRealm {action : Action Realm Value} (evolves : EvolvesRealm action) :
    Evolves (valueOfRealm action) := map (onRealm evolves) _

theorem effect {action : Action Realm Unit} (evolves : EvolvesRealm action) :
    Evolves (effect action) := bind (onRealm evolves) fun _ => pure _

theorem elements (v : Value) : Evolves (elements v) :=
  bind heap fun _ => bind (ofExcept _) fun _ => pure _

theorem entries (v : Value) : Evolves (entries v) :=
  bind heap fun _ => bind (ofExcept _) fun _ => pure _

theorem functionCell (v : Value) : Evolves (functionCell v) :=
  bind heap fun _ => bind (ofExcept _) fun _ => pure _

end Evolves

end Execution

/-! ## Operations -/

theorem Nullary.run_evolves (operation : Nullary) (call : Option Call) :
    (operation.run call).Evolves := by
  cases operation with
  | plain data => exact .valueOfHeap data.create_evolves
  | register => exact .bind .get fun _ => .pure _
  | arguments => exact .bind (.onHeap (newArray_evolves _)) fun _ => .pure _
  | numberToFixed => exact .bind (.ofExcept _) fun _ => .pure _
  | raise cause range => exact .fail cause range
  | emptyGlobalRecord => exact .valueOfHeap (.map (newGlobalRecord_evolves _) _)
  | idleHookedRecord => exact .valueOfHeap (.map (newRecord_evolves _ _) _)
  | valueOfJson text => exact .valueOfHeap (valueOfJson_evolves text)
  | readName name range => exact .valueOfRealm (Realm.readName_evolves name range)
  | enterScope => exact .effect (Realm.modifyContext_evolves (·.enter))
  | leaveScope => exact .effect Realm.leaveScope_evolves
  | scopeDepth | globalThis | currentThis =>
    exact .bind (.bind .get fun _ => .pure _) fun _ => .pure _
  | primitive | receiver | argument | isConstructing | numberText | numberTextInRadix
  | numberOfText | arrayLimit | plainToJson | queryGlobals => exact .pure _

theorem Unary.run_evolves (operation : Unary) (v : Value) : (operation.run v).Evolves := by
  cases operation with
  | asText | asNumber | asDefault | inspect | toPrimitive => exact .bind .heap fun _ => .pure _
  | narrow | narrowNumberOrUndefined | narrowNull | narrowKey =>
    exact .bind (.ofExcept _) fun _ => .pure _
  | receiverOf => exact .bind (.functionCell v) fun _ => .pure _
  | arraySize | arrayIsEmpty | arrayAt => exact .bind (.elements v) fun _ => .pure _
  | copyArray =>
    exact .bind (.elements v) fun _ => .valueOfHeap (.map (newArray_evolves _) _)
  | recordKeys =>
    exact .bind (.entries v) fun _ => .valueOfHeap (.map (newArray_evolves _) _)
  | recordSize | recordIsEmpty | ownEntry => exact .bind (.entries v) fun _ => .pure _
  | copyRecord =>
    exact .bind (.ofExcept _) fun ref =>
      .valueOfHeap (.map (.of_get fun _ => newRecord_evolves _ _) _)
  | globalRecordOf =>
    exact .bind (.entries v) fun _ => .valueOfHeap (.map (newGlobalRecord_evolves _) _)
  | toPlain | toJson => exact .bind .heap fun _ => .bind (.ofExcept _) fun _ => .pure _
  | newContext =>
    exact .bind (.ofExcept _) fun ref =>
      .effect (Realm.modifyContext_evolves fun _ => .ofGlobal ref)
  | assignName name range => exact .effect (Realm.assignName_evolves name v range)
  | declareName name kind range => exact .effect (Realm.declareName_evolves name v kind range)
  | setCurrentThis => exact .valueOfRealm fun realm => .refl realm.heap
  | nest depth inRecords => exact .valueOfHeap (nestValue_evolves inRecords depth v)
  | identity | kindName | isNullish | hasPayload | isTruthy | primitiveNumber | primitiveText
  | propertyKey => exact .pure _

theorem Binary.run_evolves (operation : Binary) (x y : Value) :
    (operation.run x y).Evolves := by
  cases operation with
  | readMember range => exact .valueOfHeap (x.read_keepsContainers y range).evolves
  | looseEquals | compare => exact .bind .heap fun _ => .pure _
  | bind =>
    exact .bind (.functionCell x) fun _ => .valueOfHeap (.map (newFunction_evolves _) _)
  | push =>
    exact .bind (.ofExcept _) fun ref =>
      .bind (.onHeap fun heap => .modifyElements heap ref _) fun _ => .pure _
  | insert key =>
    exact .bind (.ofExcept _) fun ref =>
      .bind (.onHeap fun heap => .modifyEntries heap ref (·.insert key y)) fun _ => .pure _
  | strictEquals | primitiveLooseEquals | primitiveLess | primitiveAdd => exact .pure _

/-! ## Calls and terms -/

/-- Every call leaves a heap that has evolved. -/
def Invocation.Evolves (invoke : Invocation) : Prop :=
  ∀ ref arguments isConstructing, (invoke ref arguments isConstructing).Evolves

namespace Method

variable {invoke : Invocation} (calls : invoke.Evolves)
include calls

theorem filterFrom_evolves (callback : FunctionRef) (self : ArrayRef) (index : Nat)
    (elements : List Value) : (filterFrom invoke callback self index elements).Evolves := by
  induction elements generalizing index with
  | nil => exact .pure _
  | cons element rest ih =>
    exact .bind (calls _ _ _) fun _ => .bind (ih (index + 1)) fun _ => .pure _

theorem mapFrom_evolves (callback : FunctionRef) (self : ArrayRef) (index : Nat)
    (elements : List Value) : (mapFrom invoke callback self index elements).Evolves := by
  induction elements generalizing index with
  | nil => exact .pure _
  | cons element rest ih =>
    exact .bind (calls _ _ _) fun _ => .bind (ih (index + 1)) fun _ => .pure _

theorem run_evolves (method : Method) (receiver : Value) (arguments : List Value)
    (isConstructing : Bool) (range : Option SourceRange) :
    (method.run invoke receiver arguments isConstructing range).Evolves := by
  unfold run
  dsimp only
  split
  · exact .fail _ _
  · split
    · exact .fail _ _
    · split
      · refine .bind (.ofExcept _) fun callback => .bind .heap fun heap => ?_
        dsimp only
        split
        · exact .bind (filterFrom_evolves calls _ _ _ _) fun _ =>
            .map (.onHeap (newArray_evolves _)) _
        · exact .bind (mapFrom_evolves calls _ _ _ _) fun _ =>
            .map (.onHeap (newArray_evolves _)) _
      · exact .ofExcept _

end Method

namespace Term

variable {invoke : Invocation}

mutual

theorem eval_evolves (calls : invoke.Evolves) (call : Option Call) :
    ∀ term : Term, (term.eval invoke call).Evolves
  | nullary operation => by
    rw [eval]
    exact operation.run_evolves call
  | unary operation operand => by
    rw [eval]
    exact .bind (eval_evolves calls call operand) fun _ => operation.run_evolves _
  | binary operation left right => by
    rw [eval]
    exact .bind (eval_evolves calls call left) fun _ =>
      .bind (eval_evolves calls call right) fun _ => operation.run_evolves _ _
  | writeMember range target key value => by
    rw [eval]
    exact .bind (eval_evolves calls call target) fun _ =>
      .bind (eval_evolves calls call key) fun _ =>
        .bind (eval_evolves calls call value) fun _ =>
          .bind (.onHeap (Value.write_evolves _ _ _ range)) fun _ => .pure _
  | array elements => by
    rw [eval]
    exact .bind (evalAll_evolves calls call elements) fun _ =>
      .valueOfHeap (.map (newArray_evolves _) _)
  | record keys values => by
    rw [eval]
    exact .bind (evalAll_evolves calls call values) fun _ =>
      .valueOfHeap (.map (newRecord_evolves _ _) _)
  | hookedRecord table operands => by
    rw [eval]
    exact .bind (evalAll_evolves calls call operands) fun _ =>
      .valueOfHeap (.map (newRecord_evolves _ _) _)
  | closure isArrow receiver body => by
    rw [eval]
    exact .bind (eval_evolves calls call receiver) fun _ =>
      .valueOfHeap (.map (newFunction_evolves _) _)
  | .call callee arguments isConstructing => by
    rw [eval]
    exact .bind (eval_evolves calls call callee) fun _ =>
      .bind (evalAll_evolves calls call arguments) fun _ =>
        .bind (.ofExcept _) fun _ => .bind (calls _ _ _) fun _ => .pure _
  | branch condition whenTrue whenFalse => by
    rw [eval]
    refine .bind (eval_evolves calls call condition) fun _ => ?_
    split
    · exact .bind (evalBody_evolves calls call whenTrue) fun _ => .pure _
    · exact .bind (evalBody_evolves calls call whenFalse) fun _ => .pure _
  | inScope body => by
    rw [eval]
    exact .bind (.inScope (evalBody_evolves calls call body)) fun _ => .pure _
  | save name term => by
    rw [eval]
    refine .bind (eval_evolves calls call term) fun answer => ?_
    dsimp only
    split
    · exact .bind (.modifyRegisters _) fun _ => .pure _
    · exact .pure answer

theorem evalAll_evolves (calls : invoke.Evolves) (call : Option Call) :
    ∀ terms : List Term, (evalAll invoke call terms).Evolves
  | [] => by
    rw [evalAll]
    exact .pure _
  | term :: rest => by
    rw [evalAll]
    exact .bind (eval_evolves calls call term) fun _ =>
      .bind (evalAll_evolves calls call rest) fun _ => .pure _

theorem evalBody_evolves (calls : invoke.Evolves) (call : Option Call) :
    ∀ body : List Term, (evalBody invoke call body).Evolves
  | [] => by
    rw [evalBody]
    exact .pure _
  | [term] => by
    rw [evalBody]
    exact .bind (eval_evolves calls call term) fun _ => .pure _
  | term :: next :: rest => by
    rw [evalBody]
    exact .bind (eval_evolves calls call term) fun _ => evalBody_evolves calls call (next :: rest)
    exact List.cons_ne_nil _ _

end

end Term

theorem invoke_evolves (depth : Nat) : (invoke depth).Evolves := by
  induction depth with
  | zero => exact fun _ _ _ => .exhausted
  | succ depth ih =>
    intro ref arguments isConstructing
    refine .bind .heap fun heap => ?_
    dsimp only
    split
    · exact Method.run_evolves ih _ _ _ _ _
    · exact Term.evalBody_evolves ih _ _

/-! ## Steps of a machine -/

namespace Machine

variable {machine later : Machine}

/-- One machine becomes another by steps of host programs, which may fail. -/
def Becomes : Machine → Machine → Prop :=
  Relation.ReflTransGen fun machine after =>
    ∃ term result, machine.step term = some (result, after)

theorem step_evolves {term : Term} {result : Except ScriptError Answer}
    (steps : machine.step term = some (result, later)) :
    machine.realm.heap.Evolves later.realm.heap :=
  (Term.eval_evolves (invoke_evolves callDepthLimit) none term machine result later steps).evolves

theorem Becomes.evolves (becomes : machine.Becomes later) :
    machine.realm.heap.Evolves later.realm.heap := by
  induction becomes with
  | refl => exact .refl
  | tail _ last ih =>
    obtain ⟨term, result, steps⟩ := last
    exact ih.trans (step_evolves steps)

/-- A global record stays one whatever programs do, as long as the context is over it. -/
theorem Becomes.hasGlobalRecord (becomes : machine.Becomes later)
    (global : machine.realm.HasGlobalRecord)
    (same : later.realm.context.globalRecord = machine.realm.context.globalRecord) :
    later.realm.HasGlobalRecord := by
  obtain ⟨base, heap, seeded, built, evolves⟩ := global
  rw [← same] at built
  exact ⟨base, heap, seeded, built, evolves.trans becomes.evolves⟩

/-- A machine that comes of the initial one and is over the same record is over a global record. -/
theorem Becomes.hasGlobalRecord_of_initial (becomes : initial.Becomes later)
    (same : later.realm.context.globalRecord = initial.realm.context.globalRecord) :
    later.realm.HasGlobalRecord := by
  have start : initial.realm.HasGlobalRecord := ⟨.empty, .empty, _, rfl, .refl⟩
  exact becomes.hasGlobalRecord start same

end Machine

end ScriptCore
