import ScriptCore.Program.Run
import ScriptCore.Proofs.Execution
import ScriptCore.Proofs.PlainData.Projection

/-! # Where a projection fails

A projection fails for one reason, a function, and in one way. Below a value without cycles it comes
to every place that a path leads to, so it fails exactly if one of them is a function, wherever that
stands. Otherwise the data has the shape of the value: primitives as they are, arrays element by
element and records entry by entry, as they are stored and not as hooks would answer.
-/

namespace ScriptCore

section Traversal

variable {α β ε : Type} {f : α → Except ε β} {list : List α}

theorem mapM_eq_ok_iff {results : List β} : list.mapM f = .ok results ↔
    list.length = results.length ∧ ∀ a b, (a, b) ∈ list.zip results → f a = .ok b := by
  rw [← List.forall₂_iff_zip]
  exact ⟨forall₂_of_mapM_eq_ok, mapM_eq_ok_of_forall₂⟩

/-- A traversal fails as it does at one of the elements. -/
theorem exists_mem_of_mapM_eq_error {error : ε} (fails : list.mapM f = .error error) :
    ∃ a ∈ list, f a = .error error := by
  induction list with
  | nil => contradiction
  | cons head tail ih =>
    rw [List.mapM_cons] at fails
    cases atHead : f head with
    | error other =>
      rw [atHead] at fails
      obtain rfl := Except.error.inj fails
      exact ⟨head, List.mem_cons_self .., atHead⟩
    | ok first =>
      cases atTail : tail.mapM f with
      | error other =>
        rw [atHead, atTail] at fails
        obtain rfl := Except.error.inj fails
        obtain ⟨a, isThere, atThere⟩ := ih atTail
        exact ⟨a, List.mem_cons_of_mem _ isThere, atThere⟩
      | ok rest =>
        rw [atHead, atTail] at fails
        contradiction

theorem exists_mem_zip_of_mem {list : List α} {results : List β}
    (length : list.length = results.length) {a : α} (isThere : a ∈ list) :
    ∃ b, (a, b) ∈ list.zip results := by
  rw [← List.map_fst_zip (Nat.le_of_eq length)] at isThere
  obtain ⟨⟨a, b⟩, paired, rfl⟩ := List.mem_map.mp isThere
  exact ⟨b, paired⟩

end Traversal

theorem map_eq_ok_iff {α β ε : Type} {change : α → β} {result : Except ε α} {b : β} :
    change <$> result = .ok b ↔ ∃ a, result = .ok a ∧ change a = b := by
  constructor
  · exact exists_eq_ok_of_map
  · rintro ⟨a, rfl, rfl⟩
    rfl

theorem eq_error_of_map {α β ε : Type} {change : α → β} {result : Except ε α} {error : ε}
    (fails : change <$> result = .error error) : result = .error error := by
  cases result with
  | error other => exact congrArg Except.error (Except.error.inj fails)
  | ok => contradiction

namespace Heap

variable {heap : Heap} {v : Value} {data : PlainData}

/-- A path from the value leads to a function. -/
def ReachesFunction (heap : Heap) (v : Value) : Prop :=
  ∃ path ref, heap.follow v path = some (.function ref)

/-- The data holds the primitives of the value in the same places, under the keys of its records. -/
inductive HasShape (heap : Heap) : Value → PlainData → Prop
  | primitive (p : Primitive) : HasShape heap (.primitive p) (.primitive p)
  | array {ref : ArrayRef} {items : List PlainData}
      (length : (heap.elements ref).toList.length = items.length)
      (each : ∀ v item, (v, item) ∈ (heap.elements ref).toList.zip items → HasShape heap v item) :
      HasShape heap (.array ref) (.array items)
  | record {ref : RecordRef} {members : List (String × PlainData)}
      (length : (heap.entries ref).toList.length = members.length)
      (keys : ∀ entry member, (entry, member) ∈ (heap.entries ref).toList.zip members →
        entry.1 = member.1)
      (each : ∀ entry member, (entry, member) ∈ (heap.entries ref).toList.zip members →
        HasShape heap entry.2 member.2) :
      HasShape heap (.record ref) (.object members)

theorem hasShape_primitive_iff {p : Primitive} :
    heap.HasShape (.primitive p) data ↔ data = .primitive p := by
  constructor
  · rintro ⟨⟩
    rfl
  · rintro rfl
    exact .primitive p

theorem hasShape_array_iff {ref : ArrayRef} : heap.HasShape (.array ref) data ↔
    ∃ items, ((heap.elements ref).toList.length = items.length ∧
      ∀ v item, (v, item) ∈ (heap.elements ref).toList.zip items → heap.HasShape v item) ∧
        .array items = data := by
  constructor
  · intro shape
    cases shape with
    | array length each => exact ⟨_, ⟨length, each⟩, rfl⟩
  · rintro ⟨items, ⟨length, each⟩, rfl⟩
    exact .array length each

theorem hasShape_record_iff {ref : RecordRef} : heap.HasShape (.record ref) data ↔
    ∃ members, ((heap.entries ref).toList.length = members.length ∧
      ∀ entry member, (entry, member) ∈ (heap.entries ref).toList.zip members →
        entry.1 = member.1 ∧ heap.HasShape entry.2 member.2) ∧ .object members = data := by
  constructor
  · intro shape
    cases shape with
    | record length keys each =>
      exact ⟨_, ⟨length, fun entry member paired =>
        ⟨keys entry member paired, each entry member paired⟩⟩, rfl⟩
  · rintro ⟨members, ⟨length, each⟩, rfl⟩
    exact .record length (fun entry member paired => (each entry member paired).1)
      fun entry member paired => (each entry member paired).2

theorem functionless_of_contents (plain : ∀ ref, v ≠ .function ref)
    (inside : ∀ w ∈ heap.contents v, heap.Functionless w) : heap.Functionless v := by
  intro path ref leads
  cases path with
  | nil => exact plain ref (Option.some.inj leads)
  | cons index path =>
    obtain ⟨w, isThere, leads⟩ := Option.bind_eq_some_iff.mp leads
    exact inside w (List.mem_of_getElem? isThere) path ref leads

/-- What data have the shape of leads to no function. -/
theorem HasShape.functionless (shape : heap.HasShape v data) : heap.Functionless v := by
  induction shape with
  | primitive p => exact functionless_of_contents nofun nofun
  | array length _ ih =>
    refine functionless_of_contents nofun fun w isThere => ?_
    obtain ⟨item, paired⟩ := exists_mem_zip_of_mem length isThere
    exact ih w item paired
  | record length _ _ ih =>
    refine functionless_of_contents nofun fun w isThere => ?_
    obtain ⟨entry, isEntry, rfl⟩ := List.mem_map.mp isThere
    obtain ⟨member, paired⟩ := exists_mem_zip_of_mem length isEntry
    exact ih entry member paired

/-- A projection that goes deep enough gives the data of the same shape and no other. -/
theorem NestsWithin.toPlainWithin_eq_ok_iff {depth room : Nat} (nests : heap.NestsWithin depth v)
    (enough : depth < room) : heap.toPlainWithin room v = .ok data ↔ heap.HasShape v data := by
  induction room generalizing v depth data with
  | zero => exact absurd enough (Nat.not_lt_zero depth)
  | succ room ih =>
    have inside : ∀ w ∈ heap.contents v, ∀ data,
        heap.toPlainWithin room w = .ok data ↔ heap.HasShape w data := by
      intro w held data
      obtain ⟨inner, less, nests⟩ := nests.of_mem held
      exact ih nests (by omega)
    cases v with
    | primitive p =>
      rw [toPlainWithin, hasShape_primitive_iff, Except.ok.injEq, eq_comm]
    | function ref =>
      rw [toPlainWithin]
      exact iff_of_false nofun nofun
    | array ref =>
      rw [toPlainWithin_array, map_eq_ok_iff, hasShape_array_iff]
      refine exists_congr fun items => and_congr_left fun _ => ?_
      rw [mapM_eq_ok_iff]
      refine and_congr_right fun _ => ?_
      refine forall_congr' fun w => forall_congr' fun item => ?_
      exact forall_congr' fun paired => inside w (List.of_mem_zip paired).1 item
    | record ref =>
      rw [toPlainWithin_record, map_eq_ok_iff, hasShape_record_iff]
      refine exists_congr fun members => and_congr_left fun _ => ?_
      rw [mapM_eq_ok_iff]
      refine and_congr_right fun _ => ?_
      refine forall_congr' fun entry => forall_congr' fun member => ?_
      refine forall_congr' fun paired => ?_
      rw [← inside entry.2 (value_mem_contents (List.of_mem_zip paired).1), map_eq_ok_iff]
      constructor
      · rintro ⟨data, projects, rfl⟩
        exact ⟨rfl, projects⟩
      · rintro ⟨key, projects⟩
        exact ⟨member.2, projects, Prod.ext key rfl⟩

/-- A projection fails in one way only. -/
theorem eq_of_toPlainWithin_eq_error {room : Nat} {error : ScriptError}
    (fails : heap.toPlainWithin room v = .error error) : error = ⟨.functionNotPlain, none⟩ := by
  induction room generalizing v with
  | zero =>
    cases v with
    | function =>
      rw [toPlainWithin] at fails
      exact (Except.error.inj fails).symm
    | primitive | array | record =>
      rw [toPlainWithin] at fails
      contradiction
  | succ room ih =>
    cases v with
    | function =>
      rw [toPlainWithin] at fails
      exact (Except.error.inj fails).symm
    | primitive =>
      rw [toPlainWithin] at fails
      contradiction
    | array ref =>
      rw [toPlainWithin_array] at fails
      obtain ⟨w, -, failsThere⟩ := exists_mem_of_mapM_eq_error (eq_error_of_map fails)
      exact ih failsThere
    | record ref =>
      rw [toPlainWithin_record] at fails
      obtain ⟨entry, -, failsThere⟩ := exists_mem_of_mapM_eq_error (eq_error_of_map fails)
      exact ih (eq_error_of_map failsThere)

theorem Acyclic.toPlain_eq_ok_iff (acyclic : heap.Acyclic v) :
    heap.toPlain v = .ok data ↔ heap.HasShape v data :=
  acyclic.nestsWithin.toPlainWithin_eq_ok_iff (Nat.lt_succ_self _)

theorem Acyclic.toPlain_eq_error_iff (acyclic : heap.Acyclic v) {error : ScriptError} :
    heap.toPlain v = .error error ↔
      heap.ReachesFunction v ∧ error = ⟨.functionNotPlain, none⟩ := by
  constructor
  · intro fails
    refine ⟨?_, eq_of_toPlainWithin_eq_error fails⟩
    by_contra unreached
    have functionless : heap.Functionless v :=
      fun path ref leads => unreached ⟨path, ref, leads⟩
    obtain ⟨data, projects, -⟩ := acyclic.exists_toPlain functionless
    rw [projects] at fails
    contradiction
  · rintro ⟨⟨path, ref, leads⟩, rfl⟩
    -- Data would have the shape of the value, but nothing has the shape of a function.
    cases outcome : heap.toPlain v with
    | error error => rw [eq_of_toPlainWithin_eq_error outcome]
    | ok data => exact absurd leads ((acyclic.toPlain_eq_ok_iff.mp outcome).functionless path ref)

/-! ## Hooks -/

/-- The heap with other hooks on its records. -/
def withHooks (heap : Heap) (hooks : RecordRef → Option Hooks) : Heap :=
  { heap with
    records := heap.records.mapIdx fun index cell => { cell with hooks := hooks ⟨index⟩ } }

theorem entries_withHooks (heap : Heap) (hooks : RecordRef → Option Hooks) (ref : RecordRef) :
    (heap.withHooks hooks).entries ref = heap.entries ref := by
  rw [entries, entries, recordCell, recordCell, withHooks, Array.getD_eq_getD_getElem?,
    Array.getD_eq_getD_getElem?, Array.getElem?_mapIdx]
  cases heap.records[ref.index]? <;> rfl

theorem sameBelow_withHooks (heap : Heap) (hooks : RecordRef → Option Hooks) (v : Value) :
    heap.SameBelow (heap.withHooks hooks) v := by
  intro container _
  cases container with
  | array ref => rfl
  | record ref => exact heap.entries_withHooks hooks ref

theorem containerCount_withHooks (heap : Heap) (hooks : RecordRef → Option Hooks) :
    (heap.withHooks hooks).containerCount = heap.containerCount := by
  rw [containerCount, containerCount, withHooks, Array.size_mapIdx]

end Heap

theorem Unary.run_toPlain (v : Value) (machine : Machine) :
    Unary.toPlain.run v machine =
      some ((machine.realm.heap.toPlain v).map .plain, machine) := by
  rw [Unary.run, Execution.bind_apply, Execution.heap_apply]
  dsimp only
  rw [Execution.bind_apply, Execution.ofExcept_apply]
  cases machine.realm.heap.toPlain v <;> rfl

namespace Heap

/-- The projection of a value without cycles fails exactly if a path leads to a function, always
with the same error; otherwise it gives the one data that has the shape of the value. It does not
depend on the hooks of records and leaves the machine as it was. -/
theorem toPlain_fails_at_functions (machine : Machine) (v : Value)
    (acyclic : machine.realm.heap.Acyclic v) :
    Unary.toPlain.run v machine =
        some ((machine.realm.heap.toPlain v).map .plain, machine) ∧
      (∀ error, machine.realm.heap.toPlain v = .error error ↔
        machine.realm.heap.ReachesFunction v ∧ error = ⟨.functionNotPlain, none⟩) ∧
      Cause.functionNotPlain.errorClass = .type ∧
      Cause.functionNotPlain.message = "Function cannot be converted to plain data" ∧
      (∀ data, machine.realm.heap.toPlain v = .ok data ↔ machine.realm.heap.HasShape v data) ∧
      ∀ hooks, (machine.realm.heap.withHooks hooks).toPlain v = machine.realm.heap.toPlain v := by
  refine ⟨Unary.run_toPlain v machine, fun error => acyclic.toPlain_eq_error_iff, rfl, rfl,
    fun data => acyclic.toPlain_eq_ok_iff, fun hooks => ?_⟩
  exact acyclic.toPlain_eq (sameBelow_withHooks _ hooks v)
    (Nat.le_of_eq (containerCount_withHooks _ hooks).symm)

/-- A global record with an array that holds a function and, beside it, a record whose hooks would
answer with one. -/
def callable : Machine where
  realm := ⟨{
    arrays := #[#[.null, .function ⟨0⟩]]
    records := #[⟨.ofList [("list", .array ⟨0⟩), ("hooked", .record ⟨1⟩)], some .global⟩,
      ⟨.ofList [("f", .boolean true)],
        some (HookTable.hooks ⟨["f"], false, false, none, [], none⟩ [.function ⟨0⟩])⟩]
    functions := #[default] }, .ofGlobal ⟨0⟩⟩
  registers := .empty

theorem toPlain_fails_at_functions_callable :
    let heap := callable.realm.heap
    heap.Acyclic (.record ⟨0⟩) ∧
      Unary.toPlain.run (.record ⟨0⟩) callable =
        some (.error ⟨.functionNotPlain, none⟩, callable) ∧
      heap.toPlain (.record ⟨1⟩) = .ok (.object [("f", .primitive (.boolean true))]) := by
  intro heap
  let below : List Value :=
    [.record ⟨0⟩, .array ⟨0⟩, .record ⟨1⟩, .null, .function ⟨0⟩, .boolean true]
  let rank : Value → Nat
    | .record ref => 2 - ref.index
    | .array _ => 1
    | _ => 0
  have closed : ∀ u ∈ below, ∀ w ∈ heap.contents u, w ∈ below := by decide +kernel
  have falls : ∀ u ∈ below, ∀ w ∈ heap.contents u, rank w < rank u := by decide +kernel
  have acyclic : ∀ v ∈ below, heap.Acyclic v := fun v start => acyclic_of_rank closed falls start
  have whole := acyclic (.record ⟨0⟩) (by decide)
  obtain ⟨runs, fails, -⟩ := toPlain_fails_at_functions callable (.record ⟨0⟩) whole
  obtain ⟨-, -, -, -, gives, -⟩ :=
    toPlain_fails_at_functions callable (.record ⟨1⟩) (acyclic _ (by decide))
  refine ⟨whole, ?_, (gives _).mpr ?_⟩
  · have reaches : heap.ReachesFunction (.record ⟨0⟩) := ⟨[0, 1], ⟨0⟩, by decide +kernel⟩
    rw [runs, (fails _).mpr ⟨reaches, rfl⟩]
    rfl
  · have entries : (heap.entries ⟨1⟩).toList = [("f", .boolean true)] := by decide +kernel
    refine .record (by rw [entries]; rfl) ?_ ?_ <;> rw [entries] <;> intro entry member paired
    · obtain ⟨rfl, rfl⟩ := Prod.mk.inj (List.mem_singleton.mp paired)
      rfl
    · obtain ⟨rfl, rfl⟩ := Prod.mk.inj (List.mem_singleton.mp paired)
      exact .primitive _

end Heap

end ScriptCore
