import ScriptCore.Proofs.PlainData.Mutation

/-! # Copies

To project a value and to create a value from the data is to copy it. However often the original
holds one container, the copy has a container of its own for each place: what creation builds is a
forest of new containers, each at the end of one path. The original and the copy therefore reach no
common container, and neither sees mutations of what only the other reaches.
-/

namespace ScriptCore

namespace Heap

variable {earlier middle heap later : Heap} {v w : Value} {values : List Value}

theorem Extends.sameBelow (extension : heap.Extends later) (covers : heap.Covers v) :
    heap.SameBelow later v := fun container reaches => extension.sameIn (covers container reaches)

/-! ## Forests -/

/-- The value that a path leads to whose first position is among some values. -/
def followFrom (heap : Heap) (values : List Value) : List Nat → Option Value
  | [] => none
  | index :: path => values[index]?.bind (heap.follow · path)

/-- The containers that some values reach were made since an earlier heap, and each is at the end of
one path. -/
structure Forest (earlier heap : Heap) (values : List Value) : Prop where
  isNew : ∀ path container, heap.followFrom values path = some (Container.value container) →
    container.IsIn heap ∧ ¬ container.IsIn earlier
  onePath : ∀ path other container,
    heap.followFrom values path = some (Container.value container) →
    heap.followFrom values other = some container.value → path = other

theorem followFrom_cons_cases {path : List Nat}
    (leads : heap.followFrom (v :: values) path = some w) :
    (∃ rest, path = 0 :: rest ∧ heap.followFrom [v] (0 :: rest) = some w) ∨
      ∃ index rest, path = (index + 1) :: rest ∧
        heap.followFrom values (index :: rest) = some w := by
  match path with
  | [] => contradiction
  | 0 :: rest => exact .inl ⟨rest, rfl, leads⟩
  | (index + 1) :: rest => exact .inr ⟨index, rest, rfl, leads⟩

theorem followFrom_singleton_cases {path : List Nat} (leads : heap.followFrom [v] path = some w) :
    path = [0] ∧ w = v ∨
      ∃ rest, path = 0 :: rest ∧ heap.followFrom (heap.contents v) rest = some w := by
  match path with
  | [] => contradiction
  | [0] => exact .inl ⟨rfl, (Option.some.inj leads).symm⟩
  | 0 :: index :: rest => exact .inr ⟨index :: rest, rfl, leads⟩

namespace Forest

theorem of_nowhere
    (nowhere : ∀ path (container : Container), heap.followFrom values path ≠ some container.value) :
    Forest earlier heap values :=
  ⟨fun path container leads => absurd leads (nowhere path container),
    fun path _ container leads => absurd leads (nowhere path container)⟩

theorem nil (earlier heap : Heap) : Forest earlier heap [] := by
  apply of_nowhere
  intro path container leads
  cases path <;> contradiction

theorem primitive (earlier heap : Heap) (p : Primitive) : Forest earlier heap [.primitive p] := by
  apply of_nowhere
  intro path container leads
  obtain ⟨-, same⟩ | ⟨rest, -, within⟩ := followFrom_singleton_cases leads
  · cases container <;> contradiction
  · cases rest <;> contradiction

theorem followFrom_eq (forest : Forest earlier heap values) (growth : heap.Extends later)
    (path : List Nat) : later.followFrom values path = heap.followFrom values path := by
  cases path with
  | nil => rfl
  | cons index path =>
    rw [followFrom, followFrom]
    cases isThere : values[index]? with
    | none => rfl
    | some w =>
      have covers : heap.Covers w := by
        rintro container ⟨inner, leads⟩
        apply (forest.isNew (index :: inner) container _).1
        rw [followFrom, isThere, Option.bind_some, leads]
      exact (growth.sameBelow covers).follow_eq path

/-- A forest stays one as the heap is extended. -/
theorem extend (forest : Forest earlier heap values) (growth : heap.Extends later) :
    Forest earlier later values := by
  constructor
  · intro path container leads
    rw [forest.followFrom_eq growth] at leads
    exact (forest.isNew path container leads).imp_left growth.isIn
  · intro path other container leads again
    rw [forest.followFrom_eq growth] at leads again
    exact forest.onePath path other container leads again

/-- Trees that are built one after another share nothing. -/
theorem cons (first : Forest earlier middle [v]) (rest : Forest middle heap values)
    (older : earlier.Extends middle) (growth : middle.Extends heap) :
    Forest earlier heap (v :: values) := by
  have extended := first.extend growth
  have apart : ∀ path other container,
      heap.followFrom [v] path = some (Container.value container) →
      heap.followFrom values other ≠ some container.value := by
    intro path other container leads again
    rw [first.followFrom_eq growth] at leads
    exact (rest.isNew other container again).2 (first.isNew path container leads).1
  constructor
  · intro path container leads
    obtain ⟨_, rfl, within⟩ | ⟨_, _, rfl, within⟩ := followFrom_cons_cases leads
    · exact extended.isNew _ container within
    · obtain ⟨present, absent⟩ := rest.isNew _ container within
      exact ⟨present, fun there => absent (older.isIn there)⟩
  · intro path other container leads again
    obtain ⟨_, rfl, within⟩ | ⟨_, _, rfl, within⟩ := followFrom_cons_cases leads <;>
      obtain ⟨_, rfl, within'⟩ | ⟨_, _, rfl, within'⟩ := followFrom_cons_cases again
    · exact extended.onePath _ _ container within within'
    · exact absurd within' (apart _ _ container within)
    · exact absurd within (apart _ _ container within')
    · obtain ⟨rfl, rfl⟩ := List.cons.inj (rest.onePath _ _ container within within')
      rfl

/-- A new container that holds the roots of a forest is the root of a tree. -/
theorem root (forest : Forest earlier middle values) (older : earlier.Extends middle)
    (growth : middle.Extends heap) (container : Container) (present : container.IsIn heap)
    (absent : ¬ container.IsIn middle) (holds : heap.contents container.value = values) :
    Forest earlier heap [container.value] := by
  have extended := forest.extend growth
  have below : ∀ path, heap.followFrom values path ≠ some container.value := by
    intro path leads
    rw [forest.followFrom_eq growth] at leads
    exact absent (forest.isNew path container leads).1
  subst holds
  constructor
  · intro path other leads
    obtain ⟨rfl, same⟩ | ⟨rest, rfl, within⟩ := followFrom_singleton_cases leads
    · obtain rfl := Container.value_injective same
      exact ⟨present, fun there => absent (older.isIn there)⟩
    · exact extended.isNew rest other within
  · intro path second other leads again
    obtain ⟨rfl, same⟩ | ⟨rest, rfl, within⟩ := followFrom_singleton_cases leads <;>
      obtain ⟨rfl, same'⟩ | ⟨rest', rfl, within'⟩ := followFrom_singleton_cases again
    · rfl
    · rw [same] at within'
      exact absurd within' (below rest')
    · rw [same'] at within
      exact absurd within (below rest)
    · rw [extended.onePath rest rest' other within within']

theorem newArray (forest : Forest earlier middle values) (older : earlier.Extends middle) :
    ∃ ref after, ScriptCore.newArray values.toArray middle = (.ok ref, after) ∧
      middle.Extends after ∧ Forest earlier after [.array ref] := by
  obtain ⟨after, allocated, growth, -, holds⟩ := newArray_apply values.toArray middle
  refine ⟨_, after, allocated, growth, forest.root older growth (.array _) ?_ ?_ ?_⟩
  · obtain rfl := congrArg Prod.snd allocated
    change middle.arrays.size < (middle.arrays.push _).size
    rw [Array.size_push]
    exact Nat.lt_succ_self _
  · exact Nat.lt_irrefl _
  · rw [Container.value, contents, holds after (.refl after)]

theorem newRecord {entries : Entries Value}
    (forest : Forest earlier middle (entries.toList.map Prod.snd))
    (older : earlier.Extends middle) (hooks : Option Hooks) :
    ∃ ref after, ScriptCore.newRecord entries hooks middle = (.ok ref, after) ∧
      middle.Extends after ∧ Forest earlier after [.record ref] := by
  obtain ⟨after, allocated, growth, -, holds⟩ := newRecord_apply entries hooks middle
  refine ⟨_, after, allocated, growth, forest.root older growth (.record _) ?_ ?_ ?_⟩
  · obtain rfl := congrArg Prod.snd allocated
    change middle.records.size < (middle.records.push _).size
    rw [Array.size_push]
    exact Nat.lt_succ_self _
  · exact Nat.lt_irrefl _
  · rw [Container.value, contents, Heap.entries, holds after (.refl after)]

/-- The containers below the root of a tree are new. -/
theorem isNew_of_reaches (tree : Forest earlier heap [v]) {container : Container}
    (reaches : heap.Reaches v container) : container.IsIn heap ∧ ¬ container.IsIn earlier := by
  obtain ⟨path, leads⟩ := reaches
  exact tree.isNew (0 :: path) container leads

theorem covers (tree : Forest earlier heap [v]) : heap.Covers v :=
  fun _ reaches => (tree.isNew_of_reaches reaches).1

theorem eq_of_follow (tree : Forest earlier heap [v]) {path other : List Nat}
    {container : Container} (leads : heap.follow v path = some container.value)
    (again : heap.follow v other = some container.value) : path = other :=
  (List.cons.inj (tree.onePath (0 :: path) (0 :: other) container leads again)).2

theorem acyclic (tree : Forest earlier heap [v]) : heap.Acyclic v := by
  intro path loop w leads back
  cases loop with
  | nil => rfl
  | cons index rest =>
    have held := (follow_append_of_some leads (index :: rest)).symm.trans back
    obtain ⟨next, isThere, -⟩ := Option.bind_eq_some_iff.mp held
    obtain ⟨container, rfl⟩ := exists_container_of_mem (List.mem_of_getElem? isThere)
    exact absurd (tree.eq_of_follow leads back) (by simp)

end Forest

end Heap

namespace PlainData

open Heap (Forest)

/-! ## What creation builds -/

mutual

theorem create_forest : ∀ (data : PlainData), data.DistinctKeys → ∀ heap : Heap,
    ∃ value after, data.create heap = (.ok value, after) ∧ heap.Extends after ∧
      Forest heap after [value]
  | .primitive p, _, heap => ⟨.primitive p, heap, rfl, .refl heap, .primitive heap heap p⟩
  | .array items, .array each, heap => by
    obtain ⟨values, middle, created, extension, forest⟩ := createAll_forest items each heap
    obtain ⟨ref, after, allocated, growth, tree⟩ := forest.newArray extension
    refine ⟨.array ref, after, ?_, extension.trans growth, tree⟩
    rw [create, Action.bind_of_ok created, Action.map_of_ok allocated]
  | .object members, .object distinct each, heap => by
    obtain ⟨entries, middle, created, keys, extension, forest⟩ :=
      createMembers_forest members each heap
    rw [← keys] at distinct
    rw [← Entries.toList_ofList_of_nodup distinct] at forest
    obtain ⟨ref, after, allocated, growth, tree⟩ := forest.newRecord extension none
    refine ⟨.record ref, after, ?_, extension.trans growth, tree⟩
    rw [create, Action.bind_of_ok created, Action.map_of_ok allocated]

theorem createAll_forest : ∀ (items : List PlainData), (∀ item ∈ items, item.DistinctKeys) →
    ∀ heap : Heap, ∃ values after, createAll items heap = (.ok values, after) ∧
      heap.Extends after ∧ Forest heap after values
  | [], _, heap => ⟨[], heap, rfl, .refl heap, .nil heap heap⟩
  | item :: rest, each, heap => by
    obtain ⟨value, middle, created, extension, tree⟩ :=
      create_forest item (each item (List.mem_cons_self ..)) heap
    obtain ⟨values, after, createdAll, growth, forest⟩ :=
      createAll_forest rest (fun other member => each other (List.mem_cons_of_mem _ member)) middle
    refine ⟨value :: values, after, ?_, extension.trans growth,
      tree.cons forest extension growth⟩
    rw [createAll, Action.bind_of_ok created, Action.bind_of_ok createdAll]
    rfl

theorem createMembers_forest : ∀ (members : List (String × PlainData)),
    (∀ member ∈ members, member.2.DistinctKeys) → ∀ heap : Heap,
    ∃ entries after, createMembers members heap = (.ok entries, after) ∧
      entries.map Prod.fst = members.map Prod.fst ∧ heap.Extends after ∧
      Forest heap after (entries.map Prod.snd)
  | [], _, heap => ⟨[], heap, rfl, rfl, .refl heap, .nil heap heap⟩
  | (key, item) :: rest, each, heap => by
    obtain ⟨value, middle, created, extension, tree⟩ :=
      create_forest item (each (key, item) (List.mem_cons_self ..)) heap
    obtain ⟨entries, after, createdAll, keys, growth, forest⟩ :=
      createMembers_forest rest (fun other member => each other (List.mem_cons_of_mem _ member))
        middle
    refine ⟨(key, value) :: entries, after, ?_, by simp [keys], extension.trans growth,
      tree.cons forest extension growth⟩
    rw [createMembers, Action.bind_of_ok created, Action.bind_of_ok createdAll]
    rfl

end

end PlainData

/-! ## Independence -/

namespace Heap

/-- A value of the heap without cycles and functions can be copied, and the copy has the same data.
All containers of the copy are new, so the original reaches none of them, and each is at the end of
one path. Whatever is done to containers that the copy does not reach leaves its data as it is, and
so for the original. -/
theorem copy_is_independent {heap : Heap} {v : Value} (covers : heap.Covers v)
    (acyclic : heap.Acyclic v) (functionless : heap.Functionless v) :
    ∃ data copy after, heap.toPlain v = .ok data ∧ data.create heap = (.ok copy, after) ∧
      after.toPlain copy = .ok data ∧ after.toPlain v = .ok data ∧
      (∀ container, after.Reaches copy container →
        ¬ container.IsIn heap ∧ ¬ after.Reaches v container) ∧
      (∀ path other container, after.follow copy path = some (Container.value container) →
        after.follow copy other = some container.value → path = other) ∧
      (∀ mutations, Mutation.Avoid copy mutations after →
        (Mutation.runAll mutations after).toPlain copy = .ok data) ∧
      ∀ mutations, Mutation.Avoid v mutations after →
        (Mutation.runAll mutations after).toPlain v = .ok data := by
  obtain ⟨data, projects, distinct⟩ := acyclic.exists_toPlain functionless
  obtain ⟨copy, after, created, extension, readsBack⟩ := data.create_projects distinct heap
  have again : after.toPlain copy = .ok data := readsBack after (.refl after) _ (by omega)
  have tree : Forest heap after [copy] := by
    obtain ⟨copy', after', created', -, tree⟩ := data.create_forest distinct heap
    obtain ⟨same, rfl⟩ := Prod.mk.inj (created'.symm.trans created)
    obtain rfl := Except.ok.inj same
    exact tree
  have same := extension.sameBelow covers
  have still : after.toPlain v = .ok data :=
    (acyclic.toPlain_eq same extension.containerCount_le).trans projects
  have reaches_old : ∀ container, after.Reaches v container → container.IsIn heap :=
    fun container reaches => covers container ((same.reaches_iff container).mp reaches)
  refine ⟨data, copy, after, projects, created, again, still, ?_, ?_, ?_, ?_⟩
  · intro container reaches
    have absent := (tree.isNew_of_reaches reaches).2
    exact ⟨absent, fun shared => absent (reaches_old container shared)⟩
  · intro path other container leads back
    exact tree.eq_of_follow leads back
  · intro mutations avoid
    exact (Mutation.toPlain_runAll tree.covers tree.acyclic avoid).trans again
  · intro mutations avoid
    have covered : after.Covers v :=
      fun container reaches => extension.isIn (reaches_old container reaches)
    exact (Mutation.toPlain_runAll covered (same.acyclic acyclic) avoid).trans still

/-- An array that holds one record twice; the record has hooks and holds another array. -/
def sharing : Heap where
  arrays := #[#[.record ⟨0⟩, .null, .record ⟨0⟩], #[.boolean true]]
  records := #[⟨.ofList [("list", .array ⟨1⟩)], some .global⟩]
  functions := #[]

/-- The copy outlives a write that puts the original into itself. -/
theorem copy_is_independent_sharing :
    let v := Value.array ⟨0⟩
    sharing.Covers v ∧ sharing.Acyclic v ∧ sharing.Functionless v ∧
      ∃ data copy after, sharing.toPlain v = .ok data ∧
        data.create sharing = (.ok copy, after) ∧
        (Mutation.runAll [.insert ⟨0⟩ "list" v] after).toPlain copy = .ok data := by
  intro v
  let below : List Value := [v, .record ⟨0⟩, .array ⟨1⟩, .null, .boolean true]
  let rank : Value → Nat
    | .array ref => 3 - 2 * ref.index
    | .record _ => 2
    | _ => 0
  have closed : ∀ u ∈ below, ∀ w ∈ sharing.contents u, w ∈ below := by decide +kernel
  have falls : ∀ u ∈ below, ∀ w ∈ sharing.contents u, rank w < rank u := by decide +kernel
  have present : ∀ u ∈ below, ∀ container ∈ Container.ofValue? u, container.IsIn sharing := by
    decide
  have plain : ∀ u ∈ below, u.kind ≠ .function := by decide
  have start : v ∈ below := List.mem_cons_self ..
  have covers : sharing.Covers v := by
    rintro container ⟨path, leads⟩
    exact present _ (of_follow closed start leads) container container.ofValue?_value
  have acyclic : sharing.Acyclic v := acyclic_of_rank closed falls start
  have functionless : sharing.Functionless v :=
    fun path ref leads => plain _ (of_follow closed start leads) rfl
  obtain ⟨data, copy, after, projects, created, -, -, apart, -, kept, -⟩ :=
    copy_is_independent covers acyclic functionless
  refine ⟨covers, acyclic, functionless, data, copy, after, projects, created, ?_⟩
  apply kept
  refine ⟨fun container isTarget reaches => ?_, trivial⟩
  obtain rfl := Option.some.inj isTarget
  exact (apart _ reaches).1 (by decide)

end Heap

end ScriptCore
