import ScriptCore.Proofs.Heap.Paths
import ScriptCore.Proofs.PlainData.RoundTrip

/-! # What a projection depends on

The projection of a value looks at the containers that the value reaches and at nothing else. If
these form no cycle, the depth that a projection allows is not met: the result is the same in every
heap with the same containers below the value and no fewer in all. It is data, with distinct keys,
unless a function is reached.
-/

namespace ScriptCore

/-! ## Results of a traversal -/

section Traversal

variable {α β ε : Type} {f g : α → Except ε β} {list : List α}

theorem mapM_congr_of_mem (same : ∀ a ∈ list, f a = g a) : list.mapM f = list.mapM g := by
  induction list with
  | nil => rfl
  | cons head tail ih =>
    rw [List.mapM_cons, List.mapM_cons, same head (List.mem_cons_self ..),
      ih fun a member => same a (List.mem_cons_of_mem _ member)]

theorem exists_mapM_eq_ok (each : ∀ a ∈ list, ∃ b, f a = .ok b) :
    ∃ results, list.mapM f = .ok results := by
  induction list with
  | nil => exact ⟨[], rfl⟩
  | cons head tail ih =>
    obtain ⟨first, atHead⟩ := each head (List.mem_cons_self ..)
    obtain ⟨rest, atTail⟩ := ih fun a member => each a (List.mem_cons_of_mem _ member)
    refine ⟨first :: rest, ?_⟩
    rw [List.mapM_cons, atHead, atTail]
    rfl

/-- A traversal that succeeds does so at each element. -/
theorem forall₂_of_mapM_eq_ok {results : List β} (succeeds : list.mapM f = .ok results) :
    List.Forall₂ (fun a b => f a = .ok b) list results := by
  induction list generalizing results with
  | nil =>
    obtain rfl := Except.ok.inj succeeds
    exact .nil
  | cons head tail ih =>
    rw [List.mapM_cons] at succeeds
    cases atHead : f head with
    | error => rw [atHead] at succeeds; contradiction
    | ok first =>
      cases atTail : tail.mapM f with
      | error => rw [atHead, atTail] at succeeds; contradiction
      | ok rest =>
        rw [atHead, atTail] at succeeds
        obtain rfl := Except.ok.inj succeeds
        exact .cons atHead (ih atTail)

theorem mapM_eq_ok_of_forall₂ {results : List β}
    (each : List.Forall₂ (fun a b => f a = .ok b) list results) : list.mapM f = .ok results := by
  induction each with
  | nil => rfl
  | cons atHead _ atTail =>
    rw [List.mapM_cons, atHead, atTail]
    rfl

theorem exists_mem_of_forall₂ {related : α → β → Prop} {results : List β}
    (pairs : List.Forall₂ related list results) {b : β} (member : b ∈ results) :
    ∃ a ∈ list, related a b := by
  induction pairs with
  | nil => exact absurd member List.not_mem_nil
  | @cons a _ _ _ pair _ ih =>
    rcases List.mem_cons.mp member with rfl | member
    · exact ⟨a, List.mem_cons_self .., pair⟩
    · obtain ⟨a, isThere, pair⟩ := ih member
      exact ⟨a, List.mem_cons_of_mem _ isThere, pair⟩

end Traversal

theorem exists_eq_ok_of_map {α β ε : Type} {change : α → β} {result : Except ε α} {b : β}
    (succeeds : change <$> result = .ok b) : ∃ a, result = .ok a ∧ change a = b := by
  cases result with
  | error => contradiction
  | ok a => exact ⟨a, rfl, Except.ok.inj succeeds⟩

namespace Heap

variable {heap later : Heap} {v w : Value}

theorem value_mem_contents {ref : RecordRef} {entry : String × Value}
    (member : entry ∈ (heap.entries ref).toList) : entry.2 ∈ heap.contents (.record ref) :=
  List.mem_map_of_mem member

/-! ## Depth -/

/-- Paths from a value have at most a number of positions. -/
def NestsWithin (heap : Heap) (depth : Nat) (v : Value) : Prop :=
  ∀ path w, heap.follow v path = some w → path.length ≤ depth

theorem NestsWithin.of_mem {depth : Nat} (nests : heap.NestsWithin depth v)
    (held : w ∈ heap.contents v) : ∃ inner < depth, heap.NestsWithin inner w := by
  obtain ⟨index, step⟩ := exists_index_of_mem held
  have longer : ∀ path other, heap.follow w path = some other → path.length + 1 ≤ depth :=
    fun path other leads => nests (index :: path) other ((step path).trans leads)
  have positive := longer [] w rfl
  refine ⟨depth - 1, by omega, fun path other leads => ?_⟩
  have := longer path other leads
  omega

theorem Acyclic.nestsWithin (acyclic : heap.Acyclic v) :
    heap.NestsWithin heap.containerCount v := fun _ _ leads => acyclic.length_le leads

/-- Neither the rest of the heap nor the depth allowed beyond what is needed shows in the data. -/
theorem NestsWithin.toPlainWithin_eq {depth room wide : Nat} (nests : heap.NestsWithin depth v)
    (same : heap.SameBelow later v) (enough : depth < room) (ample : depth < wide) :
    later.toPlainWithin wide v = heap.toPlainWithin room v := by
  induction room generalizing v depth wide with
  | zero => exact absurd enough (Nat.not_lt_zero depth)
  | succ room ih =>
    obtain ⟨wide, rfl⟩ : ∃ inner, wide = inner + 1 := ⟨wide - 1, by omega⟩
    have inside : ∀ w ∈ heap.contents v,
        later.toPlainWithin wide w = heap.toPlainWithin room w := by
      intro w held
      obtain ⟨inner, less, nests⟩ := nests.of_mem held
      exact ih nests (same.of_mem held) (by omega) (by omega)
    cases v with
    | primitive | function => simp only [toPlainWithin]
    | array ref =>
      have elements : later.elements ref = heap.elements ref :=
        same (.array ref) (.self heap (.array ref))
      rw [toPlainWithin_array, toPlainWithin_array, elements]
      exact congrArg _ (mapM_congr_of_mem inside)
    | record ref =>
      have entries : later.entries ref = heap.entries ref :=
        same (.record ref) (.self heap (.record ref))
      rw [toPlainWithin_record, toPlainWithin_record, entries]
      refine congrArg _ (mapM_congr_of_mem fun entry member => ?_)
      rw [inside entry.2 (value_mem_contents member)]

theorem NestsWithin.exists_toPlainWithin {depth room : Nat} (nests : heap.NestsWithin depth v)
    (functionless : heap.Functionless v) (enough : depth < room) :
    ∃ data, heap.toPlainWithin room v = .ok data := by
  induction room generalizing v depth with
  | zero => exact absurd enough (Nat.not_lt_zero depth)
  | succ room ih =>
    have inside : ∀ w ∈ heap.contents v, ∃ data, heap.toPlainWithin room w = .ok data := by
      intro w held
      obtain ⟨inner, less, nests⟩ := nests.of_mem held
      exact ih nests (functionless.of_mem held) (by omega)
    cases v with
    | primitive p => exact ⟨.primitive p, by rw [toPlainWithin]⟩
    | function ref => exact absurd rfl (functionless [] ref)
    | array ref =>
      obtain ⟨items, projects⟩ := exists_mapM_eq_ok inside
      rw [contents] at projects
      refine ⟨.array items, ?_⟩
      rw [toPlainWithin_array, projects]
      rfl
    | record ref =>
      obtain ⟨members, projects⟩ : ∃ members, ((heap.entries ref).toList.mapM fun entry =>
          (entry.1, ·) <$> heap.toPlainWithin room entry.2) = .ok members := by
        refine exists_mapM_eq_ok fun entry member => ?_
        obtain ⟨data, projects⟩ := inside entry.2 (value_mem_contents member)
        refine ⟨(entry.1, data), ?_⟩
        rw [projects]
        rfl
      refine ⟨.object members, ?_⟩
      rw [toPlainWithin_record, projects]
      rfl

/-- The members of projected data are under the keys of a record, which are distinct. -/
theorem distinctKeys_of_toPlainWithin {room : Nat} {data : PlainData}
    (projects : heap.toPlainWithin room v = .ok data) : data.DistinctKeys := by
  induction room generalizing v data with
  | zero =>
    cases v with
    | function => rw [toPlainWithin] at projects; contradiction
    | primitive | array | record =>
      rw [toPlainWithin] at projects
      obtain rfl := Except.ok.inj projects
      exact .primitive _
  | succ room ih =>
    cases v with
    | function => rw [toPlainWithin] at projects; contradiction
    | primitive p =>
      rw [toPlainWithin] at projects
      obtain rfl := Except.ok.inj projects
      exact .primitive p
    | array ref =>
      rw [toPlainWithin_array] at projects
      obtain ⟨items, traversed, rfl⟩ := exists_eq_ok_of_map projects
      refine .array fun item isItem => ?_
      obtain ⟨w, -, projects⟩ := exists_mem_of_forall₂ (forall₂_of_mapM_eq_ok traversed) isItem
      exact ih projects
    | record ref =>
      rw [toPlainWithin_record] at projects
      obtain ⟨members, traversed, rfl⟩ := exists_eq_ok_of_map projects
      have pairs := forall₂_of_mapM_eq_ok traversed
      refine .object ?_ fun member isMember => ?_
      · have keys : (heap.entries ref).keys = members.map Prod.fst := by
          rw [← List.forall₂_eq_eq_eq, Entries.keys, List.forall₂_map_left_iff,
            List.forall₂_map_right_iff]
          refine pairs.imp fun entry member projects => ?_
          obtain ⟨data, -, rfl⟩ := exists_eq_ok_of_map projects
          rfl
        rw [← keys]
        exact (heap.entries ref).keys_nodup
      · obtain ⟨entry, -, projects⟩ := exists_mem_of_forall₂ pairs isMember
        obtain ⟨data, inside, rfl⟩ := exists_eq_ok_of_map projects
        exact ih inside

/-! ## Values without cycles -/

/-- Functions aside, what is not cyclic can be projected. -/
theorem Acyclic.exists_toPlain (acyclic : heap.Acyclic v) (functionless : heap.Functionless v) :
    ∃ data, heap.toPlain v = .ok data ∧ data.DistinctKeys := by
  obtain ⟨data, projects⟩ :=
    acyclic.nestsWithin.exists_toPlainWithin functionless (Nat.lt_succ_self _)
  exact ⟨data, projects, distinctKeys_of_toPlainWithin projects⟩

/-- The projection of a value is the same in every heap, no smaller, that has the same containers
below the value. -/
theorem Acyclic.toPlain_eq (acyclic : heap.Acyclic v) (same : heap.SameBelow later v)
    (grown : heap.containerCount ≤ later.containerCount) :
    later.toPlain v = heap.toPlain v :=
  acyclic.nestsWithin.toPlainWithin_eq same (Nat.lt_succ_self _) (Nat.lt_succ_of_le grown)

end Heap

end ScriptCore
