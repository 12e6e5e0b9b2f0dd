import ScriptCore.Proofs.Member.Access
import ScriptCore.Proofs.PlainData.Projection

/-! # Mutations

What a script or a host does to containers is to write a member, to push an element, to insert an
entry past the hooks and to make new containers. Each of these changes at most the one container
that it goes to, so the data of a value outlives any run of them that goes elsewhere.
-/

namespace ScriptCore

inductive Mutation
  | set (target property value : Value) (range : Option SourceRange)
  | push (ref : ArrayRef) (value : Value)
  | insert (ref : RecordRef) (key : String) (value : Value)
  | newArray (elements : Array Value)
  | newRecord (entries : Entries Value) (hooks : Option Hooks)

namespace Mutation

def run : Mutation → Action Heap Unit
  | set target property value range => target.write property value range
  | push ref value => ref.push value
  | insert ref key value => ref.insert key value
  | newArray elements => do let _ ← ScriptCore.newArray elements
  | newRecord entries hooks => do let _ ← ScriptCore.newRecord entries hooks

/-- The container that a mutation goes to. -/
def target? : Mutation → Option Container
  | set target _ _ _ => Container.ofValue? target
  | push ref _ => some (.array ref)
  | insert ref _ _ => some (.record ref)
  | newArray _ | newRecord _ _ => none

/-- The heap after mutations, first to last. A failing one does not stop those after it. -/
def runAll (mutations : List Mutation) (heap : Heap) : Heap :=
  mutations.foldl (fun heap mutation => (mutation.run heap).2) heap

/-- No mutation goes to a container that, when its turn comes, the value reaches. -/
def Avoid (v : Value) : List Mutation → Heap → Prop
  | [], _ => True
  | mutation :: rest, heap =>
    (∀ container, mutation.target? = some container → ¬ heap.Reaches v container) ∧
      Avoid v rest (mutation.run heap).2

theorem evolves (mutation : Mutation) (heap : Heap) {spared : Container → Prop}
    (elsewhere : ∀ container, mutation.target? = some container → ¬ spared container) :
    heap.EvolvesSparing spared (mutation.run heap).2 := by
  cases mutation with
  | set target property value range =>
    exact target.write_evolvesSparing property value range heap elsewhere
  | push ref value => exact .modifyElements heap ref _ (elsewhere _ rfl)
  | insert ref key value => exact .modifyEntries heap ref (·.insert key value) (elsewhere _ rfl)
  | newArray elements => exact .single (.newArray elements)
  | newRecord entries hooks => exact .single (.newRecord ⟨entries, hooks⟩)

/-- Mutations elsewhere leave the projection of an acyclic value as it was. -/
theorem toPlain_runAll {v : Value} {heap : Heap} (covers : heap.Covers v)
    (acyclic : heap.Acyclic v) {mutations : List Mutation} (avoid : Avoid v mutations heap) :
    (runAll mutations heap).toPlain v = heap.toPlain v := by
  induction mutations generalizing heap with
  | nil => rfl
  | cons mutation rest ih =>
    obtain ⟨elsewhere, avoid⟩ := avoid
    have evolves := mutation.evolves heap elsewhere
    have same := evolves.sameBelow covers
    calc (runAll rest (mutation.run heap).2).toPlain v
        = (mutation.run heap).2.toPlain v := ih (evolves.covers covers) (same.acyclic acyclic) avoid
      _ = heap.toPlain v := acyclic.toPlain_eq same evolves.containerCount_le

end Mutation

end ScriptCore
