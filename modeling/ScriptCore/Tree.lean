import ScriptCore.Heap

/-! # Unfoldings of values

The part of the heap that is reached from a value through elements and own entries, unfolded to a
tree, as it is shown to the host. A container that is met again inside itself becomes a leaf that
counts how far out it stands; a value without such leaves is acyclic.
-/

namespace ScriptCore

inductive Tree
  | primitive (p : Primitive)
  | array (items : List Tree)
  | record (entries : List (String × Tree))
  | function (isArrow : Bool) (receiver : Kind)
  /-- The container this many levels further out than the directly enclosing one. -/
  | cycle (outward : Nat)
deriving Inhabited

/-- Unfolds a value inside the given open containers, innermost first. Each level opens one more
container of the heap, so their number bounds the depth. -/
def Heap.unfoldIn (heap : Heap) : Nat → List Value → Value → Tree
  | _, _, .primitive p => .primitive p
  | _, _, .function ref =>
    let cell := heap.functionCell ref
    .function cell.isArrow cell.receiver.kind
  | 0, opened, .array _ => .cycle opened.length
  | 0, opened, .record _ => .cycle opened.length
  | fuel + 1, opened, .array ref =>
    match opened.idxOf? (.array ref) with
    | some outward => .cycle outward
    | none =>
      .array ((heap.elements ref).toList.map (heap.unfoldIn fuel (.array ref :: opened)))
  | fuel + 1, opened, .record ref =>
    match opened.idxOf? (.record ref) with
    | some outward => .cycle outward
    | none =>
      .record ((heap.entries ref).toList.map fun entry =>
        (entry.1, heap.unfoldIn fuel (.record ref :: opened) entry.2))

/-- The tree that a value unfolds to. -/
def Heap.unfold (heap : Heap) (v : Value) : Tree := heap.unfoldIn (heap.containerCount + 1) [] v

end ScriptCore
