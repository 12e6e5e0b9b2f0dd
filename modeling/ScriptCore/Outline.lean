import ScriptCore.Heap

/-! # Outlines of values

What a value looks like when arrays are unfolded and records are not: their keys alone are seen, so
the outline of a value is no larger than its text. An array inside itself has no outline to its
end; it is cut off where more arrays stand in each other than the heap has. Coercions and inspection
are recursions on outlines.
-/

namespace ScriptCore

inductive Outline
  | primitive (p : Primitive)
  | array (items : List Outline)
  | record (keys : List String)
  | function (isArrow : Bool) (receiver : Kind)
  | cut
deriving Inhabited

/-- The outline of a value in which arrays stand up to `depth` deep. -/
def Heap.outlineWithin (heap : Heap) : Nat → Value → Outline
  | _, .primitive p => .primitive p
  | _, .record ref => .record (heap.entries ref).keys
  | _, .function ref =>
    let cell := heap.functionCell ref
    .function cell.isArrow cell.receiver.kind
  | 0, .array _ => .cut
  | depth + 1, .array ref => .array ((heap.elements ref).toList.map (heap.outlineWithin depth))

/-- The outline of a value. The number of arrays bounds the depth of what has an end. -/
def Heap.outline (heap : Heap) (v : Value) : Outline :=
  heap.outlineWithin (heap.arrays.size + 1) v

end ScriptCore
