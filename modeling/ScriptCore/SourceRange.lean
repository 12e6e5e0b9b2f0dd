/-! # Places in the script text

A source range is carried from the code that was running to the error that it raised, and is never
inspected on the way.
-/

namespace ScriptCore

structure Position where
  line : Nat
  column : Nat
deriving DecidableEq, Repr

structure SourceRange where
  first : Position
  last : Position
deriving DecidableEq, Repr

def Position.text (position : Position) : String :=
  s!"{position.line}:{position.column}"

def SourceRange.text (range : SourceRange) : String :=
  s!"{range.first.text}-{range.last.text}"

end ScriptCore
