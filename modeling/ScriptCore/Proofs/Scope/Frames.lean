import ScriptCore.Proofs.Entries
import ScriptCore.Scope.Context

/-! # Frames by height

A frame is told from the others by its height over the base frame, which stays the same while the
stack grows and shrinks above it. For each operation on the stack this file says what the frame at a
height becomes: what it binds, with which kinds, and which values are fixed.
-/

namespace ScriptCore

/-- A later state of a binding: of the same kind, and unchanged if it is a constant. -/
def Binding.Persists (binding later : Binding) : Prop :=
  later.kind = binding.kind ∧ (binding.kind = .constant → later = binding)

theorem Binding.Persists.refl (binding : Binding) : binding.Persists binding :=
  ⟨rfl, fun _ => rfl⟩

theorem Binding.Persists.trans {first second third : Binding} (left : first.Persists second)
    (right : second.Persists third) : first.Persists third := by
  refine ⟨right.1.trans left.1, fun constant => ?_⟩
  rw [right.2 (left.1.trans constant), left.2 constant]

namespace Frame

/-- The names that a frame binds, with their kinds, in the order of their declarations. -/
def kinds (frame : Frame) : List (String × BindingKind) :=
  frame.toList.map fun entry => (entry.1, entry.2.kind)

/-- Every binding of a frame is still there. -/
def Keeps (frame later : Frame) : Prop :=
  ∀ name binding, frame.get? name = some binding →
    ∃ persisting, later.get? name = some persisting ∧ binding.Persists persisting

theorem Keeps.refl (frame : Frame) : frame.Keeps frame :=
  fun _ binding bound => ⟨binding, bound, .refl binding⟩

/-- A new value for a name changes neither the names nor their kinds. -/
theorem kinds_insert_of_bound {frame : Frame} {name : String} {binding : Binding}
    (bound : frame.get? name = some binding) (value : Value) :
    kinds (frame.insert name { binding with value }) = kinds frame := by
  rw [Entries.get?_eq_lookup] at bound
  simp only [kinds, Entries.toList_insert, map_upsert Binding.kind]
  exact upsert_of_lookup (by rw [lookup_map, bound, Option.map_some])

theorem keeps_insert_of_bound {frame : Frame} {name : String} {binding : Binding}
    (bound : frame.get? name = some binding) (mutable : binding.kind ≠ .constant) (value : Value) :
    Keeps frame (frame.insert name { binding with value }) := by
  intro other present found
  by_cases same : name = other
  · subst same
    obtain rfl : binding = present := Option.some.inj (bound.symm.trans found)
    exact ⟨_, Entries.get?_insert_self .., rfl, fun constant => absurd constant mutable⟩
  · exact ⟨present, (Entries.get?_insert_of_ne same ..).trans found, .refl present⟩

theorem keeps_insert_of_unbound {frame : Frame} {name : String} (unbound : frame.get? name = none)
    (binding : Binding) : Keeps frame (frame.insert name binding) := by
  intro other present found
  have different : name ≠ other := by
    rintro rfl
    rw [unbound] at found
    contradiction
  exact ⟨present, (Entries.get?_insert_of_ne different ..).trans found, .refl present⟩

end Frame

namespace Context

/-- The frame at a height; the base frame is at height 0. -/
def frameAt? (context : Context) (height : Nat) : Option Frame := context.frames.reverse[height]?

/-- The binding of a name in the frame at a height. -/
def bindingAt? (context : Context) (height : Nat) (name : String) : Option Binding :=
  (context.frameAt? height).bind (·.get? name)

/-- For every frame, the names that it binds with their kinds, the base frame first. -/
def layout (context : Context) : List (List (String × BindingKind)) :=
  (context.frames.map Frame.kinds).reverse

theorem length_frames (context : Context) : context.frames.length = context.depth := rfl

theorem depth_pos (context : Context) : 0 < context.depth := Nat.succ_pos _

theorem frameAt?_of_lt {context : Context} {height : Nat} (below : height < context.outer.length) :
    context.frameAt? height = context.outer.reverse[height]? := by
  rw [frameAt?, frames, List.reverse_cons, List.getElem?_append_left (by simpa using below)]

theorem frameAt?_top (context : Context) :
    context.frameAt? context.outer.length = some context.inner := by
  simp [frameAt?, frames]

theorem frameAt?_eq_none_iff (context : Context) (height : Nat) :
    context.frameAt? height = none ↔ context.depth ≤ height := by
  simp [frameAt?, length_frames]

theorem lt_depth_of_frameAt? {context : Context} {height : Nat} {frame : Frame}
    (present : context.frameAt? height = some frame) : height < context.depth := by
  refine Nat.lt_of_not_le fun above => ?_
  rw [(frameAt?_eq_none_iff context height).mpr above] at present
  contradiction

theorem layout_getElem? (context : Context) (height : Nat) :
    context.layout[height]? = (context.frameAt? height).map Frame.kinds := by
  rw [layout, frameAt?, ← List.map_reverse, List.getElem?_map]

theorem length_layout (context : Context) : context.layout.length = context.depth := by
  simp [layout, length_frames]

theorem frameAt?_congr {context other : Context} (same : other.frames = context.frames)
    (height : Nat) : other.frameAt? height = context.frameAt? height := by
  rw [frameAt?, frameAt?, same]

theorem depth_congr {context other : Context} (same : other.frames = context.frames) :
    other.depth = context.depth := by
  rw [← length_frames, ← length_frames, same]

/-! ## What the operations do to a frame -/

theorem frameAt?_enter {context : Context} {height : Nat} (below : height < context.depth) :
    context.enter.frameAt? height = context.frameAt? height :=
  frameAt?_of_lt below

theorem frameAt?_with_inner (context : Context) (inner : Frame) {height : Nat}
    (below : height < context.outer.length) :
    ({ context with inner } : Context).frameAt? height = context.frameAt? height := by
  rw [frameAt?_of_lt below]
  exact frameAt?_of_lt below

theorem depth_of_leave? {context left : Context} (succeeds : context.leave? = some left) :
    left.depth + 1 = context.depth := by
  unfold leave? at succeeds
  split at succeeds
  · contradiction
  · cases succeeds
    simp [depth, *]

theorem frameAt?_of_leave? {context left : Context} (succeeds : context.leave? = some left)
    {height : Nat} (below : height < left.depth) :
    left.frameAt? height = context.frameAt? height := by
  unfold leave? at succeeds
  split at succeeds
  · contradiction
  · next frame outer surrounding =>
    cases succeeds
    have under : height < context.outer.length := by rw [surrounding]; exact below
    rw [frameAt?_of_lt under, surrounding]
    rfl

/-- Truncation to some depth leaves the frames below that depth. -/
theorem frames_truncate (context : Context) {depth : Nat} (positive : 0 < depth) :
    (context.truncate depth).frames = context.frames.drop (context.depth - depth) := by
  have nonempty : context.frames.drop (context.depth - depth) ≠ [] := by
    simp only [ne_eq, List.drop_eq_nil_iff, length_frames]
    have := context.length_frames
    unfold Context.depth at *
    omega
  unfold truncate
  split
  · contradiction
  · next inner outer remaining => rw [remaining]; rfl

theorem depth_truncate (context : Context) {depth : Nat} (positive : 0 < depth) :
    (context.truncate depth).depth = min depth context.depth := by
  rw [← length_frames, frames_truncate context positive, List.length_drop, length_frames]
  omega

theorem frameAt?_truncate (context : Context) {depth height : Nat} (below : height < depth) :
    (context.truncate depth).frameAt? height = context.frameAt? height := by
  have positive : 0 < depth := by omega
  by_cases inside : height < context.depth
  · rw [frameAt?, frameAt?, frames_truncate context positive,
      List.getElem?_reverse (by rw [List.length_drop, length_frames]; omega),
      List.getElem?_reverse (by rw [length_frames]; omega), List.getElem?_drop]
    congr 1
    rw [List.length_drop, length_frames]
    omega
  · rw [(frameAt?_eq_none_iff context height).mpr (by omega), frameAt?_eq_none_iff,
      depth_truncate context positive]
    omega

theorem length_assignIn (name : String) (value : Value) (frames : List Frame) :
    (assignIn name value frames).length = frames.length := by
  induction frames with
  | nil => rfl
  | cons frame outer ih =>
    unfold assignIn
    split
    · rfl
    · simp [ih]

theorem getElem?_assignIn {name : String} {binding : Binding} {frames : List Frame}
    (found : frames.findSome? (·.get? name) = some binding) (mutable : binding.kind ≠ .constant)
    (value : Value) {index : Nat} {frame : Frame} (present : frames[index]? = some frame) :
    ∃ later, (assignIn name value frames)[index]? = some later ∧ frame.Keeps later ∧
      Frame.kinds later = Frame.kinds frame := by
  induction frames generalizing index with
  | nil => simp at present
  | cons first outer ih =>
    cases bound : Entries.get? first name with
    | some inside =>
      -- The walk ends in the frame that binds the name.
      obtain rfl : inside = binding := by simpa [List.findSome?_cons, bound] using found
      cases index with
      | zero =>
        obtain rfl : first = frame := by simpa using present
        exact ⟨_, by simp [assignIn, bound], Frame.keeps_insert_of_bound bound mutable value,
          Frame.kinds_insert_of_bound bound value⟩
      | succ index =>
        exact ⟨frame, by simpa [assignIn, bound] using present, .refl frame, rfl⟩
    | none =>
      have further : outer.findSome? (·.get? name) = some binding := by
        simpa [List.findSome?_cons, bound] using found
      cases index with
      | zero => exact ⟨frame, by simpa [assignIn, bound] using present, .refl frame, rfl⟩
      | succ index =>
        obtain ⟨later, atIndex, result⟩ := ih further (by simpa using present)
        exact ⟨later, by simpa [assignIn, bound] using atIndex, result⟩

theorem frames_assignBinding (context : Context) (name : String) (value : Value) :
    (context.assignBinding name value).frames = assignIn name value context.frames := by
  have same := length_assignIn name value context.frames
  unfold assignBinding
  split
  · next empty =>
    rw [empty, length_frames] at same
    simp [depth] at same
  · next inner outer assigned => rw [assigned]; rfl

theorem depth_assignBinding (context : Context) (name : String) (value : Value) :
    (context.assignBinding name value).depth = context.depth := by
  rw [← length_frames, frames_assignBinding, length_assignIn, length_frames]

theorem globalRecord_assignBinding (context : Context) (name : String) (value : Value) :
    (context.assignBinding name value).globalRecord = context.globalRecord := by
  unfold assignBinding
  split <;> rfl

theorem currentThis_assignBinding (context : Context) (name : String) (value : Value) :
    (context.assignBinding name value).currentThis = context.currentThis := by
  unfold assignBinding
  split <;> rfl

/-- Assigning to a binding that is no constant keeps every frame and its names. -/
theorem frameAt?_assignBinding {context : Context} {name : String} {binding : Binding}
    (found : context.find? name = some binding) (mutable : binding.kind ≠ .constant)
    (value : Value) {height : Nat} {frame : Frame}
    (present : context.frameAt? height = some frame) :
    ∃ later, (context.assignBinding name value).frameAt? height = some later ∧
      frame.Keeps later ∧ Frame.kinds later = Frame.kinds frame := by
  have inside : height < context.frames.length := lt_depth_of_frameAt? present
  rw [frameAt?, List.getElem?_reverse inside] at present
  have outside : height < (context.assignBinding name value).frames.length := by
    rwa [length_frames, depth_assignBinding, ← length_frames]
  rw [frameAt?, List.getElem?_reverse outside, frames_assignBinding, length_assignIn]
  exact getElem?_assignIn found mutable value present

end Context

end ScriptCore
