import Mathlib.Tactic.SplitIfs
import ScriptCore.Proofs.Scope.Frames

/-! # Where a name is bound

A name resolves to the highest frame that binds it. Looking a name up finds that binding, and
assigning the name replaces the value there and leaves all other bindings as they were, those of the
same name in frames further out included.
-/

namespace ScriptCore

namespace Context

variable {context other : Context} {name : String} {height : Nat} {binding : Binding}

/-- The frame at a height binds the name, and no frame further in does. -/
structure Resolves (context : Context) (name : String) (height : Nat) (binding : Binding) :
    Prop where
  bound : context.bindingAt? height name = some binding
  uncovered : ∀ above, height < above → context.bindingAt? above name = none

/-- No frame binds the name. -/
def Unbound (context : Context) (name : String) : Prop :=
  ∀ height, context.bindingAt? height name = none

theorem bindingAt?_congr (same : other.frameAt? height = context.frameAt? height) (name : String) :
    other.bindingAt? height name = context.bindingAt? height name := by
  rw [bindingAt?, same]
  rfl

theorem bindingAt?_of_le (above : context.depth ≤ height) (name : String) :
    context.bindingAt? height name = none := by
  rw [bindingAt?, (frameAt?_eq_none_iff context height).mpr above]
  rfl

theorem frameAt?_of_split {inside outside : List Frame} {frame : Frame}
    (split : context.frames = inside ++ frame :: outside) (height : Nat) :
    context.frameAt? height = (outside.reverse ++ frame :: inside.reverse)[height]? := by
  simp [frameAt?, split]

theorem Resolves.of_split {inside outside : List Frame} {frame : Frame}
    (split : context.frames = inside ++ frame :: outside)
    (found : frame.get? name = some binding)
    (free : ∀ covering ∈ inside, Entries.get? covering name = none) :
    context.Resolves name outside.length binding := by
  constructor
  · rw [bindingAt?, frameAt?_of_split split, List.getElem?_append_right (by simp)]
    simpa using found
  · intro above higher
    rw [bindingAt?, frameAt?_of_split split, List.getElem?_append_right (by simp; omega)]
    obtain ⟨index, rfl⟩ : ∃ index, above = outside.length + (index + 1) :=
      ⟨above - outside.length - 1, by omega⟩
    rw [List.length_reverse, Nat.add_sub_cancel_left, List.getElem?_cons_succ]
    cases covering : inside.reverse[index]? with
    | none => rfl
    | some frame =>
      apply free
      exact List.mem_reverse.mp (List.mem_of_getElem? covering)

theorem Resolves.unique (resolves : context.Resolves name height binding) {place : Nat}
    {present : Binding} (again : context.Resolves name place present) :
    place = height ∧ present = binding := by
  have same : place = height := by
    rcases Nat.lt_trichotomy place height with lower | same | higher
    · have free := again.uncovered height lower
      rw [resolves.bound] at free
      contradiction
    · exact same
    · have free := resolves.uncovered place higher
      rw [again.bound] at free
      contradiction
  subst same
  exact ⟨rfl, Option.some.inj (again.bound.symm.trans resolves.bound)⟩

theorem Resolves.not_unbound (resolves : context.Resolves name height binding) :
    ¬ context.Unbound name := by
  intro unbound
  have free := unbound height
  rw [resolves.bound] at free
  contradiction

theorem find?_eq_none_iff : context.find? name = none ↔ context.Unbound name := by
  simp only [find?, List.findSome?_eq_none_iff, Unbound, bindingAt?, frameAt?]
  constructor
  · intro free height
    cases present : context.frames.reverse[height]? with
    | none => rfl
    | some frame => exact free frame (List.mem_reverse.mp (List.mem_of_getElem? present))
  · intro free frame member
    obtain ⟨height, present⟩ := List.mem_iff_getElem?.mp (List.mem_reverse.mpr member)
    simpa only [present, Option.bind_some] using free height

theorem find?_eq_some_iff :
    context.find? name = some binding ↔ ∃ height, context.Resolves name height binding := by
  constructor
  · intro found
    obtain ⟨inside, frame, outside, split, bound, free⟩ := List.findSome?_eq_some_iff.mp found
    exact ⟨outside.length, .of_split split bound free⟩
  · rintro ⟨height, resolves⟩
    cases found : context.find? name with
    | none =>
      exact absurd (find?_eq_none_iff.mp found) resolves.not_unbound
    | some present =>
      obtain ⟨inside, frame, outside, split, bound, free⟩ := List.findSome?_eq_some_iff.mp found
      exact congrArg some (resolves.unique (.of_split split bound free)).2

/-- What a name is looked up to depends on its own bindings alone. -/
theorem find?_congr
    (same : ∀ height, other.bindingAt? height name = context.bindingAt? height name) :
    other.find? name = context.find? name := by
  cases found : context.find? name with
  | none =>
    rw [find?_eq_none_iff] at found ⊢
    intro height
    rw [same, found height]
  | some binding =>
    obtain ⟨height, resolves⟩ := find?_eq_some_iff.mp found
    rw [find?_eq_some_iff]
    refine ⟨height, (same height).trans resolves.bound, ?_⟩
    intro above higher
    rw [same, resolves.uncovered above higher]

/-! ## Assigning a name -/

theorem assignIn_split (inside outside : List Frame) {frame : Frame}
    (found : frame.get? name = some binding)
    (free : ∀ covering ∈ inside, Entries.get? covering name = none) (value : Value) :
    assignIn name value (inside ++ frame :: outside) =
      inside ++ frame.insert name { binding with value } :: outside := by
  induction inside with
  | nil => simp only [List.nil_append, assignIn, found]
  | cons covering rest ih =>
    simp only [List.cons_append, assignIn, free covering (List.mem_cons_self ..)]
    rw [ih fun frame member => free frame (List.mem_cons_of_mem _ member)]

/-- An assignment replaces one value in the frame to which the name resolves. -/
theorem Resolves.frameAt?_assignBinding (resolves : context.Resolves name height binding)
    (value : Value) :
    ∃ frame, context.frameAt? height = some frame ∧ frame.get? name = some binding ∧
      ∀ place, (context.assignBinding name value).frameAt? place =
        if place = height then some (frame.insert name { binding with value })
        else context.frameAt? place := by
  obtain ⟨inside, frame, outside, split, found, free⟩ :=
    List.findSome?_eq_some_iff.mp (find?_eq_some_iff.mpr ⟨height, resolves⟩)
  obtain ⟨rfl, -⟩ := resolves.unique (.of_split split found free)
  have assigned : (context.assignBinding name value).frames =
      inside ++ frame.insert name { binding with value } :: outside := by
    rw [frames_assignBinding, split, assignIn_split inside outside found free]
  refine ⟨frame, by simp [frameAt?_of_split split], found, ?_⟩
  intro place
  have replaced : outside.reverse ++ frame.insert name { binding with value } :: inside.reverse =
      (outside.reverse ++ frame :: inside.reverse).set outside.length
        (frame.insert name { binding with value }) := by
    rw [List.set_append_right _ _ (by simp)]
    simp
  rw [frameAt?_of_split assigned, frameAt?_of_split split, replaced, List.getElem?_set]
  simp [eq_comm]

/-- An assignment changes no binding but that to which the name resolves. -/
theorem Resolves.bindingAt?_assignBinding (resolves : context.Resolves name height binding)
    (value : Value) (place : Nat) (present : String) :
    (context.assignBinding name value).bindingAt? place present =
      if place = height ∧ present = name then some { binding with value }
      else context.bindingAt? place present := by
  obtain ⟨frame, atHeight, -, assigned⟩ := resolves.frameAt?_assignBinding value
  simp only [bindingAt?, assigned]
  by_cases here : place = height
  · subst here
    simp [atHeight, Entries.get?_insert, eq_comm]
  · simp [here]

theorem Resolves.layout_assignBinding (resolves : context.Resolves name height binding)
    (value : Value) : (context.assignBinding name value).layout = context.layout := by
  obtain ⟨frame, atHeight, found, assigned⟩ := resolves.frameAt?_assignBinding value
  apply List.ext_getElem?
  intro place
  rw [layout_getElem?, layout_getElem?, assigned]
  split_ifs with here
  · subst here
    rw [atHeight]
    exact congrArg some (Frame.kinds_insert_of_bound found value)
  · rfl

end Context

end ScriptCore
