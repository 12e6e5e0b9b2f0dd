import ScriptCore.Proofs.Scope.Routine

/-! # What a scope restores

Running a body in a scope of its own ends with one truncation to the earlier depth. Frames that the
body left behind are dropped by it; frames of the caller are restored as far down as the body kept
above them. A body that never declares a name or leaves a frame while a frame of the caller is the
innermost one gives the caller back every frame with the names and kinds that it had.
-/

namespace ScriptCore

namespace Context

/-- The lowest frames, as many as counted, are still there with the same names and kinds. -/
structure KeepsLowest (count : Nat) (context later : Context) : Prop where
  depth : count ≤ later.depth
  kinds : ∀ height < count,
    (later.frameAt? height).map Frame.kinds = (context.frameAt? height).map Frame.kinds

namespace KeepsLowest

variable {count : Nat} {first second third : Context}

theorem trans (left : KeepsLowest count first second) (right : KeepsLowest count second third) :
    KeepsLowest count first third :=
  ⟨right.depth, fun height below => (right.kinds height below).trans (left.kinds height below)⟩

theorem enter (bound : count ≤ first.depth) : KeepsLowest count first first.enter :=
  ⟨Nat.le_succ_of_le bound, fun height below => by rw [frameAt?_enter (by omega)]⟩

theorem truncate {depth : Nat} (kept : count ≤ first.depth) (bound : count ≤ depth)
    (positive : 0 < depth) : KeepsLowest count first (first.truncate depth) :=
  ⟨by rw [depth_truncate first positive]; omega,
    fun height below => by rw [frameAt?_truncate first (by omega)]⟩

theorem layout_take (keeps : KeepsLowest count first second) :
    second.layout.take count = first.layout.take count := by
  refine List.ext_getElem? fun height => ?_
  by_cases below : height < count
  · rw [List.getElem?_take_of_lt below, List.getElem?_take_of_lt below, layout_getElem?,
      layout_getElem?, keeps.kinds height below]
  · rw [List.getElem?_eq_none (by rw [List.length_take]; omega),
      List.getElem?_eq_none (by rw [List.length_take]; omega)]

end KeepsLowest

end Context

open Context (KeepsLowest)

theorem ScopeStep.keepsLowest (step : ScopeStep) (realm : Realm) {count : Nat}
    (bound : count ≤ realm.context.depth)
    (spares : (step.moment realm).altersInner → count < realm.context.depth) :
    KeepsLowest count realm.context (step.run realm).2.context := by
  have effect := step.effect realm
  have depth := effect.depth_le
  change _ ≤ _ + (step.moment realm).altersInner.toNat at depth
  have room : count + (step.moment realm).altersInner.toNat ≤ realm.context.depth := by
    cases alters : (step.moment realm).altersInner with
    | true => exact spares alters
    | false => exact bound
  refine ⟨by omega, fun height below => ?_⟩
  obtain ⟨frame, present⟩ : ∃ frame, realm.context.frameAt? height = some frame := by
    rw [← Option.isSome_iff_exists, Option.isSome_iff_ne_none, ne_eq,
      Context.frameAt?_eq_none_iff]
    omega
  obtain ⟨later, atHeight, -, kinds⟩ := effect.frame present (by omega)
  rw [present, atHeight, Option.map_some, Option.map_some]
  exact congrArg some (kinds (by change _ + (step.moment realm).altersInner.toNat < _; omega))

/-- A routine that alters no frame under a height leaves the names and kinds there. -/
theorem Routine.keepsLowest (routine : Routine) (realm : Realm) {count : Nat}
    (bound : count ≤ realm.context.depth)
    (spares : ∀ moment ∈ routine.trace realm, moment.altersInner → count < moment.before.depth) :
    KeepsLowest count realm.context (routine.outcome realm).2.context := by
  induction routine generalizing realm with
  | finish result => exact ⟨bound, fun _ _ => rfl⟩
  | take step next ih =>
    have taken := step.keepsLowest realm bound (spares _ (List.mem_cons_self ..))
    refine taken.trans (ih _ _ taken.depth fun moment member => ?_)
    exact spares moment (List.mem_cons_of_mem _ member)
  | inScope body next ihBody ih =>
    have entered : KeepsLowest count realm.context realm.entered.context := .enter bound
    have inside := ihBody realm.entered entered.depth fun moment member =>
      spares moment (List.mem_append_left _ (List.mem_cons_of_mem _ member))
    have outside : KeepsLowest count realm.context
        ((body.outcome realm.entered).2.truncated realm.context.depth).context :=
      (entered.trans inside).trans (.truncate inside.depth bound realm.context.depth_pos)
    refine outside.trans (ih _ _ outside.depth fun moment member => ?_)
    exact spares moment (List.mem_append_right _ (List.mem_cons_of_mem _ member))

/-- A body that is run in a scope of its own gives its result. Afterwards the stack is no deeper
than before, and no deeper than the body left it. The lowest frames keep their names and kinds up to
any height over which alone the body declares names and leaves frames; if that is the depth of the
caller, then the caller has all its frames back. -/
theorem inScope_restores_layout (body : Routine) (realm : Realm) (registers : Entries Value) :
    ∃ result inside outside,
      body.run ⟨realm.entered, registers⟩ = some (result, ⟨inside, registers⟩) ∧
      Execution.inScope body.run ⟨realm, registers⟩ = some (result, ⟨outside, registers⟩) ∧
      outside.context.depth = min realm.context.depth inside.context.depth ∧
      (∀ count ≤ realm.context.depth,
        (∀ moment ∈ body.trace realm.entered,
          moment.altersInner → count < moment.before.depth) →
        outside.context.layout.take count = realm.context.layout.take count) ∧
      ((∀ moment ∈ body.trace realm.entered,
          moment.altersInner → realm.context.depth < moment.before.depth) →
        outside.context.depth = realm.context.depth ∧
        outside.context.layout = realm.context.layout) := by
  have runs := body.run_apply realm.entered registers
  have depth :=
    Context.depth_truncate (body.outcome realm.entered).2.context realm.context.depth_pos
  have keeps {count : Nat} (bound : count ≤ realm.context.depth)
      (spares : ∀ moment ∈ body.trace realm.entered,
        moment.altersInner → count < moment.before.depth) :
      KeepsLowest count realm.context
        ((body.outcome realm.entered).2.truncated realm.context.depth).context := by
    have entered : KeepsLowest count realm.context realm.entered.context := .enter bound
    have inside := body.keepsLowest realm.entered entered.depth spares
    exact (entered.trans inside).trans (.truncate inside.depth bound realm.context.depth_pos)
  refine ⟨_, _, _, runs, Routine.inScope_apply runs, depth,
    fun count bound spares => (keeps bound spares).layout_take, fun spares => ?_⟩
  have restored := keeps (Nat.le_refl _) spares
  have same := restored.layout_take
  have atMost : ((body.outcome realm.entered).2.truncated realm.context.depth).context.depth ≤
      realm.context.depth := Nat.le_trans (Nat.le_of_eq depth) (Nat.min_le_left ..)
  rw [List.take_of_length_le (by rw [Context.length_layout]; exact atMost),
    List.take_of_length_le (Nat.le_of_eq realm.context.length_layout)] at same
  exact ⟨Nat.le_antisymm atMost restored.depth, same⟩

namespace Routine

/-- Gives `x` a value, declares a constant, leaves a further frame behind and fails. -/
def abandoned : Routine :=
  take (.assign "x" (.number 1) none) fun _ =>
    take (.declare "c" .null .constant none) fun _ =>
      take .enter fun _ =>
        take (.declare "x" .null .mutable none) fun _ =>
          finish (.error ⟨.raised .type "stop", none⟩)

/-- Leaves its own frame and one more. -/
def leavingTwice : Routine := take .leave fun _ => take .leave finish

end Routine

theorem inScope_restores_layout_abandoned :
    let caller := ((ScopeStep.declare "x" .null .mutable none).run Realm.initial.entered).2
    (∀ moment ∈ Routine.abandoned.trace caller.entered,
      moment.altersInner → caller.context.depth < moment.before.depth) ∧
    ∃ result outside,
      Execution.inScope Routine.abandoned.run ⟨caller, .empty⟩ = some (result, outside) ∧
      outside.realm.context.depth = 2 ∧
      outside.realm.context.layout = [[], [("x", .mutable)]] := by
  intro caller
  have spares : ∀ moment ∈ Routine.abandoned.trace caller.entered,
      moment.altersInner → caller.context.depth < moment.before.depth := by decide +kernel
  obtain ⟨_, _, outside, -, runs, -, -, restored⟩ :=
    inScope_restores_layout Routine.abandoned caller .empty
  exact ⟨spares, _, _, runs, (restored spares).1, (restored spares).2.trans (by decide +kernel)⟩

/-- A body may leave frames of its caller, and they stay lost. -/
theorem inScope_loses_left_frames :
    ∃ result outside,
      Execution.inScope Routine.leavingTwice.run ⟨Realm.initial.entered, .empty⟩ =
        some (result, outside) ∧
      Realm.initial.entered.context.depth = 2 ∧ outside.realm.context.depth = 1 :=
  ⟨_, _, Routine.inScope_apply (Routine.leavingTwice.run_apply ..), rfl, rfl⟩

end ScriptCore
