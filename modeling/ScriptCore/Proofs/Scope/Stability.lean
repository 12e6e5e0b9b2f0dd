import ScriptCore.Proofs.Scope.Resolution
import ScriptCore.Proofs.Scope.Routine

/-! # Stability of bindings

A frame lives from the moment it is entered until the stack is at its height again. While it lives
every binding in it stays, with its kind, and a constant keeps its value; whatever else a routine
does, failing or not, inside scopes or outside them. What one moment keeps is read off the effect of
its step; a run is a walk through such moments.
-/

namespace ScriptCore

namespace Context

/-- Every frame that is not popped keeps its bindings. -/
def Keeps (context later : Context) : Prop :=
  ∀ height frame, context.frameAt? height = some frame → height < later.depth →
    ∃ laterFrame, later.frameAt? height = some laterFrame ∧ frame.Keeps laterFrame

theorem Keeps.of_frameAt? {context later : Context}
    (same : ∀ height < context.depth, height < later.depth →
      later.frameAt? height = context.frameAt? height) : context.Keeps later := by
  intro height frame present within
  have below := lt_depth_of_frameAt? present
  exact ⟨frame, (same height below within).trans present, .refl frame⟩

theorem Keeps.binding {context later : Context} (keeps : context.Keeps later) {height : Nat}
    {name : String} {binding : Binding} (bound : context.bindingAt? height name = some binding)
    (within : height < later.depth) :
    ∃ persisting, later.bindingAt? height name = some persisting ∧
      binding.Persists persisting := by
  obtain ⟨frame, present, found⟩ := Option.bind_eq_some_iff.mp bound
  obtain ⟨laterFrame, atHeight, kept⟩ := keeps height frame present within
  obtain ⟨persisting, laterFound, persists⟩ := kept name binding found
  exact ⟨persisting, by rw [bindingAt?, atHeight]; exact laterFound, persists⟩

/-- A binding under no other binding of its name is the one that the name is looked up to. -/
theorem find?_of_bindingAt? {context : Context} {height : Nat} {name : String} {binding : Binding}
    (bound : context.bindingAt? height name = some binding)
    (uncovered : ∀ above, height < above → context.bindingAt? above name = none) :
    context.find? name = some binding :=
  find?_eq_some_iff.mpr ⟨height, bound, uncovered⟩

end Context

/-! ## Moments -/

/-- The forms that a moment of a run can have. -/
inductive Moment.Possible : Moment → Prop
  | taken (step : ScopeStep) (realm : Realm) : Possible (step.moment realm)
  | opened (context : Context) : Possible ⟨context, none, context.enter⟩
  | closed (context : Context) {depth : Nat} (positive : 0 < depth) :
      Possible ⟨context, none, context.truncate depth⟩

theorem ScopeStep.keeps_moment (step : ScopeStep) (realm : Realm) :
    realm.context.Keeps (step.run realm).2.context := by
  intro height frame present within
  obtain ⟨later, atHeight, keeps, -⟩ := (step.effect realm).frame present within
  exact ⟨later, atHeight, keeps⟩

theorem Moment.Possible.keeps {moment : Moment} (possible : moment.Possible) :
    moment.before.Keeps moment.after := by
  cases possible with
  | taken step realm => exact step.keeps_moment realm
  | opened context => exact .of_frameAt? fun height below _ => Context.frameAt?_enter below
  | closed context positive =>
    refine .of_frameAt? fun height _ within => Context.frameAt?_truncate context ?_
    rw [Context.depth_truncate context positive] at within
    omega

/-- A declaration that succeeds puts its binding into the innermost frame. -/
theorem Moment.Possible.declared {moment : Moment} (possible : moment.Possible) {name : String}
    {value : Value} {kind : BindingKind} {range : Option SourceRange} {answer : Value}
    (taken : moment.taken? = some (.declare name value kind range, .ok answer)) :
    moment.after.depth = moment.before.depth ∧
      moment.after.bindingAt? (moment.before.depth - 1) name = some ⟨value, kind⟩ := by
  cases possible with
  | opened | closed => contradiction
  | taken step realm =>
    obtain ⟨rfl, succeeds⟩ := Prod.ext_iff.mp (Option.some.inj taken)
    simp only [ScopeStep.moment, ScopeStep.run, Action.bind_apply, Realm.declareName_apply] at *
    cases bound : realm.context.inner.contains name with
    | true =>
      rw [bound] at succeeds
      contradiction
    | false =>
      refine ⟨rfl, ?_⟩
      change (Context.frameAt? _ realm.context.outer.length).bind _ = _
      exact (congrArg (Option.bind · _) (Context.frameAt?_top _)).trans
        (Entries.get?_insert_self ..)

theorem Routine.possible_of_mem_trace (routine : Routine) (realm : Realm) :
    ∀ moment ∈ routine.trace realm, moment.Possible := by
  induction routine generalizing realm with
  | finish result => simp [trace]
  | take step next ih =>
    intro moment member
    rcases List.mem_cons.mp member with rfl | later
    · exact .taken step realm
    · exact ih _ _ moment later
  | inScope body next ihBody ih =>
    intro moment member
    rcases List.mem_append.mp member with opening | closing
    · rcases List.mem_cons.mp opening with rfl | inside
      · exact .opened realm.context
      · exact ihBody _ moment inside
    · rcases List.mem_cons.mp closing with rfl | later
      · exact .closed _ realm.context.depth_pos
      · exact ih _ _ moment later

/-! ## Walks -/

/-- Each moment begins with the context in which the one before it ended. -/
def IsWalk : Context → List Moment → Context → Prop
  | start, [], finish => start = finish
  | start, moment :: rest, finish => moment.before = start ∧ IsWalk moment.after rest finish

theorem isWalk_append {start finish : Context} {first second : List Moment} :
    IsWalk start (first ++ second) finish ↔
      ∃ middle, IsWalk start first middle ∧ IsWalk middle second finish := by
  induction first generalizing start with
  | nil => simp [IsWalk]
  | cons moment rest ih => simp [IsWalk, ih, and_assoc]

theorem Routine.isWalk_trace (routine : Routine) (realm : Realm) :
    IsWalk realm.context (routine.trace realm) (routine.outcome realm).2.context := by
  induction routine generalizing realm with
  | finish result => rfl
  | take step next ih => exact ⟨rfl, ih _ _⟩
  | inScope body next ihBody ih =>
    refine isWalk_append.mpr ⟨(body.outcome realm.entered).2.context, ⟨rfl, ihBody _⟩, rfl, ?_⟩
    exact ih _ _

/-- Along a walk that stays above a frame, a binding in the frame persists. -/
theorem IsWalk.binding_persists {start finish : Context} {moments : List Moment}
    (walk : IsWalk start moments finish) (possible : ∀ moment ∈ moments, moment.Possible)
    {height : Nat} (above : ∀ moment ∈ moments, height < moment.after.depth) {name : String}
    {binding : Binding} (bound : start.bindingAt? height name = some binding) :
    ∀ moment ∈ moments, ∃ persisting,
      moment.after.bindingAt? height name = some persisting ∧ binding.Persists persisting := by
  induction moments generalizing start binding with
  | nil => simp
  | cons first rest ih =>
    obtain ⟨rfl, tail⟩ := walk
    obtain ⟨next, found, persists⟩ :=
      (possible first (List.mem_cons_self ..)).keeps.binding bound
        (above first (List.mem_cons_self ..))
    intro moment member
    rcases List.mem_cons.mp member with rfl | later
    · exact ⟨next, found, persists⟩
    · obtain ⟨persisting, laterFound, further⟩ :=
        ih tail (fun other present => possible other (List.mem_cons_of_mem _ present))
          (fun other present => above other (List.mem_cons_of_mem _ present)) found moment later
      exact ⟨persisting, laterFound, persists.trans further⟩

/-- A run is a walk in which the stack always has a frame. What a declaration binds stays bound in
its frame, with its kind, for as long as the stack does not sink below that frame; and a constant
keeps its value and, where no frame further in binds its name, reads as that value. -/
theorem declared_binding_persists (routine : Routine) (realm : Realm)
    (registers : Entries Value) :
    (∃ result final, routine.run ⟨realm, registers⟩ = some (result, ⟨final, registers⟩) ∧
      IsWalk realm.context (routine.trace realm) final.context) ∧
    (∀ moment ∈ routine.trace realm, 1 ≤ moment.before.depth ∧ 1 ≤ moment.after.depth) ∧
    ∀ past declared since future name value kind range answer,
      routine.trace realm = past ++ declared :: since ++ future →
      declared.taken? = some (.declare name value kind range, .ok answer) →
      (∀ moment ∈ since, declared.before.depth ≤ moment.after.depth) →
      ∀ moment ∈ declared :: since, ∃ binding,
        moment.after.bindingAt? (declared.before.depth - 1) name = some binding ∧
        binding.kind = kind ∧
        (kind = .constant →
          binding.value = value ∧
          ((∀ height, declared.before.depth ≤ height →
              moment.after.bindingAt? height name = none) →
            ∀ heap place, Realm.readName name place ⟨heap, moment.after⟩ =
              (.ok value, ⟨heap, moment.after⟩))) := by
  refine ⟨⟨_, _, routine.run_apply realm registers, routine.isWalk_trace realm⟩,
    fun moment _ => ⟨moment.before.depth_pos, moment.after.depth_pos⟩, ?_⟩
  intro past declared since future name value kind range answer split taken alive moment member
  have possible := routine.possible_of_mem_trace realm
  rw [split] at possible
  have walk := routine.isWalk_trace realm
  rw [split, List.append_assoc] at walk
  obtain ⟨start, -, -, walk⟩ := isWalk_append.mp walk
  obtain ⟨finish, walk, -⟩ := isWalk_append.mp walk
  obtain ⟨depth, bound⟩ := (possible declared (by simp)).declared taken
  have positive := declared.before.depth_pos
  have persisting : ∃ binding,
      moment.after.bindingAt? (declared.before.depth - 1) name = some binding ∧
        Binding.Persists ⟨value, kind⟩ binding := by
    rcases List.mem_cons.mp member with rfl | later
    · exact ⟨_, bound, .refl _⟩
    · refine walk.binding_persists (fun other present => possible other (by simp [present]))
        (fun other present => ?_) bound moment later
      have := alive other present
      omega
  obtain ⟨binding, found, sameKind, unchanged⟩ := persisting
  refine ⟨binding, found, sameKind, fun constant => ?_⟩
  have sameValue : binding.value = value := by rw [unchanged constant]
  refine ⟨sameValue, fun uncovered heap place => ?_⟩
  have visible := Context.find?_of_bindingAt? found fun height above => uncovered height (by omega)
  simp only [Realm.readName_apply, visible, sameValue]

/-- Declares a constant, fails to assign it, covers it inside a scope and leaves its frame. -/
def Routine.covering : Routine :=
  take (.declare "c" (.number 1) .constant none) fun _ =>
    take (.assign "c" .null none) fun _ =>
      inScope (take (.declare "c" .null .mutable none) finish) fun _ =>
        take .leave finish

theorem declared_binding_persists_covering :
    let moments := Routine.covering.trace Realm.initial.entered
    ∃ declared, moments = [] ++ declared :: (moments.drop 1).take 4 ++ moments.drop 5 ∧
      declared.taken? = some (.declare "c" (.number 1) .constant none, .ok .undefined) ∧
      (∀ moment ∈ (moments.drop 1).take 4, declared.before.depth ≤ moment.after.depth) ∧
      ∀ moment ∈ declared :: (moments.drop 1).take 4, ∃ binding,
        moment.after.bindingAt? 1 "c" = some binding ∧ binding.kind = .constant ∧
        binding.value = .number 1 := by
  intro moments
  have split : moments = [] ++
      (ScopeStep.declare "c" (.number 1) .constant none).moment Realm.initial.entered ::
        (moments.drop 1).take 4 ++ moments.drop 5 := rfl
  have alive : ∀ moment ∈ (moments.drop 1).take 4, 2 ≤ moment.after.depth := by decide +kernel
  refine ⟨_, split, rfl, alive, fun moment member => ?_⟩
  obtain ⟨binding, found, sameKind, constant⟩ :=
    (declared_binding_persists Routine.covering Realm.initial.entered .empty).2.2
      _ _ _ _ _ _ _ _ _ split rfl alive moment member
  exact ⟨binding, found, sameKind, (constant rfl).1⟩

end ScriptCore
