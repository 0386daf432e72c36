import SimplyTyped.Elaboration.Session
import SimplyTyped.Proofs.Elaboration.Derivation

/-!
# Brackets

Between an `enter` and its `leave`, what is in sight follows from the steps taken so far, and
after the `leave` all of it is out of sight again but for the globals.
-/

set_option autoImplicit false

namespace SimplyTyped

theorem ElaboratesProgram.boundAs_names {environment : Environment} {tree : Tree}
    {program : Program} (derived : ElaboratesProgram environment tree program) (scope : Scope) :
    Environment.boundAs scope (program.bindings.map (·.name)) =
      if scope = .global then program.bindings.map (·.name) else [] := by
  induction derived with
  | entry => cases scope <;> rfl
  | letIn _ _ _ ih => cases scope <;> simpa [Environment.boundAs, Environment.globalRef] using ih

namespace Environment

variable {environment : Environment} {steps : List Step} {frame : List Ref}
  {frames : List (List Ref)}

/-! ## Runs of steps -/

theorem after_append (environment : Environment) (before later : List Step) :
    environment.after (before ++ later) = (environment.after before).after later :=
  List.foldl_append

theorem after_cons (environment : Environment) (step : Step) (steps : List Step) :
    environment.after (step :: steps) = (environment.after [step]).after steps := rfl

theorem treesSucceed_append {before later : List Step} :
    environment.TreesSucceed (before ++ later) ↔
      environment.TreesSucceed before ∧ (environment.after before).TreesSucceed later := by
  induction before generalizing environment with
  | nil => simp [TreesSucceed, after]
  | cons step before ih =>
      rw [List.cons_append, TreesSucceed, ih, TreesSucceed, and_assoc]
      rfl

/-! ## What single steps do -/

theorem Step.introduced_of_ok {step : Step} {reply : Reply} {final : Environment}
    (run : step.pass.run environment = (.ok reply, final)) :
    step.introduced environment = reply.introduced := by
  rw [Step.introduced, run]

theorem Step.after_of_run {step : Step} {outcome : Except Error Reply} {final : Environment}
    (run : step.pass.run environment = (outcome, final)) : environment.after [step] = final :=
  congrArg Prod.snd run

theorem Step.run_bindParam_outside (opened : environment.frames = []) (name : Name) (ty : Ty) :
    (Step.bindParam name ty).pass.run environment =
      (.error (.defect (.paramOutsideLambda (environment.paramRef name ty))),
        environment.issue name) := by
  rw [Step.pass, Pass.run_map, Environment.run_bindParam_outside opened]
  rfl

theorem Step.run_bindParam (opened : environment.frames = frame :: frames) (name : Name)
    (ty : Ty) :
    (Step.bindParam name ty).pass.run environment =
      (.ok (.bound (environment.paramRef name ty)),
        { environment.issue name with
          frames := (environment.paramRef name ty :: frame) :: frames }) := by
  rw [Step.pass, Pass.run_map, Environment.run_bindParam opened]
  rfl

theorem Step.run_elaborate {tree : Tree}
    (succeeds : (Step.elaborate tree).TreeSucceeds environment) :
    ∃ program, ElaboratesProgram environment tree program ∧
      (Step.elaborate tree).pass.run environment = (.ok (.elaborated program),
        environment.withBindings tree.binders (program.bindings.map (·.name))) := by
  obtain ⟨program, outcome⟩ := succeeds
  obtain ⟨derived, -⟩ := Tree.run_elaborateProgram_eq_ok_iff.mp (Prod.ext outcome rfl)
  exact ⟨program, derived, Pass.run_map_eq_ok.mpr
    ⟨program, Tree.run_elaborateProgram_eq_ok_iff.mpr ⟨derived, rfl⟩, rfl⟩⟩

theorem Step.globals_after {step : Step} (succeeds : step.TreeSucceeds environment) :
    (environment.after [step]).globals =
      (boundAs .global (step.introduced environment)).reverse ++ environment.globals := by
  cases step with
  | enter | leave | resolve | policy | bindGlobal => rfl
  | bindParam name ty =>
      cases opened : environment.frames with
      | nil =>
          have run := run_bindParam_outside opened name ty
          rw [Step.introduced, after_of_run run, run]
          rfl
      | cons =>
          have run := run_bindParam opened name ty
          rw [introduced_of_ok run, after_of_run run]
          rfl
  | elaborate tree =>
      obtain ⟨program, derived, run⟩ := run_elaborate succeeds
      rw [introduced_of_ok run, after_of_run run, Reply.introduced, derived.boundAs_names]
      rfl

/-- The innermost frame gets the parameters that a step brings into sight, and no other frame
changes. -/
theorem Step.frames_after {step : Step} (notEnter : step ≠ .enter) (notLeave : step ≠ .leave)
    (succeeds : step.TreeSucceeds environment) (opened : environment.frames = frame :: frames) :
    (environment.after [step]).frames =
      ((boundAs .param (step.introduced environment)).reverse ++ frame) :: frames := by
  cases step with
  | enter => exact absurd rfl notEnter
  | leave => exact absurd rfl notLeave
  | resolve | policy | bindGlobal => exact opened
  | bindParam name ty =>
      have run := run_bindParam opened name ty
      rw [introduced_of_ok run, after_of_run run]
      rfl
  | elaborate tree =>
      obtain ⟨program, derived, run⟩ := run_elaborate succeeds
      rw [introduced_of_ok run, after_of_run run, Reply.introduced, derived.boundAs_names]
      exact opened

/-! ## What runs of steps do -/

theorem globals_after (succeed : environment.TreesSucceed steps) :
    (environment.after steps).globals =
      (boundAs .global (environment.introduced steps)).reverse ++ environment.globals := by
  induction steps generalizing environment with
  | nil => rfl
  | cons step steps ih =>
      rw [after_cons, ih succeed.2, Step.globals_after succeed.1]
      simp [introduced, boundAs]

theorem frames_after_bracket {inner : List Step}
    (inside : (environment.enter.after inner).frames = frame :: environment.frames) :
    (environment.after (.enter :: inner ++ [.leave])).frames = environment.frames := by
  rw [after_append]
  exact congrArg List.tail inside

theorem Fills.frames_after {refs : List Ref} (fills : Fills environment steps refs)
    (succeed : environment.TreesSucceed steps) (opened : environment.frames = frame :: frames) :
    (environment.after steps).frames = (refs.reverse ++ frame) :: frames := by
  induction fills generalizing frame frames with
  | nil => exact opened
  | @bracket environment inner hidden rest refs _ _ innerIH restIH =>
      rw [List.append_cons, treesSucceed_append, treesSucceed_append] at succeed
      obtain ⟨⟨inside, -⟩, outside⟩ := succeed
      have closed := frames_after_bracket (innerIH inside.2 rfl)
      rw [List.append_cons, after_append]
      exact restIH outside (closed.trans opened)
  | @step environment step rest refs notEnter notLeave _ ih =>
      rw [after_cons, ih succeed.2 (Step.frames_after notEnter notLeave succeed.1 opened)]
      simp

/-- The frames that steps leave open stand in front of those that were open before. -/
theorem StillOpen.frames_after {left : List (List Ref)} (still : StillOpen environment steps left)
    (succeed : environment.TreesSucceed steps) (entered : environment.frames = [] :: frames) :
    (environment.after steps).frames = left.map List.reverse ++ frames := by
  induction still generalizing frames with
  | inside fills => simpa using fills.frames_after succeed entered
  | @deeper environment steps refs later left fills _ ih =>
      obtain ⟨first, inner⟩ := treesSucceed_append.mp succeed
      rw [after_append]
      refine (ih inner.2 rfl).trans ?_
      simp [fills.frames_after first entered]

/-! ## Where a balanced run is interrupted -/

theorem Balanced.exists_fills (balanced : Balanced steps) (environment : Environment) :
    ∃ refs, Fills environment steps refs := by
  induction balanced generalizing environment with
  | nil => exact ⟨[], .nil⟩
  | @bracket inner rest _ _ innerIH restIH =>
      obtain ⟨hidden, fills⟩ := innerIH environment.enter
      obtain ⟨refs, others⟩ := restIH (environment.after (.enter :: inner ++ [.leave]))
      exact ⟨refs, .bracket fills others⟩
  | @step step rest notEnter notLeave _ ih =>
      obtain ⟨refs, fills⟩ := ih (environment.after [step])
      exact ⟨_, .step notEnter notLeave fills⟩

theorem StillOpen.step {step : Step} {left : List (List Ref)} (notEnter : step ≠ .enter)
    (notLeave : step ≠ .leave) (still : StillOpen (environment.after [step]) steps left) :
    ∃ left, StillOpen environment (step :: steps) left := by
  cases still with
  | inside fills => exact ⟨_, .inside (.step notEnter notLeave fills)⟩
  | @deeper _ steps refs later left fills inner =>
      have first : Fills environment (step :: steps) _ := .step notEnter notLeave fills
      exact ⟨_, .deeper first inner⟩

theorem StillOpen.bracket {inner : List Step} {hidden : List Ref} {left : List (List Ref)}
    (fills : Fills environment.enter inner hidden)
    (still : StillOpen (environment.after (.enter :: inner ++ [.leave])) steps left) :
    ∃ left, StillOpen environment (.enter :: inner ++ .leave :: steps) left := by
  cases still with
  | inside others => exact ⟨_, .inside (.bracket fills others)⟩
  | @deeper _ steps refs later left others deeper =>
      rw [← after_append, List.append_assoc] at deeper
      exact ⟨left ++ [refs], by simpa using StillOpen.deeper (.bracket fills others) deeper⟩

/-- Wherever balanced steps are interrupted, the frames that are open then are of their own. -/
theorem Balanced.exists_stillOpen (balanced : Balanced steps) {upTo : List Step}
    (begins : upTo <+: steps) (environment : Environment) :
    ∃ left, StillOpen environment upTo left := by
  induction balanced generalizing environment upTo with
  | nil =>
      obtain rfl := List.prefix_nil.mp begins
      exact ⟨_, .inside .nil⟩
  -- The steps end before the bracket, in it, right before its `leave`, or behind it.
  | @bracket inner rest innerBalanced _ innerIH restIH =>
      have deeper {upTo : List Step} (within : upTo <+: inner) :
          ∃ left, StillOpen environment (.enter :: upTo) left := by
        obtain ⟨left, still⟩ := innerIH within environment.enter
        exact ⟨left ++ [[]], .deeper .nil still⟩
      rcases List.prefix_cons_iff.mp begins with rfl | ⟨upTo, rfl, shorter⟩
      · exact ⟨_, .inside .nil⟩
      · rcases List.prefix_or_prefix_of_prefix shorter (List.prefix_append ..) with within | past
        · exact deeper within
        · obtain ⟨further, rfl⟩ := past
          have ahead := (List.prefix_append_right_inj inner).mp shorter
          rcases List.prefix_cons_iff.mp ahead with rfl | ⟨further, rfl, within⟩
          · exact deeper (by simp)
          · obtain ⟨hidden, fills⟩ := innerBalanced.exists_fills environment.enter
            obtain ⟨left, still⟩ := restIH within (environment.after (.enter :: inner ++ [.leave]))
            exact still.bracket fills
  | @step step rest notEnter notLeave _ ih =>
      rcases List.prefix_cons_iff.mp begins with rfl | ⟨upTo, rfl, shorter⟩
      · exact ⟨_, .inside .nil⟩
      · obtain ⟨left, still⟩ := ih shorter (environment.after [step])
        exact still.step notEnter notLeave

/-! ## Looking up -/

theorem latest_eq_find? (name : Name) (refs : List Ref) :
    latest name refs = refs.reverse.find? (·.name = name) := by
  rw [latest, List.getLast?_eq_head?_reverse, ← List.filter_reverse, List.head?_filter]

theorem latest_append (name : Name) (refs more : List Ref) :
    latest name (refs ++ more) = (latest name more).or (latest name refs) := by
  simp [latest_eq_find?]

theorem findSome?_latest_eq_none_iff {name : Name} :
    (frames.map List.reverse).findSome? (latest name) = none ↔
      ¬ ∃ frame ∈ frames, ∃ ref ∈ frame, ref.name = name := by
  simp only [List.findSome?_map, List.findSome?_eq_none_iff, Function.comp_apply, latest_eq_find?,
    List.reverse_reverse, List.find?_eq_none, decide_eq_true_eq, not_exists, not_and]

/-- Frames are searched from the innermost outwards, and the globals last. -/
theorem resolve?_eq {left : List (List Ref)} {globals : List Ref}
    (frames : environment.frames = left.map List.reverse)
    (latestFirst : environment.globals = globals.reverse) (name : Name) :
    environment.resolve? name = (left.findSome? (latest name)).or (latest name globals) := by
  rw [resolve?, visible, frames, latestFirst, List.find?_append, List.find?_flatten,
    List.findSome?_map, latest_eq_find?]
  congr 1
  exact congrArg (left.findSome? ·) (funext fun refs => (latest_eq_find? name refs).symm)

/-- A bracket leaves the frames as they were and takes all its parameters out of sight again, so
that a name means what it meant before, or the latest global of the bracket where no open frame
binds it. Inside, a name means the latest parameter in the innermost open frame that binds it,
and the latest global if there is none. -/
theorem bracket_restores {environment : Environment} {inner : List Step}
    (balanced : Balanced inner) (succeed : environment.enter.TreesSucceed inner) :
    let steps := .enter :: inner ++ [.leave]
    let bound (steps : List Step) := boundAs .global (environment.introduced steps)
    (environment.after steps).frames = environment.frames ∧
    (∀ name, (environment.after steps).resolve? name =
      if ∃ frame ∈ environment.frames, ∃ ref ∈ frame, ref.name = name then
        environment.resolve? name
      else (latest name (bound steps)).or (environment.resolve? name)) ∧
    ∀ upTo, upTo <+: inner →
      (∃ left, StillOpen environment.enter upTo left) ∧
      ∀ left name, StillOpen environment.enter upTo left →
        (environment.after (.enter :: upTo)).resolve? name =
          ((left ++ environment.frames.map List.reverse).findSome? (latest name)).or
            (latest name (environment.globals.reverse ++ bound (.enter :: upTo))) := by
  intro steps bound
  obtain ⟨refs, fills⟩ := balanced.exists_fills environment.enter
  have closed : (environment.after steps).frames = environment.frames :=
    frames_after_bracket (fills.frames_after succeed rfl)
  have whole : environment.TreesSucceed steps :=
    treesSucceed_append.mpr ⟨⟨trivial, succeed⟩, trivial, trivial⟩
  have reversed : environment.frames = (environment.frames.map List.reverse).map List.reverse := by
    rw [List.map_map]
    exact (List.map_id'' List.reverse_reverse _).symm
  refine ⟨closed, fun name => ?names, fun upTo begins => ⟨?opened, fun left name still => ?inside⟩⟩
  case names =>
    have gained : (environment.after steps).globals =
        (environment.globals.reverse ++ bound steps).reverse := by
      simp [bound, globals_after whole]
    rw [resolve?_eq (closed.trans reversed) gained, latest_append,
      resolve?_eq reversed (List.reverse_reverse _).symm]
    split
    -- A frame that was open before hides all globals, so that the new ones make no difference.
    · next inFrame =>
        have hidden := mt findSome?_latest_eq_none_iff.mp (not_not_intro inFrame)
        obtain ⟨found, first⟩ := Option.ne_none_iff_exists'.mp hidden
        rw [first, Option.some_or, Option.some_or]
    · next unbound =>
        rw [findSome?_latest_eq_none_iff.mpr unbound, Option.none_or, Option.none_or]
  case opened => exact balanced.exists_stillOpen begins environment.enter
  case inside =>
    obtain ⟨later, rfl⟩ := begins
    have soFar : environment.TreesSucceed (.enter :: upTo) :=
      ⟨trivial, (treesSucceed_append.mp succeed).1⟩
    refine resolve?_eq ?_ ?_ name
    · rw [List.map_append, ← reversed]
      exact still.frames_after soFar.2 rfl
    · simp [bound, globals_after soFar]

/-- In the bracket, `y` becomes a parameter and, out of a tree further in, a global. Behind it only
the global is left, and `x` is the parameter again that it was before. -/
theorem bracket_restores_rebound :
    let x : Name := ⟨"x"⟩
    let y : Name := ⟨"y"⟩
    let environment : Environment :=
      ⟨.keep, [y, x], [[⟨x, 0, .int, .param⟩]], [⟨y, 0, .bool, .global⟩]⟩
    let upTo : List Step :=
      [.bindParam y .int, .bindGlobal x .bool, .enter, .bindParam x .bool]
    let tree : Tree := .letIn y (.int 1) (.lambda [⟨x, some .int⟩] (.app (.var ⟨"f"⟩) [.var x]))
    let inner : List Step := upTo ++ [.elaborate tree, .leave, .resolve y]
    let steps : List Step := .enter :: inner ++ [.leave]
    Balanced inner ∧ environment.enter.TreesSucceed inner ∧
      (environment.after steps).frames = environment.frames ∧
      (environment.after steps).resolve? x = some ⟨x, 0, .int, .param⟩ ∧
      (environment.after steps).resolve? y = some ⟨y, 2, .int, .global⟩ ∧
      StillOpen environment.enter upTo [[⟨x, 2, .bool, .param⟩], [⟨y, 1, .int, .param⟩]] ∧
      (environment.after (.enter :: upTo)).resolve? x = some ⟨x, 2, .bool, .param⟩ := by
  intro x y environment upTo tree inner steps
  have nested : Balanced [.bindParam x .bool, .elaborate tree] :=
    .step nofun nofun (.step nofun nofun .nil)
  have last : Balanced [.resolve y] := .step nofun nofun .nil
  have bracket : Balanced [.enter, .bindParam x .bool, .elaborate tree, .leave, .resolve y] :=
    .bracket nested last
  have balanced : Balanced inner := .step nofun nofun (.step nofun nofun bracket)
  have succeed : environment.enter.TreesSucceed inner :=
    ⟨trivial, trivial, trivial, trivial, ⟨_, rfl⟩, trivial, trivial, trivial⟩
  have outer : Fills environment.enter [.bindParam y .int, .bindGlobal x .bool]
      [⟨y, 1, .int, .param⟩] := .step nofun nofun (.step nofun nofun .nil)
  have innermost : Fills (environment.enter.after [.bindParam y .int, .bindGlobal x .bool]).enter
      [.bindParam x .bool] [⟨x, 2, .bool, .param⟩] := .step nofun nofun .nil
  have still : StillOpen environment.enter upTo
      [[⟨x, 2, .bool, .param⟩], [⟨y, 1, .int, .param⟩]] := .deeper outer (.inside innermost)
  obtain ⟨frames, names, inside⟩ := bracket_restores balanced succeed
  exact ⟨balanced, succeed, frames, (names x).trans rfl, (names y).trans rfl, still,
    ((inside upTo ⟨_, rfl⟩).2 _ x still).trans rfl⟩

end Environment

end SimplyTyped
