import SimplyTyped.Proofs.Elaboration.Declarations

/-!
# Indices in the order of the requests

`Issues before refs after` follows the indices in use from one request to the next. Whatever
is run on an environment hands out what it asks for and nothing else, also where it fails, so
no two binders of a name share an index.
-/

set_option autoImplicit false

namespace SimplyTyped

/-- Where the indices in `before` are in use, each reference gets the number of times that its
name was issued so far, and the indices in `after` are in use then. -/
inductive Issues : List Name → List Ref → List Name → Prop where
  | nil {issued : List Name} : Issues issued [] issued
  | cons {issued after : List Name} {ref : Ref} {refs : List Ref} :
      ref.index = UInt32.ofNat (issued.count ref.name) →
      Issues (ref.name :: issued) refs after →
      Issues issued (ref :: refs) after

namespace Issues

variable {before middle after : List Name} {refs more : List Ref}

theorem append (first : Issues before refs middle) (second : Issues middle more after) :
    Issues before (refs ++ more) after := by
  induction first with
  | nil => exact second
  | cons index _ ih => exact .cons index (ih second)

theorem after_eq (issues : Issues before refs after) :
    after = (refs.map (·.name)).reverse ++ before := by
  induction issues with
  | nil => rfl
  | cons _ _ ih => simp [ih]

theorem count_after (issues : Issues before refs after) (name : Name) :
    after.count name = before.count name + (refs.map (·.name)).count name := by
  rw [issues.after_eq, List.count_append, List.count_reverse, Nat.add_comm]

theorem count_le (issues : Issues before refs after) (name : Name) :
    before.count name ≤ after.count name := by
  rw [issues.count_after]
  exact Nat.le_add_right ..

/-- As long as no count is too large for an index, indices are the counts themselves. -/
theorem index_eq {ref : Ref} (rest : Issues (ref.name :: before) refs after)
    (index : ref.index = UInt32.ofNat (before.count ref.name))
    (few : ∀ name, after.count name < UInt32.size) :
    ref.index.toNat = before.count ref.name := by
  have grown := rest.count_le ref.name
  rw [List.count_cons_self] at grown
  rw [index]
  exact UInt32.toNat_ofNat_of_lt' (Nat.lt_trans grown (few ref.name))

theorem indices_eq (issues : Issues before refs after) (few : ∀ name, after.count name < UInt32.size)
    (name : Name) :
    (refs.filter (·.name = name)).map (·.index.toNat) =
      List.range' (before.count name) ((refs.map (·.name)).count name) := by
  induction issues with
  | nil => rfl
  | @cons before after ref refs index rest ih =>
      -- A request counts for its own name only.
      by_cases same : ref.name = name
      · subst same
        have head := rest.index_eq index few
        simp [ih few, head, List.range'_succ]
      · simp [ih few, same]

theorem numberedInOrder (issues : Issues [] refs after) (few : ∀ name, after.count name < UInt32.size) :
    NumberedInOrder refs := by
  intro name
  rw [issues.indices_eq few, List.range_eq_range', List.count_nil]

theorem count_le_index (issues : Issues before refs after)
    (few : ∀ name, after.count name < UInt32.size) {ref : Ref} (member : ref ∈ refs) :
    before.count ref.name ≤ ref.index.toNat := by
  have listed : ref.index.toNat ∈
      (refs.filter (·.name = ref.name)).map (·.index.toNat) :=
    List.mem_map_of_mem (List.mem_filter.mpr ⟨member, by simp⟩)
  rw [issues.indices_eq few] at listed
  exact (List.mem_range'_1.mp listed).1

theorem nodup_keys (issues : Issues before refs after)
    (few : ∀ name, after.count name < UInt32.size) :
    (refs.map fun ref => (ref.name, ref.index)).Nodup := by
  induction issues with
  | nil => exact .nil
  | @cons before after ref refs index rest ih =>
      refine List.nodup_cons.mpr ⟨?_, ih few⟩
      intro member
      obtain ⟨later, member, same⟩ := List.mem_map.mp member
      obtain ⟨sameName, sameIndex⟩ := Prod.mk.inj same
      -- A later request for the name finds one index more in use.
      have above := rest.count_le_index few member
      rw [sameName, sameIndex, rest.index_eq index few, List.count_cons_self] at above
      omega

end Issues

/-! ## What runs hand out -/

namespace Environment

theorem issues_paramRefs (environment : Environment) (annotations : List (Name × Ty)) :
    Issues environment.issued (environment.paramRefs annotations)
      (environment.withParams annotations).issued := by
  induction annotations generalizing environment with
  | nil => exact .nil
  | cons head annotations ih =>
      refine .cons rfl ?_
      have rest := ih (environment.issue head.1)
      simpa [withParams, issueAll, issue, paramRef] using rest

/-- From one environment to the next, the references are handed out one after another, and
nothing else comes into sight. -/
structure HandsOut (before : Environment) (refs : List Ref) (after : Environment) : Prop where
  issues : Issues before.issued refs after.issued
  visible : after.visible ⊆ refs ++ before.visible

namespace HandsOut

variable {before middle after : Environment} {refs more : List Ref}

theorem refl (environment : Environment) : environment.HandsOut [] environment :=
  ⟨.nil, List.Subset.refl _⟩

theorem leave (environment : Environment) : environment.HandsOut [] environment.leave := by
  refine ⟨.nil, fun ref seen => ?_⟩
  change ref ∈ environment.frames.flatten ++ environment.globals
  refine (List.mem_append.mp seen).elim (fun param => ?_) (List.mem_append_right _)
  obtain ⟨frame, opened, member⟩ := List.mem_flatten.mp param
  exact List.mem_append_left _ (List.mem_flatten_of_mem (List.mem_of_mem_tail opened) member)

theorem append (first : before.HandsOut refs middle) (second : middle.HandsOut more after) :
    before.HandsOut (refs ++ more) after := by
  refine ⟨first.issues.append second.issues, fun ref seen => ?_⟩
  rw [List.append_assoc, List.mem_append, List.mem_append]
  rcases List.mem_append.mp (second.visible seen) with late | early
  · exact .inr (.inl late)
  · exact (List.mem_append.mp (first.visible early)).imp_right .inr

theorem withGlobal (environment : Environment) (name : Name) (ty : Ty) :
    environment.HandsOut [environment.globalRef name ty] (environment.withGlobal name ty) := by
  refine ⟨.cons rfl .nil, fun ref seen => ?_⟩
  exact List.mem_cons.mpr ((environment.mem_visible_withGlobal name ty).mp seen)

theorem withParams (environment : Environment) (annotations : List (Name × Ty)) :
    environment.HandsOut (environment.paramRefs annotations)
      (environment.withParams annotations) := by
  refine ⟨environment.issues_paramRefs annotations, fun ref seen => ?_⟩
  simpa using seen

end HandsOut

/-- However a run ends, it hands out the references of `requests`. -/
def HandsOutRequests {α : Type} (pass : Pass Environment α)
    (requests : Environment → List Ref) : Prop :=
  ∀ environment : Environment,
    environment.HandsOut (requests environment) (pass.run environment).2

section HandsOutRequests

variable {α β : Type} {pass : Pass Environment α} {next : α → Pass Environment β}
  {requests : Environment → List Ref}

theorem HandsOutRequests.bind (start : HandsOutRequests pass requests)
    {more : α → Environment → List Ref}
    (rest : ∀ value, HandsOutRequests (next value) (more value)) :
    HandsOutRequests (pass >>= next) fun environment =>
      requests environment ++ pass.onSuccess environment more := by
  intro environment
  have started := start environment
  change HandsOut _ (requests environment ++ pass.onSuccess environment more) _
  rw [Pass.run_bind]
  cases run : pass.run environment with
  | mk outcome middle =>
      rw [run] at started
      cases outcome with
      | ok value =>
          rw [Pass.onSuccess_of_ok _ run]
          exact started.append (rest value middle)
      | error =>
          rw [Pass.onSuccess_of_error _ run, List.append_nil]
          exact started

theorem HandsOutRequests.bind_silent (start : HandsOutRequests pass requests)
    (silent : ∀ value, HandsOutRequests (next value) fun _ => []) :
    HandsOutRequests (pass >>= next) requests := by
  intro environment
  have whole := start.bind silent environment
  have same : pass.onSuccess environment (fun _ _ => ([] : List Ref)) = [] := by
    cases run : pass.run environment with
    | mk outcome middle =>
        cases outcome with
        | ok => exact Pass.onSuccess_of_ok _ run
        | error => exact Pass.onSuccess_of_error _ run
  simpa [same] using whole

theorem HandsOutRequests.map (handsOut : HandsOutRequests pass requests) (f : α → β) :
    HandsOutRequests (f <$> pass) requests := by
  intro environment
  rw [Pass.run_map]
  exact handsOut environment

end HandsOutRequests

end Environment

namespace Tree

open Environment

theorem handsOutRequests_lambda (params : List Param) {body : Tree}
    (bodyHandsOut : HandsOutRequests body.elaborate body.requests) :
    HandsOutRequests (lambda params body).elaborate (lambda params body).requests := by
  intro environment
  rw [elaborate, Pass.run_bind, Pass.run_lift, requests]
  cases Param.checkAll params with
  | error => exact .refl _
  | ok annotations =>
      -- Closing the frame hands out nothing, so what is left to do counts as the body.
      have inside : HandsOutRequests (do
          let body ← body.elaborate
          PassT.modify Environment.leave
          return Expr.abstract (environment.paramRefs annotations) body) body.requests :=
        bodyHandsOut.bind_silent fun _ => .leave
      dsimp only
      rw [Pass.run_bind, Pass.run_modify]
      dsimp only
      rw [Pass.run_bind, run_bindParams_enter]
      exact (HandsOut.withParams environment annotations).append (inside _)

theorem handsOutRequests_letIn (name : Name) {value body : Tree}
    (valueHandsOut : HandsOutRequests value.elaborate value.requests)
    (bodyHandsOut : HandsOutRequests body.elaborate body.requests) :
    HandsOutRequests (letIn name value body).elaborate (letIn name value body).requests := by
  rw [elaborate]
  refine valueHandsOut.bind fun expr middle => ?_
  have inside : HandsOutRequests (do
      let body ← body.elaborate
      PassT.modify Environment.leave
      PassT.lift (Expr.letApplied name (middle.paramRef name expr.ty) expr body)) body.requests :=
    bodyHandsOut.bind_silent fun _ => .leave
  rw [Pass.run_bind, Pass.run_modify]
  dsimp only
  rw [Pass.run_bind, run_bindParam_enter]
  exact (HandsOut.withParams middle [(name, expr.ty)]).append (inside _)

theorem handsOutRequests_all_of {trees : List Tree}
    (each : ∀ tree ∈ trees, HandsOutRequests tree.elaborate tree.requests) :
    HandsOutRequests (elaborateAll trees) (requestsAll trees) := by
  induction trees with
  | nil => exact HandsOut.refl
  | cons tree trees ih =>
      obtain ⟨head, tail⟩ := List.forall_mem_cons.mp each
      rw [elaborateAll]
      exact head.bind fun _ => (ih tail).bind_silent fun _ => .refl

theorem handsOutRequests_app {callee : Tree} {arguments : List Tree}
    (calleeHandsOut : HandsOutRequests callee.elaborate callee.requests)
    (each : ∀ argument ∈ arguments, HandsOutRequests argument.elaborate argument.requests) :
    HandsOutRequests (app callee arguments).elaborate (app callee arguments).requests := by
  cases arguments with
  | nil => exact HandsOut.refl
  | cons argument arguments =>
      exact calleeHandsOut.bind fun _ => (handsOutRequests_all_of each).bind_silent fun _ => .refl

theorem handsOutRequests_var (name : Name) :
    HandsOutRequests (var name).elaborate (var name).requests := by
  have step : HandsOutRequests
      (PassT.step fun environment => (environment.lookup name, environment)) fun _ => [] :=
    HandsOut.refl
  rw [elaborate]
  exact step.bind_silent fun _ => .refl

theorem handsOutRequests (tree : Tree) : HandsOutRequests tree.elaborate tree.requests := by
  induction tree with
  | var name => exact handsOutRequests_var name
  | int | bool => exact HandsOut.refl
  | app _ _ callee arguments => exact handsOutRequests_app callee arguments
  | lambda params _ body => exact handsOutRequests_lambda params body
  | letIn name _ _ value body => exact handsOutRequests_letIn name value body

theorem handsOutRequests_program (tree : Tree) :
    HandsOutRequests tree.elaborateProgram tree.programRequests := by
  induction tree using root_induction with
  | entry tree single =>
      have same : tree.programRequests = tree.requests :=
        funext (programRequests_of_splitLets single)
      rw [elaborateProgram_of_splitLets single, same]
      exact tree.handsOutRequests.bind_silent fun _ => .refl
  | letIn name value body bodyIH =>
      rw [elaborateProgram_letIn, elaborateLet, bind_assoc]
      refine value.handsOutRequests.bind fun expr middle => ?_
      have inside : HandsOutRequests (do
          let program ← body.elaborateProgram
          return (⟨⟨middle.globalRef name expr.ty, expr⟩ :: program.bindings, program.entry⟩ :
            Program))
          body.programRequests :=
        bodyIH.bind_silent fun _ => .refl
      exact (HandsOut.withGlobal middle name expr.ty).append (inside _)

end Tree

namespace Environment

theorem handsOutRequests_bindParam (name : Name) (ty : Ty) :
    HandsOutRequests (bindParam name ty) fun environment => [environment.paramRef name ty] := by
  intro environment
  cases opened : environment.frames with
  | nil =>
      rw [run_bindParam_outside opened]
      exact ⟨.cons rfl .nil, List.subset_cons_self ..⟩
  | cons frame frames =>
      rw [run_bindParam opened]
      refine ⟨.cons rfl .nil, fun ref seen => ?_⟩
      simpa [visible, opened, paramRef, issue] using seen

theorem Step.handsOutRequests (step : Step) : HandsOutRequests step.pass step.requests := by
  cases step with
  | enter => exact fun _ => ⟨.nil, List.Subset.refl _⟩
  | leave => exact HandsOut.leave
  | resolve | policy => exact HandsOut.refl
  | bindGlobal name ty => exact fun environment => .withGlobal environment name ty
  | bindParam name ty => exact (handsOutRequests_bindParam name ty).map _
  | elaborate tree => exact tree.handsOutRequests_program.map _

/-- However its steps end, a session hands out what they ask for, one after another. -/
theorem handsOut_requests (environment : Environment) (steps : List Step) :
    environment.HandsOut (environment.requests steps) (environment.after steps) := by
  induction steps generalizing environment with
  | nil => exact .refl _
  | cons step steps ih =>
      exact (step.handsOutRequests environment).append (ih (environment.after [step]))

theorem Step.requests_perm {environment final : Environment} {step : Step} {reply : Reply}
    (run : step.pass.run environment = (.ok reply, final)) :
    (step.requests environment).Perm reply.binders := by
  cases step with
  | enter | leave | resolve | policy =>
      obtain ⟨_, _, rfl⟩ := Pass.run_map_eq_ok.mp run
      exact .refl _
  | bindGlobal name ty =>
      obtain ⟨ref, bound, rfl⟩ := Pass.run_map_eq_ok.mp run
      cases bound
      exact .refl _
  | bindParam name ty =>
      obtain ⟨ref, bound, rfl⟩ := Pass.run_map_eq_ok.mp run
      rw [Environment.bindParam, Pass.run_step] at bound
      split at bound
      · cases bound
      · cases bound
        exact .refl _
  | elaborate tree =>
      obtain ⟨program, elaborated, rfl⟩ := Pass.run_map_eq_ok.mp run
      obtain ⟨derived, -⟩ := Tree.run_elaborateProgram_eq_ok_iff.mp elaborated
      rw [Step.requests, derived.requests_eq]
      exact derived.declared_perm

/-- Failing steps keep to themselves what they asked for. -/
theorem binders_session (environment : Environment) (steps : List Step) :
    ∃ kept : List Ref, kept.Sublist (environment.requests steps) ∧
      kept.Perm (binders (Pass.session (steps.map Step.pass) environment)) := by
  induction steps generalizing environment with
  | nil => exact ⟨[], .refl _, .refl _⟩
  | cons step steps ih =>
      obtain ⟨kept, fewer, same⟩ := ih (step.pass.run environment).2
      rw [List.map_cons, Pass.session, requests]
      cases run : step.pass.run environment with
      | mk outcome next =>
          rw [run] at same
          cases outcome with
          | ok reply =>
              exact ⟨_, fewer.append_left _, (Step.requests_perm run).append same⟩
          | error => exact ⟨kept, fewer.trans (List.sublist_append_right ..), same⟩

end Environment

theorem ElaboratesProgram.issues {environment : Environment} {tree : Tree} {program : Program}
    (derived : ElaboratesProgram environment tree program) :
    Issues environment.issued (tree.declaredProgram program)
      (tree.binders.reverse ++ environment.issued) := by
  have handsOut := tree.handsOutRequests_program environment
  rw [Tree.run_elaborateProgram_eq_ok_iff.mpr ⟨derived, rfl⟩, derived.requests_eq] at handsOut
  exact handsOut.issues

theorem ElaboratesProgram.declared_map_name {environment : Environment} {tree : Tree}
    {program : Program} (derived : ElaboratesProgram environment tree program) :
    (tree.declaredProgram program).map (·.name) = tree.binders := by
  have names := derived.issues.after_eq
  exact (List.reverse_inj.mp (List.append_cancel_right names)).symm

namespace Environment

/-- Indices count the requests for each name from 0 on, over a whole session and whatever
fails in it. So no two binders share a reference, and those of a program made from scratch are
numbered in the order of their declaration. -/
theorem binders_numbered (policy : Policy) :
    (∀ steps : List Step,
      (∀ name, (((empty policy).requests steps).map (·.name)).count name < UInt32.size) →
        ((empty policy).after steps).issued =
            (((empty policy).requests steps).map (·.name)).reverse ∧
          NumberedInOrder ((empty policy).requests steps) ∧
          ((empty policy).after steps).visible ⊆ (empty policy).requests steps ∧
          ((binders (Pass.session (steps.map Step.pass) (empty policy))).map
            fun ref => (ref.name, ref.index)).Nodup) ∧
    (∀ (environment final : Environment) (step : Step) (reply : Reply),
      step.pass.run environment = (.ok reply, final) →
        (step.requests environment).Perm reply.binders) ∧
    ∀ (tree : Tree) (program : Program), tree.toProgram policy = .ok program →
      (∀ name, tree.binders.count name < UInt32.size) →
        (tree.declaredProgram program).Perm program.binders ∧
          (tree.declaredProgram program).map (·.name) = tree.binders ∧
          NumberedInOrder (tree.declaredProgram program) := by
  refine ⟨fun steps few => ?session, fun _ _ _ _ => Step.requests_perm, ?program⟩
  case session =>
    have ⟨issues, visible⟩ := (empty policy).handsOut_requests steps
    have issued := issues.after_eq
    rw [empty, List.append_nil] at issued
    have few : ∀ name, ((empty policy).after steps).issued.count name < UInt32.size := by
      intro name
      rw [empty, issued, List.count_reverse]
      exact few name
    obtain ⟨kept, fewer, same⟩ := (empty policy).binders_session steps
    have distinct := (issues.nodup_keys few).sublist (fewer.map _)
    have inSight : ((empty policy).after steps).visible ⊆ (empty policy).requests steps := by
      simpa [empty, Environment.visible] using visible
    exact ⟨issued, issues.numberedInOrder few, inSight, (same.map _).nodup_iff.mp distinct⟩
  case program =>
    intro tree program elaborated few
    have derived := Tree.toProgram_eq_ok_iff.mp elaborated
    refine ⟨derived.declared_perm, derived.declared_map_name, ?_⟩
    refine derived.issues.numberedInOrder fun name => ?_
    rw [empty, List.append_nil, List.count_reverse]
    exact few name

/-- A parameter that is bound outside all lambdas and a lambda that is given up in its body
both use up an index of their own, and what is bound next goes on from there. -/
theorem binders_numbered_after_failures :
    let tree : Tree := .lambda [⟨⟨"y"⟩, some .int⟩]
      (.letIn ⟨"x"⟩ (.lambda [⟨⟨"x"⟩, some .int⟩] (.var ⟨"x"⟩)) (.var ⟨"x"⟩))
    let steps : List Step :=
      [.bindParam ⟨"x"⟩ .int,
        .elaborate (.lambda [⟨⟨"x"⟩, some .int⟩] (.app (.int 1) [.int 2])),
        .bindGlobal ⟨"x"⟩ .bool, .elaborate tree]
    let keys := (binders (Pass.session (steps.map Step.pass) (empty .keep))).map
      fun ref => (ref.name, ref.index)
    (keys = [(⟨"x"⟩, 2), (⟨"y"⟩, 0), (⟨"x"⟩, 4), (⟨"x"⟩, 3)] ∧ keys.Nodup ∧
        NumberedInOrder ((empty .keep).requests steps)) ∧
      ((Step.bindGlobal ⟨"x"⟩ .bool).requests (empty .keep)).Perm [⟨⟨"x"⟩, 0, .bool, .global⟩] ∧
      ∃ program, tree.toProgram .keep = .ok program ∧
        (tree.declaredProgram program).map (·.name) = [⟨"y"⟩, ⟨"x"⟩, ⟨"x"⟩] ∧
        NumberedInOrder (tree.declaredProgram program) := by
  intro tree steps keys
  obtain ⟨session, step, program⟩ := binders_numbered .keep
  have fewRequests : ∀ name,
      (((empty .keep).requests steps).map (·.name)).count name < UInt32.size := fun name =>
    Nat.lt_of_le_of_lt List.count_le_length (by decide)
  have fewBinders : ∀ name, tree.binders.count name < UInt32.size := fun name =>
    Nat.lt_of_le_of_lt List.count_le_length (by decide)
  obtain ⟨-, numbered, -, distinct⟩ := session steps fewRequests
  obtain ⟨-, names, inOrder⟩ := program tree _ rfl fewBinders
  exact ⟨⟨rfl, distinct, numbered⟩, step _ _ _ (.bound _) rfl, _, rfl, names, inOrder⟩

end Environment

end SimplyTyped
