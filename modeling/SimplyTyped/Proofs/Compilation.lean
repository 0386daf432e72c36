import SimplyTyped.Compilation
import SimplyTyped.Error.Code
import SimplyTyped.Proofs.Core.Visibility
import SimplyTyped.Proofs.Elaboration.Policy
import SimplyTyped.Proofs.Elaboration.Verification

/-!
# Compilation under different options

The options decide only what becomes of unresolved names: they are rejected when they are
met, found by verification, or handed out with the program. A tree that has none compiles
to the same result under all options, and no options make the compiler blame itself. This
holds of every build of the compiler, which only decides whether a program is verified.
-/

set_option autoImplicit false

namespace SimplyTyped

variable {tree : Tree} {policy : Policy} {options : CompileOptions} {build : Build}
  {program : Program} {error : Error}

/-- An elaborated program is verified if its tree has no free names, and refused for one of
its free references otherwise. -/
theorem verify_of_elaborated (elaborated : tree.toProgram policy = .ok program) :
    program.verify = .ok program ∧ tree.freeNames = [] ∨
      ∃ ref ∈ program.freeUses, program.verify = .error (.undefined ref) := by
  have derived := Tree.toProgram_eq_ok_iff.mp elaborated
  have stops := derived.stopsAtUnresolved (Environment.visibleIn_empty policy)
  unfold StopsAtUnresolved at stops
  cases first : program.checkedUses.find? (·.IsUnresolved) with
  | none =>
      simp only [first] at stops
      have verified : program.verify = .ok program := by
        rw [Program.verify, Pass.evaluate_eq, stops]
        rfl
      exact .inl ⟨verified, (Tree.freeUses_eq_nil_iff elaborated).mp
        (Program.freeUses_of_verify verified)⟩
  | some ref =>
      simp only [first] at stops
      have refused : program.verify = .error (.undefined ref) := by
        rw [Program.verify, Pass.evaluate_eq, stops]
        rfl
      exact .inr ⟨ref, Program.mem_freeUses_of_verify refused, refused⟩

/-! ## What compilation returns -/

theorem compile_tree (tree : Tree) (options : CompileOptions) (build : Build) :
    compile (.ok tree) options build = (do
      let program ← tree.toProgram options.policy
      let free ← program.freeRefs
      let program ← if options.verification.enabled build then program.verify else pure program
      return ⟨program, free⟩) := rfl

theorem compile_of_error (failed : tree.toProgram options.policy = .error error) :
    compile (.ok tree) options build = .error error := by
  rw [compile_tree, failed]
  rfl

theorem compile_of_ok (elaborated : tree.toProgram options.policy = .ok program) :
    compile (.ok tree) options build =
      if options.verification.enabled build then
        program.verify.map (⟨·, .ofList program.freeUses⟩)
      else .ok ⟨program, .ofList program.freeUses⟩ := by
  simp only [compile_tree, elaborated, program.freeRefs_eq, bind, Except.bind]
  cases options.verification.enabled build with
  | false => rfl
  | true => cases program.verify <;> rfl

/-- A tree without free names compiles to its program, verified or not. -/
theorem compile_of_closed (elaborated : tree.toProgram options.policy = .ok program)
    (closed : tree.freeNames = []) : compile (.ok tree) options build = .ok ⟨program, ∅⟩ := by
  have unused := (Tree.freeUses_eq_nil_iff elaborated).mpr closed
  have verified : program.verify = .ok program := by
    rcases verify_of_elaborated elaborated with ⟨verified, -⟩ | ⟨ref, used, -⟩
    · exact verified
    · rw [unused] at used
      exact absurd used List.not_mem_nil
  rw [compile_of_ok elaborated, verified, unused]
  split <;> rfl

theorem compile_of_open (elaborated : tree.toProgram options.policy = .ok program)
    (notClosed : tree.freeNames ≠ []) (enabled : options.verification.enabled build) :
    ∃ ref ∈ program.freeUses, compile (.ok tree) options build = .error (.undefined ref) := by
  rcases verify_of_elaborated elaborated with ⟨-, closed⟩ | ⟨ref, used, refused⟩
  · exact absurd closed notClosed
  · refine ⟨ref, used, ?_⟩
    rw [compile_of_ok elaborated, if_pos enabled, refused]
    rfl

/-! ## How the options change it -/

theorem compile_keep_eq_ok_iff {verification : Verification} {compiled : Compiled}
    (enabled : verification.enabled build) :
    compile (.ok tree) ⟨.keep, verification⟩ build = .ok compiled ↔
      ∃ program, tree.toProgram .keep = .ok program ∧ tree.freeNames = [] ∧
        compiled = ⟨program, ∅⟩ := by
  cases elaborated : tree.toProgram .keep with
  | error error =>
      have refused : compile (.ok tree) ⟨.keep, verification⟩ build = .error error :=
        compile_of_error elaborated
      simp [refused]
  | ok program =>
      by_cases closed : tree.freeNames = []
      · have compiles : compile (.ok tree) ⟨.keep, verification⟩ build = .ok ⟨program, ∅⟩ :=
          compile_of_closed elaborated closed
        simp [compiles, closed, eq_comm]
      · obtain ⟨ref, -, refused⟩ :=
          @compile_of_open tree ⟨.keep, verification⟩ build program elaborated closed enabled
        simp [refused, closed]

theorem compile_reject_eq_ok_iff {verification : Verification} {compiled : Compiled} :
    compile (.ok tree) ⟨.reject, verification⟩ build = .ok compiled ↔
      ∃ program, tree.toProgram .keep = .ok program ∧ tree.freeNames = [] ∧
        compiled = ⟨program, ∅⟩ := by
  cases elaborated : tree.toProgram .reject with
  | error error =>
      have refused : compile (.ok tree) ⟨.reject, verification⟩ build = .error error :=
        compile_of_error elaborated
      rw [refused]
      refine ⟨nofun, fun accepted => ?_⟩
      obtain ⟨program, kept, closed, -⟩ := accepted
      cases elaborated.symm.trans (Tree.toProgram_reject_eq_ok_iff.mpr ⟨kept, closed⟩)
  | ok program =>
      obtain ⟨kept, closed⟩ := Tree.toProgram_reject_eq_ok_iff.mp elaborated
      have compiles : compile (.ok tree) ⟨.reject, verification⟩ build = .ok ⟨program, ∅⟩ :=
        compile_of_closed elaborated closed
      simp [compiles, kept, closed, eq_comm]

theorem compile_reject_congr (tree : Tree) (build : Build) (left right : Verification) :
    compile (.ok tree) ⟨.reject, left⟩ build = compile (.ok tree) ⟨.reject, right⟩ build := by
  have same : ∀ verification, compile (.ok tree) ⟨.reject, verification⟩ build =
      (tree.toProgram .reject).map (⟨·, ∅⟩) := by
    intro verification
    cases elaborated : tree.toProgram .reject with
    | error error => exact compile_of_error elaborated
    | ok program =>
        exact compile_of_closed elaborated (Tree.toProgram_reject_eq_ok_iff.mp elaborated).2
  rw [same left, same right]

theorem compile_keep_of_free {enabled disabled : Verification} {compiled : Compiled}
    (verifies : enabled.enabled build) (skips : ¬ disabled.enabled build)
    (compiles : compile (.ok tree) ⟨.keep, disabled⟩ build = .ok compiled)
    (free : compiled.free ≠ ∅) :
    ∃ ref ∈ compiled.free, compile (.ok tree) ⟨.keep, enabled⟩ build = .error (.undefined ref) := by
  cases elaborated : tree.toProgram .keep with
  | error error =>
      have refused : compile (.ok tree) ⟨.keep, disabled⟩ build = .error error :=
        compile_of_error elaborated
      cases compiles.symm.trans refused
  | ok program =>
      rw [compile_of_ok elaborated, if_neg skips] at compiles
      cases compiles
      have notClosed : tree.freeNames ≠ [] := by
        rwa [Ne, ← Tree.freeUses_eq_nil_iff elaborated, ← SortedSet.ofList_eq_empty_iff]
      obtain ⟨ref, used, refused⟩ :=
        @compile_of_open tree ⟨.keep, enabled⟩ build program elaborated notClosed verifies
      exact ⟨ref, SortedSet.mem_ofList.mpr used, refused⟩

theorem compile_keep_congr {enabled disabled : Verification} (skips : ¬ disabled.enabled build)
    (closed : ∀ compiled, compile (.ok tree) ⟨.keep, disabled⟩ build = .ok compiled →
      compiled.free = ∅) :
    compile (.ok tree) ⟨.keep, enabled⟩ build = compile (.ok tree) ⟨.keep, disabled⟩ build := by
  cases elaborated : tree.toProgram .keep with
  | error error =>
      have refused (verification : Verification) :
          compile (.ok tree) ⟨.keep, verification⟩ build = .error error :=
        compile_of_error elaborated
      rw [refused enabled, refused disabled]
  | ok program =>
      have unverified : compile (.ok tree) ⟨.keep, disabled⟩ build =
          .ok ⟨program, .ofList program.freeUses⟩ := by
        rw [compile_of_ok elaborated, if_neg skips]
      have unused := SortedSet.ofList_eq_empty_iff.mp (closed _ unverified)
      have compiles (verification : Verification) :
          compile (.ok tree) ⟨.keep, verification⟩ build = .ok ⟨program, ∅⟩ :=
        compile_of_closed elaborated ((Tree.freeUses_eq_nil_iff elaborated).mp unused)
      rw [compiles enabled, compiles disabled]

/-- What is refused is at fault itself, or uses an undefined name. -/
theorem compile_eq_error {options : CompileOptions} {error : Error}
    (refused : compile (.ok tree) options build = .error error) :
    error.IsFault ∨ ∃ ref, error = .undefined ref := by
  obtain ⟨policy, verification⟩ := options
  cases elaborated : tree.toProgram policy with
  | ok program =>
      rw [compile_of_ok elaborated] at refused
      rcases verify_of_elaborated elaborated with ⟨verified, -⟩ | ⟨ref, -, undefined⟩
      · rw [verified] at refused
        split at refused <;> cases refused
      · rw [undefined] at refused
        split at refused
        · cases refused
          exact .inr ⟨ref, rfl⟩
        · cases refused
  | error cause =>
      cases (compile_of_error elaborated).symm.trans refused
      by_cases undefined : ∃ ref, error = .undefined ref
      · exact .inr undefined
      · cases policy with
        | keep => exact .inl (Tree.isFault_of_toProgram_keep elaborated)
        | reject =>
            have kept := Tree.toProgram_keep_of_reject_error elaborated fun ref same =>
              undefined ⟨ref, same⟩
            exact .inl (Tree.isFault_of_toProgram_keep kept)

/-- The options agree, in every build. A tree compiles where unresolved names are kept and
programs are verified exactly if it compiles where they are rejected, with the same result
and nothing free. Rejection leaves nothing to be found by verification. Where names are kept,
verification refuses the programs with free references, for one of them, and changes nothing
else. No tree makes the compiler report a fault of its own, or of the reader. -/
theorem compile_options (tree : Tree) (build : Build) :
    (∀ enabled verification compiled, enabled.enabled build →
      (compile (.ok tree) ⟨.keep, enabled⟩ build = .ok compiled ↔
        compile (.ok tree) ⟨.reject, verification⟩ build = .ok compiled) ∧
      (compile (.ok tree) ⟨.keep, enabled⟩ build = .ok compiled → compiled.free = ∅)) ∧
    (∀ left right,
      compile (.ok tree) ⟨.reject, left⟩ build = compile (.ok tree) ⟨.reject, right⟩ build) ∧
    (∀ enabled disabled, enabled.enabled build → ¬ disabled.enabled build →
      (∀ compiled, compile (.ok tree) ⟨.keep, disabled⟩ build = .ok compiled → compiled.free ≠ ∅ →
        ∃ ref ∈ compiled.free,
          compile (.ok tree) ⟨.keep, enabled⟩ build = .error (.undefined ref)) ∧
      ((∀ compiled, compile (.ok tree) ⟨.keep, disabled⟩ build = .ok compiled → compiled.free = ∅) →
        compile (.ok tree) ⟨.keep, enabled⟩ build = compile (.ok tree) ⟨.keep, disabled⟩ build)) ∧
    ∀ options error, compile (.ok tree) options build = .error error →
      error.code ∉ [.defect, .generic, .parse] := by
  refine ⟨fun enabled verification compiled verifies => ⟨?same, ?closed⟩,
    compile_reject_congr tree build, fun enabled disabled verifies skips => ⟨?refused, ?unchanged⟩,
    fun options error refused => ?code⟩
  case same => rw [compile_keep_eq_ok_iff verifies, compile_reject_eq_ok_iff]
  case closed =>
    rw [compile_keep_eq_ok_iff verifies]
    rintro ⟨program, -, -, rfl⟩
    rfl
  case refused => exact fun compiled => compile_keep_of_free verifies skips
  case unchanged => exact compile_keep_congr skips
  case code =>
    rcases compile_eq_error refused with fault | ⟨ref, rfl⟩
    · cases error with
      | malformed | mismatch => simp [Error.code]
      | generic | defect | parse | undefined => exact fault.elim
    · simp [Error.code]

/-- A program whose parameter has an unknown type is handed out as it is, or refused for the
name that left the type unknown. -/
theorem compile_options_deferred :
    let tree := Tree.lambda [⟨⟨"x"⟩, some .int⟩]
      (.letIn ⟨"y"⟩ (.app (.var ⟨"f"⟩) [.var ⟨"x"⟩]) (.app (.var ⟨"y"⟩) [.var ⟨"x"⟩]))
    ∃ compiled, compile (.ok tree) ⟨.keep, .never⟩ = .ok compiled ∧
      ∃ ref ∈ compiled.free, compile (.ok tree) ⟨.keep, .always⟩ = .error (.undefined ref) := by
  intro tree
  obtain ⟨program, kept⟩ : ∃ program, tree.toProgram .keep = .ok program := ⟨_, rfl⟩
  have unverified : compile (.ok tree) ⟨.keep, .never⟩ = .ok ⟨program, .ofList program.freeUses⟩ :=
    compile_of_ok kept
  obtain ⟨verified, -⟩ := (compile_options tree .debug).2.2.1 .always .never rfl nofun
  refine ⟨_, unverified, verified _ unverified ?_⟩
  rw [Ne, SortedSet.ofList_eq_empty_iff, Tree.freeUses_eq_nil_iff kept]
  simp [tree, Tree.freeNames, Tree.freeNamesAll]

end SimplyTyped
