import FieldLine.Proofs.Violation.Loading
import FieldLine.Proofs.Walk.Start

/-!
# What the settings of a batch change

Whether a start line may stand in for a line that cannot be looked for shows only in the records
with an error, and there only in the line.  The usual start line shows only in records that have
none of their own, and there only where nothing better is found.
-/

namespace FieldLine

/-- The start line decides neither whether a path can be resolved nor why it cannot. -/
theorem resolve_for_all_starts (bytes : List UInt8) (path : String) :
    (∃ fault : ResolveFault, ∀ start : Nat, resolve bytes path start = .error fault) ∨
      ∃ (root : Node) (steps : List Step),
        ∀ start : Nat, resolve bytes path start = .ok (Walk.follow root steps start) := by
  rcases parsed : Path.parse path with fault | steps
  · exact .inl ⟨.path fault, fun start => resolve_of_fault (Query.ofPath_of_fault parsed bytes start)⟩
  · have read := Query.ofPath_of_steps parsed bytes
    rcases built : Document.ofBytes bytes with fault | root
    · refine .inl ⟨.document fault, fun start => ?_⟩
      rw [resolve_of_query (read start), Query.walk, built]
      rfl
    · refine .inr ⟨root, steps, fun start => ?_⟩
      rw [resolve_of_query (read start), Query.walk, built]
      rfl

namespace Batch

variable {σ : Type}

theorem locate_for_all_starts (source : Source) (path : String) :
    (∃ reason : String, ∀ start : Nat, locate source path start = .error reason) ∨
      ∃ (root : Node) (steps : List Step),
        ∀ start : Nat, locate source path start = .ok (Walk.follow root steps start) := by
  rcases source with reason | bytes
  · exact .inl ⟨reason, fun _ => rfl⟩
  · rcases resolve_for_all_starts bytes path with ⟨fault, failed⟩ | ⟨root, steps, found⟩
    · refine .inl ⟨fault.message, fun start => ?_⟩
      rw [locate, failed]
      rfl
    · refine .inr ⟨root, steps, fun start => ?_⟩
      rw [locate, found]
      rfl

/-! ## One record -/

variable {config : Config} {source : Source} {violation : Violation}

theorem resolveOne_of_reason {reason : String}
    (failed : locate source violation.path (startLine config violation) = .error reason) :
    (resolveOne config source violation).1 =
      ⟨violation, if config.fallback then some (startLine config violation) else none,
        some reason⟩ := by
  rw [resolveOne, failed]

theorem resolveOne_of_noted {noted : Walk.Noted}
    (found : locate source violation.path (startLine config violation) = .ok noted) :
    (resolveOne config source violation).1 = ⟨violation, some noted.1.line, none⟩ := by
  rw [resolveOne, found]

/-- A record has no line exactly if it has an error and no start line may stand in. -/
theorem line_resolveOne_eq_none_iff :
    (resolveOne config source violation).1.line = none ↔
      (resolveOne config source violation).1.error ≠ none ∧ config.fallback = false := by
  rcases attempt : locate source violation.path (startLine config violation) with reason | noted
  · rw [resolveOne_of_reason attempt]
    cases config.fallback <;> simp
  · rw [resolveOne_of_noted attempt]
    simp

/-- What the answers to a record with a start line standing in and without one have in common. -/
structure Overlaid (config : Config) (lenient strict : ResolvedViolation) : Prop where
  violation : lenient.violation = strict.violation
  error : lenient.error = strict.error
  line : lenient.error = none → lenient.line = strict.line
  standIn : lenient.error ≠ none →
    lenient.line = some (lenient.violation.line.getD config.startLine) ∧ strict.line = none

theorem overlaid_resolveOne (config : Config) (source : Source) (violation : Violation) :
    Overlaid config (resolveOne { config with fallback := true } source violation).1
      (resolveOne { config with fallback := false } source violation).1 := by
  have sameStart (fallback : Bool) :
      startLine { config with fallback := fallback } violation = startLine config violation :=
    rfl
  rcases attempt : locate source violation.path (startLine config violation) with reason | noted
  · rw [resolveOne_of_reason ((sameStart true).symm ▸ attempt),
      resolveOne_of_reason ((sameStart false).symm ▸ attempt)]
    exact ⟨rfl, rfl, nofun, fun _ => ⟨rfl, rfl⟩⟩
  · rw [resolveOne_of_noted ((sameStart true).symm ▸ attempt),
      resolveOne_of_noted ((sameStart false).symm ▸ attempt)]
    exact ⟨rfl, rfl, fun _ => rfl, fun failed => absurd rfl failed⟩

/-- What the answers to a record from two usual start lines have in common. -/
structure StartedFrom (start other : Nat) (left right : ResolvedViolation) : Prop where
  violation : left.violation = right.violation
  error : left.error = right.error
  ownLine : left.violation.line ≠ none → left = right
  noLine : left.violation.line = none →
    left.line = right.line ∨ left.line = some start ∧ right.line = some other

theorem startedFrom_resolveOne (config : Config) (start other : Nat) (source : Source)
    (violation : Violation) :
    StartedFrom start other (resolveOne { config with startLine := start } source violation).1
      (resolveOne { config with startLine := other } source violation).1 := by
  have started (usual : Nat) :
      startLine { config with startLine := usual } violation = violation.line.getD usual :=
    rfl
  rcases locate_for_all_starts source violation.path with
    ⟨reason, failed⟩ | ⟨root, steps, found⟩
  · rw [resolveOne_of_reason (failed _), resolveOne_of_reason (failed _), started, started]
    rcases own : violation.line with _ | line
    · refine ⟨rfl, rfl, fun isOwn => absurd own isOwn, fun _ => ?_⟩
      cases config.fallback with
      | false => exact .inl rfl
      | true => exact .inr ⟨rfl, rfl⟩
    · exact ⟨rfl, rfl, fun _ => rfl, fun noLine => absurd (own.symm.trans noLine) nofun⟩
  · rw [resolveOne_of_noted (found _), resolveOne_of_noted (found _), started, started]
    rcases own : violation.line with _ | line
    · refine ⟨rfl, rfl, fun isOwn => absurd own isOwn, fun _ => ?_⟩
      by_cases starts : Walk.Starts root steps
      · have sameWalk := Walk.follow_of_starts starts start other
        exact .inl (congrArg (fun noted => some noted.1.line) sameWalk)
      · obtain ⟨progress, kept⟩ := Walk.follow_of_not_starts starts
        refine .inr ⟨?_, ?_⟩
        · exact congrArg (fun walk => some walk.line) (kept start)
        · exact congrArg (fun walk => some walk.line) (kept other)
    · exact ⟨rfl, rfl, fun _ => rfl, fun noLine => absurd (own.symm.trans noLine) nofun⟩

/-! ## Whole batches -/

/-- Two batches with one loader load the same, so their answers are related if those to each record
are. -/
theorem forall₂_run {other : Config} {related : ResolvedViolation → ResolvedViolation → Prop}
    (load : Loader σ) (first : σ) (violations : List Violation)
    (each : ∀ (loaded : Loaded) (violation : Violation),
      related (resolveOne config (Batch.source config loaded) violation).1
        (resolveOne other (Batch.source other loaded) violation).1) :
    List.Forall₂ related (run load config first violations).resolved
      (run load other first violations).resolved := by
  obtain ⟨answers, answered, result⟩ := run_answers load config first violations
  obtain ⟨otherAnswers, otherAnswered, otherResult⟩ := run_answers load other first violations
  rw [result, otherResult, List.forall₂_map_left_iff, List.forall₂_map_right_iff]
  generalize (loadFiles load first violations).1 = loads at answered otherAnswered
  clear result otherResult
  induction answered generalizing otherAnswers with
  | nil =>
      cases otherAnswered
      exact .nil
  | cons answer _ inductionHypothesis =>
      obtain ⟨loaded, found, rfl⟩ := answer
      rcases otherAnswered with _ | ⟨⟨loadedAgain, foundAgain, rfl⟩, laterAnswered⟩
      rw [found] at foundAgain
      cases foundAgain
      exact .cons (each loaded _) (inductionHypothesis _ laterAnswered)

theorem forall_mem_run {holds : ResolvedViolation → Prop} (load : Loader σ) (first : σ)
    (violations : List Violation)
    (each : ∀ (source : Source) (violation : Violation),
      holds (resolveOne config source violation).1) :
    ∀ resolved ∈ (run load config first violations).resolved, holds resolved := by
  have same :
      List.Forall₂ (fun left right => left = right ∧ holds left)
        (run load config first violations).resolved (run load config first violations).resolved :=
    forall₂_run load first violations fun loaded violation => ⟨rfl, each _ violation⟩
  intro resolved member
  exact (List.forall₂_same.mp same resolved member).2

/-- Two batches that differ only in whether a start line may stand in give the same records and the
same errors.  A record without an error has the same line in both; one with an error has its start
line in one and no line in the other.  So a record has no line exactly if it has an error and no
start line may stand in.  Two batches that differ only in the usual start line give the same for
each record with a line of its own.  For each other record they give the same error and the same
line, or each gives its usual start line. -/
theorem run_of_settings (load : Loader σ) (config : Config) (first : σ)
    (violations : List Violation) :
    let answers (config : Config) : List ResolvedViolation :=
      (run load config first violations).resolved
    List.Forall₂
        (fun lenient strict : ResolvedViolation =>
          lenient.violation = strict.violation ∧ lenient.error = strict.error ∧
            (lenient.error = none → lenient.line = strict.line) ∧
            (lenient.error ≠ none →
              lenient.line = some (lenient.violation.line.getD config.startLine) ∧
                strict.line = none))
        (answers { config with fallback := true }) (answers { config with fallback := false }) ∧
      (∀ resolved ∈ answers config,
        resolved.line = none ↔ resolved.error ≠ none ∧ config.fallback = false) ∧
      ∀ start other : Nat,
        List.Forall₂
          (fun left right : ResolvedViolation =>
            left.violation = right.violation ∧ left.error = right.error ∧
              (left.violation.line ≠ none → left = right) ∧
              (left.violation.line = none →
                left.line = right.line ∨ left.line = some start ∧ right.line = some other))
          (answers { config with startLine := start })
          (answers { config with startLine := other }) := by
  intro answers
  refine ⟨?_, ?_, ?_⟩
  · refine forall₂_run load first violations fun loaded violation => ?_
    obtain ⟨sameRecord, sameError, sameLine, standIn⟩ :=
      overlaid_resolveOne config (Batch.source config loaded) violation
    exact ⟨sameRecord, sameError, sameLine, standIn⟩
  · exact forall_mem_run load first violations fun _ _ => line_resolveOne_eq_none_iff
  · intro start other
    refine forall₂_run load first violations fun loaded violation => ?_
    obtain ⟨sameRecord, sameError, ownLine, noLine⟩ :=
      startedFrom_resolveOne config start other (Batch.source config loaded) violation
    exact ⟨sameRecord, sameError, ownLine, noLine⟩

end Batch
end FieldLine
