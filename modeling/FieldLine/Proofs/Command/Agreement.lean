import FieldLine.Command.Run
import FieldLine.Proofs.Violation.Loading

/-!
# Resolving alone and in a batch

A path is resolved by a command of its own, for a record of a batch, or by a query.  All three give
the same line for the same document, path and start line.  Where a record has no line, the command
fails for the reason of the record.
-/

namespace FieldLine

/-! ## Records of a batch -/

namespace Batch

theorem exists_answer_of_getElem? {violations : List Violation}
    {answers : List (ResolvedViolation × List Note)}
    {answered : Violation → ResolvedViolation × List Note → Prop}
    (each : List.Forall₂ answered violations answers) {index : Nat} {violation : Violation}
    (record : violations[index]? = some violation) :
    ∃ answer : ResolvedViolation × List Note,
      answers[index]? = some answer ∧ answered violation answer := by
  obtain ⟨within, same⟩ := List.getElem?_eq_some_iff.mp record
  obtain ⟨sameLength, answeredAt⟩ := List.forall₂_iff_get.mp each
  have alsoWithin : index < answers.length := sameLength ▸ within
  have answer := answeredAt index within alsoWithin
  rw [List.get_eq_getElem, same] at answer
  exact ⟨answers[index], List.getElem?_eq_getElem alsoWithin, answer⟩

/-- The result for a record whose file has been loaded. -/
theorem resolved_of_load {σ : Type} {load : Loader σ} {config : Config} {first : σ}
    {violations : List Violation} {index : Nat} {violation : Violation} {bytes : List UInt8}
    (record : violations[index]? = some violation)
    (loaded :
      (run load.logged config (first, []) violations).loader.2.lookup violation.file =
        some (.ok bytes)) :
    (run load config first violations).resolved[index]? =
      some (resolveOne config (.ok (config.prepare bytes)) violation).1 := by
  rw [run_logged] at loaded
  obtain ⟨answers, each, result⟩ := run_answers load config first violations
  obtain ⟨answer, found, held, lookup, answered⟩ := exists_answer_of_getElem? each record
  rw [loaded] at lookup
  cases lookup
  rw [result, List.getElem?_map, found, answered]
  rfl

variable {config : Config} {source : List UInt8} {violation : Violation}

theorem resolveOne_of_walk {walk : Walk} {notes : List Note}
    (found : resolve source violation.path (startLine config violation) = .ok (walk, notes)) :
    (resolveOne config (.ok source) violation).1 = ⟨violation, some walk.line, none⟩ := by
  rw [resolveOne, locate, found]
  rfl

theorem resolveOne_of_fault {fault : ResolveFault}
    (failed : resolve source violation.path (startLine config violation) = .error fault) :
    (resolveOne config (.ok source) violation).1 =
      ⟨violation, if config.fallback then some (startLine config violation) else none,
        some fault.message⟩ := by
  rw [resolveOne, locate, failed]
  rfl

end Batch

/-! ## Queries -/

theorem Query.start_of_ofPath {path : String} {source : List UInt8} {start : Nat} {query : Query}
    (read : Query.ofPath path source start = .ok query) : query.start = start := by
  rw [Query.ofPath] at read
  rcases steps : Path.parse path with fault | steps
  · rw [steps] at read
    cases read
  · rw [steps] at read
    cases read
    rfl

theorem Query.lineOrStart_of_walk {path : String} {source : List UInt8} {start : Nat}
    {query : Query} {noted : Walk.Noted} (read : Query.ofPath path source start = .ok query)
    (found : resolve source path start = .ok noted) : query.lineOrStart.1 = noted.1.line := by
  rw [resolve_of_query read] at found
  rcases walk : query.walk with fault | reached
  · rw [walk] at found
    cases found
  · rw [walk] at found
    cases found
    rw [Query.lineOrStart, walk]

theorem Query.lineOrStart_of_fault {path : String} {source : List UInt8} {start : Nat}
    {query : Query} {fault : ResolveFault} (read : Query.ofPath path source start = .ok query)
    (failed : resolve source path start = .error fault) : query.lineOrStart.1 = start := by
  rw [resolve_of_query read] at failed
  rcases walk : query.walk with reason | reached
  · rw [Query.lineOrStart, walk]
    exact Query.start_of_ofPath read
  · rw [walk] at failed
    cases failed

/-! ## The command -/

namespace Command

/-- The text of a walk in an output format: its line, or an object that has it as a member. -/
def Prints (format file path : String) (walk : Walk) (written : String) : Prop :=
  (format = "text" → written = toString walk.line ++ "\n") ∧
    (format = "json" →
      written =
        (Json.Value.object
          [("file", .string file), ("path", .string path), ("line", .natural walk.line),
            ("state", .string walk.progress.render)]).pretty ++ "\n")

def walkText (file path : String) (walk : Walk) : OutputFormat → String
  | .text => toString walk.line ++ "\n"
  | .json => renderWalk file path walk ++ "\n"

theorem prints_walkText {name file path : String} {walk : Walk} {format : OutputFormat}
    (named : OutputFormat.ofName? name = some format) :
    Prints name file path walk (walkText file path walk format) := by
  constructor
  · intro text
    subst text
    cases named
    rfl
  · intro json
    subst json
    cases named
    rfl

theorem exists_ofName?_eq_some {name : String} (known : name = "text" ∨ name = "json") :
    ∃ format : OutputFormat, OutputFormat.ofName? name = some format := by
  rcases known with text | json
  · exact ⟨.text, by rw [text]; rfl⟩
  · exact ⟨.json, by rw [json]; rfl⟩

variable {around : Surroundings} {format : OutputFormat} {file path : String}
  {line : Option Nat} {source bytes : List UInt8} {start : Nat}

/-- A source that is loaded is resolved as the settings say, and where it is led to is written. -/
theorem runResolve_of_load
    (loaded : (Source.load around.files file around.input).1 = .ok bytes) :
    runResolve around format file path line =
      (resolveOrStart around.config file path (around.config.prepare bytes)
          (line.getD around.config.startLine)).map
        fun noted => (walkText file path noted.1 format, noted.2) := by
  rw [runResolve, loaded]
  simp only [Except.mapError, bind, Except.bind]
  rcases
    resolveOrStart around.config file path (around.config.prepare bytes)
      (line.getD around.config.startLine) with fault | ⟨walk, notes⟩
  · rfl
  · cases format with
    | text => rfl
    | json => rfl

/-- The command resolves the path as the settings say, and writes what it is led to. -/
theorem run_resolve {verbose : Bool}
    (named : OutputFormat.ofName? around.config.outputFormat = some format)
    (loaded : (Source.load around.files file around.input).1 = .ok bytes) :
    run around ⟨none, verbose, .resolve file path line⟩ =
      (resolveOrStart around.config file path (around.config.prepare bytes)
          (line.getD around.config.startLine)).map
        fun noted => (walkText file path noted.1 format, noted.2) := by
  have chosen :
      run around ⟨none, verbose, .resolve file path line⟩ =
        runResolve around format file path line := by
    simp only [run, Option.getD_none, named]
  rw [chosen, runResolve_of_load loaded]

theorem resolveOrStart_of_walk {config : Config} {noted : Walk.Noted}
    (found : resolve source path start = .ok noted) :
    resolveOrStart config file path source start = .ok noted := by
  rw [resolveOrStart, found]

theorem resolveOrStart_of_fault_lenient {config : Config} {fault : ResolveFault}
    (lenient : config.fallback = true) (failed : resolve source path start = .error fault) :
    resolveOrStart config file path source start =
      .ok (⟨start, .fallenBack⟩, [.pathFailed file path fault.message start]) := by
  simp only [resolveOrStart, failed, lenient, if_true]

theorem resolveOrStart_of_fault_strict {config : Config} {fault : ResolveFault}
    (strict : config.fallback = false) (failed : resolve source path start = .error fault) :
    resolveOrStart config file path source start = .error (.unresolved path file fault) := by
  simp only [resolveOrStart, failed, strict, Bool.false_eq_true, if_false]

/-- For a record of a batch whose file has been loaded, and a command for the same document, path
and start line: if the record has a line, the command writes this line, and it has fallen back if
the record has an error; if the record has no line, the command fails, and the first cause that it
reports is the error of the record.  If no start line is refused and the path is well formed, the
line is also the one that a query gives. -/
theorem resolve_agrees_with_batch {σ : Type} (load : Loader σ) (first : σ)
    (around : Surroundings) (violations : List Violation) (index : Nat) (violation : Violation)
    (bytes : List UInt8) (verbose : Bool)
    (known : around.config.outputFormat = "text" ∨ around.config.outputFormat = "json")
    (record : violations[index]? = some violation)
    (loadedInBatch :
      (Batch.run load.logged around.config (first, []) violations).loader.2.lookup
          violation.file =
        some (.ok bytes))
    (loaded : (Source.load around.files violation.file around.input).1 = .ok bytes) :
    let config := around.config
    let start := violation.line.getD config.startLine
    let text := if config.normalizeLineEndings then LineEnding.normalize bytes else bytes
    let outcome :=
      finished
        (run around ⟨none, verbose, .resolve violation.file violation.path violation.line⟩)
    ∃ resolved : ResolvedViolation,
      (Batch.run load config first violations).resolved[index]? = some resolved ∧
        (∀ line : Nat, resolved.line = some line →
          ∃ progress : Progress,
            outcome.exit = 0 ∧
              Prints config.outputFormat violation.file violation.path ⟨line, progress⟩
                outcome.written ∧
              (resolved.error ≠ none → progress = .fallenBack)) ∧
        (resolved.line = none →
          ∃ (heading error : String) (later : Reasons),
            resolved.error = some error ∧ outcome.exit = 1 ∧
              outcome.report = report (heading :: error :: later)) ∧
        (config.fallback = true →
          ∀ query : Query, Query.ofPath violation.path text start = .ok query →
            resolved.line = some query.lineOrStart.1) := by
  intro config start text outcome
  obtain ⟨format, named⟩ := exists_ofName?_eq_some known
  have finish :
      outcome =
        finished
          ((resolveOrStart config violation.file violation.path (config.prepare bytes) start).map
            fun noted => (walkText violation.file violation.path noted.1 format, noted.2)) :=
    congrArg finished (run_resolve named loaded)
  refine ⟨_, Batch.resolved_of_load record loadedInBatch, ?_⟩
  rcases attempt : resolve (config.prepare bytes) violation.path start with fault | noted
  · rw [Batch.resolveOne_of_fault attempt]
    by_cases lenient : config.fallback = true
    · rw [finish, resolveOrStart_of_fault_lenient lenient attempt]
      refine ⟨?_, ?_, ?_⟩
      · intro line same
        simp only [lenient, if_true] at same
        cases same
        exact ⟨.fallenBack, rfl, prints_walkText named, fun _ => rfl⟩
      · intro missing
        simp [lenient] at missing
      · intro _ query read
        rw [Query.lineOrStart_of_fault read attempt]
        simp only [lenient, if_true]
        rfl
    · have strict : config.fallback = false := by simpa using lenient
      rw [finish, resolveOrStart_of_fault_strict strict attempt]
      refine ⟨?_, ?_, fun lenientToo => absurd lenientToo lenient⟩
      · intro line same
        simp [strict] at same
      · intro _
        exact ⟨_, _, _, rfl, rfl, rfl⟩
  · rw [Batch.resolveOne_of_walk attempt, finish, resolveOrStart_of_walk attempt]
    refine ⟨?_, nofun, ?_⟩
    · intro line same
      cases same
      exact ⟨noted.1.progress, rfl, prints_walkText named, fun failed => absurd rfl failed⟩
    · intro _ query read
      rw [Query.lineOrStart_of_walk read attempt]

theorem resolve_agrees_with_batch_malformed_path :
    let around : Surroundings :=
      ⟨{ outputFormat := "json", fallback := false }, fun _ => .error .missing, [97]⟩
    let violation : Violation := { rule := "r", file := "-", path := "x[", line := some 5 }
    let violations := [{ violation with path := "" }, violation]
    let load := Source.loader around.files
    let outcome := finished (run around ⟨none, false, .resolve "-" "x[" (some 5)⟩)
    let error := "invalid path: unterminated index in segment 'x[', expected ']'"
    (Batch.run load.logged around.config ([97], []) violations).loader.2.lookup "-" =
        some (.ok [97]) ∧
      (Source.load around.files "-" around.input).1 = .ok [97] ∧
      (Batch.run load around.config [97] violations).resolved[1]? =
        some ⟨violation, none, some error⟩ ∧
      outcome.exit = 1 ∧
      ∃ (heading : String) (later : Reasons),
        outcome.report = report (heading :: error :: later) := by
  intro around violation violations load outcome error
  have loadedInBatch :
      (Batch.run load.logged around.config ([97], []) violations).loader.2.lookup "-" =
        some (.ok [97]) := by
    rfl
  have loaded : (Source.load around.files "-" around.input).1 = .ok [97] := by
    rfl
  have unresolved :
      (Batch.run load around.config [97] violations).resolved[1]? =
        some ⟨violation, none, some error⟩ := by
    have attempt :
        resolve (around.config.prepare [97]) "x[" 5 = .error (.path (.unterminatedIndex "x[")) := by
      rfl
    rw [Batch.resolved_of_load rfl loadedInBatch, Batch.resolveOne_of_fault attempt]
    rfl
  obtain ⟨resolved, found, -, without, -⟩ :=
    resolve_agrees_with_batch load [97] around violations 1 violation [97] false (Or.inr rfl) rfl
      loadedInBatch loaded
  rw [unresolved] at found
  cases found
  obtain ⟨heading, _, later, same, exit, reported⟩ := without rfl
  cases same
  exact ⟨loadedInBatch, loaded, unresolved, exit, heading, later, reported⟩

end Command
end FieldLine
