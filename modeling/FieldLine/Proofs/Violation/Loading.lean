import FieldLine.Violation.Batch
import Mathlib.Data.List.Forall2

/-!
# A batch loads each file once

A batch loads a file when a record names it first, in between resolving records.  What it gives is
what two phases give: the files that the records name are loaded, each once and in the order in
which they are named first, and then each record is resolved alone against what the load of its
file gave.
-/

namespace FieldLine

/-- A loader that keeps a list of its loads, with what they gave. -/
def Loader.logged {σ : Type} (load : Loader σ) : Loader (σ × List (String × Loaded)) :=
  fun file state =>
    let (loaded, next) := load file state.1
    (loaded, next, state.2 ++ [(file, loaded)])

namespace Batch

variable {σ : Type}

/-! ## Loads in order -/

/-- Loads files one after another, each from the state that the load before it has left. -/
def loadAll (load : Loader σ) (state : σ) : List String → List (String × Loaded) × σ
  | [] => ([], state)
  | file :: later =>
      let (loaded, next) := load file state
      let (loads, last) := loadAll load next later
      ((file, loaded) :: loads, last)

theorem loadAll_cons (load : Loader σ) (state : σ) (file : String) (later : List String) :
    loadAll load state (file :: later) =
      ((file, (load file state).1) :: (loadAll load (load file state).2 later).1,
        (loadAll load (load file state).2 later).2) :=
  rfl

theorem loadAll_concat (load : Loader σ) (state : σ) (files : List String) (file : String) :
    loadAll load state (files ++ [file]) =
      ((loadAll load state files).1 ++ [(file, (load file (loadAll load state files).2).1)],
        (load file (loadAll load state files).2).2) := by
  induction files generalizing state with
  | nil => rfl
  | cons other later inductionHypothesis =>
      rw [List.cons_append, loadAll_cons, loadAll_cons, inductionHypothesis]
      rfl

theorem map_fst_loadAll (load : Loader σ) (state : σ) (files : List String) :
    (loadAll load state files).1.map Prod.fst = files := by
  induction files generalizing state with
  | nil => rfl
  | cons file later inductionHypothesis =>
      rw [loadAll_cons, List.map_cons, inductionHypothesis]

theorem loadAll_logged (load : Loader σ) (state : σ) (before : List (String × Loaded))
    (files : List String) :
    loadAll load.logged (state, before) files =
      ((loadAll load state files).1, (loadAll load state files).2,
        before ++ (loadAll load state files).1) := by
  induction files generalizing state before with
  | nil => simp [loadAll]
  | cons file later inductionHypothesis =>
      have logged :
          load.logged file (state, before) =
            ((load file state).1, (load file state).2,
              before ++ [(file, (load file state).1)]) :=
        rfl
      rw [loadAll_cons, loadAll_cons, logged, inductionHypothesis, List.append_assoc]
      rfl

theorem lookup_isSome_iff_mem (load : Loader σ) (state : σ) (files : List String)
    (file : String) :
    ((loadAll load state files).1.lookup file).isSome ↔ file ∈ files := by
  constructor
  · intro found
    obtain ⟨entry, member, same⟩ := List.lookup_isSome_iff.mp found
    have named : entry.1 ∈ (loadAll load state files).1.map Prod.fst :=
      List.mem_map_of_mem member
    rw [map_fst_loadAll] at named
    rw [eq_of_beq same]
    exact named
  · intro named
    rw [← map_fst_loadAll load state files] at named
    obtain ⟨entry, member, same⟩ := List.mem_map.mp named
    exact List.lookup_isSome_iff.mpr ⟨entry, member, beq_iff_eq.mpr same.symm⟩

theorem lookup_eq_none_of_not_mem (load : Loader σ) (state : σ) {files : List String}
    {file : String} (new : file ∉ files) :
    (loadAll load state files.eraseDups).1.lookup file = none := by
  rw [← Option.not_isSome_iff_eq_none, lookup_isSome_iff_mem, List.mem_eraseDups]
  exact new

/-! ## What is known while records are resolved -/

theorem eraseDups_concat_of_mem {files : List String} {file : String} (named : file ∈ files) :
    (files ++ [file]).eraseDups = files.eraseDups := by
  rw [List.eraseDups_append, List.removeAll, List.filter_cons_of_neg (by simpa using named),
    List.filter_nil, List.eraseDups_nil, List.append_nil]

theorem eraseDups_concat_of_not_mem {files : List String} {file : String}
    (new : file ∉ files) : (files ++ [file]).eraseDups = files.eraseDups ++ [file] := by
  have single : [file].eraseDups = [file] := by
    rw [List.eraseDups_cons]
    rfl
  rw [List.eraseDups_append, List.removeAll, List.filter_cons_of_pos (by simpa using new),
    List.filter_nil, single]

/-- What a load has given stays known when the batch turns to another file. -/
theorem lookup_concat {load : Loader σ} {first : σ} {files : List String} {other : String}
    {loaded : Loaded}
    (found : (loadAll load first files.eraseDups).1.lookup other = some loaded) (file : String) :
    (loadAll load first (files ++ [file]).eraseDups).1.lookup other = some loaded := by
  by_cases named : file ∈ files
  · rw [eraseDups_concat_of_mem named]
    exact found
  · rw [eraseDups_concat_of_not_mem named, loadAll_concat, List.lookup_append, found]
    rfl

/-- The state of a batch after records that name some files.  Its loader has loaded each of them
once, and what these loads gave is remembered. -/
structure State.Holds (load : Loader σ) (config : Config) (first : σ) (files : List String)
    (state : State σ) : Prop where
  loader : state.loader = (loadAll load first files.eraseDups).2
  sources : ∀ file : String,
    state.sources.lookup file =
      ((loadAll load first files.eraseDups).1.lookup file).map (source config)

variable {load : Loader σ} {config : Config} {first : σ} {files : List String} {state : State σ}

theorem State.Holds.empty : State.Holds load config first [] ⟨[], first⟩ :=
  ⟨rfl, fun _ => rfl⟩

theorem State.Holds.sourceOf_of_mem (holds : state.Holds load config first files) {file : String}
    (named : file ∈ files) :
    ∃ loaded : Loaded,
      (loadAll load first files.eraseDups).1.lookup file = some loaded ∧
        sourceOf load config state file = (source config loaded, state) := by
  have isLoaded : ((loadAll load first files.eraseDups).1.lookup file).isSome :=
    (lookup_isSome_iff_mem load first _ file).mpr (List.mem_eraseDups.mpr named)
  obtain ⟨loaded, found⟩ := Option.isSome_iff_exists.mp isLoaded
  have remembered : state.sources.lookup file = some (source config loaded) := by
    rw [holds.sources, found]
    rfl
  exact ⟨loaded, found, by rw [sourceOf, remembered]⟩

theorem State.Holds.sourceOf_of_not_mem (holds : state.Holds load config first files)
    {file : String} (new : file ∉ files) :
    let answer := load file (loadAll load first files.eraseDups).2
    sourceOf load config state file =
      (source config answer.1, ⟨(file, source config answer.1) :: state.sources, answer.2⟩) := by
  have unknown : state.sources.lookup file = none := by
    rw [holds.sources, lookup_eq_none_of_not_mem load first new]
    rfl
  intro answer
  rw [sourceOf, unknown]
  simp only [holds.loader]
  rfl

/-- Turning to a file gives what its one load has given, now or before. -/
theorem State.Holds.sourceOf (holds : state.Holds load config first files) (file : String) :
    (sourceOf load config state file).2.Holds load config first (files ++ [file]) ∧
      ∃ loaded : Loaded,
        (loadAll load first (files ++ [file]).eraseDups).1.lookup file = some loaded ∧
          (sourceOf load config state file).1 = source config loaded := by
  by_cases named : file ∈ files
  · obtain ⟨loaded, found, unchanged⟩ := holds.sourceOf_of_mem named
    have sameFiles := eraseDups_concat_of_mem named
    rw [unchanged, sameFiles]
    refine ⟨⟨?_, ?_⟩, loaded, found, rfl⟩
    · rw [sameFiles]
      exact holds.loader
    · rw [sameFiles]
      exact holds.sources
  · have moreFiles := eraseDups_concat_of_not_mem named
    have unloaded := lookup_eq_none_of_not_mem load first named
    rw [holds.sourceOf_of_not_mem named, moreFiles, loadAll_concat]
    refine ⟨⟨?_, ?_⟩, _, ?_, rfl⟩
    · rw [moreFiles, loadAll_concat]
    · intro other
      rw [moreFiles, loadAll_concat, List.lookup_append, List.lookup_cons, holds.sources]
      by_cases same : other = file
      · subst same
        simp [unloaded]
      · simp [List.lookup_cons, beq_false_of_ne same]
    · rw [List.lookup_append, unloaded]
      simp

/-! ## Records alone -/

/-- The line that a record alone resolves to, given what loading its file gave, or the reason why
there is none. -/
def lineAlone (config : Config) (loaded : Loaded) (violation : Violation) : Except String Nat := do
  let bytes ← loaded.mapError fun reasons => String.intercalate ": " reasons
  let text := if config.normalizeLineEndings then LineEnding.normalize bytes else bytes
  let query ←
    (Query.ofPath violation.path text (violation.line.getD config.startLine)).mapError
      fun fault => "invalid path: " ++ fault.message
  query.line.mapError fun fault => "invalid document: " ++ fault.message

/-- What a record alone resolves to, given what loading its file gave. -/
def alone (config : Config) (loaded : Loaded) (violation : Violation) : ResolvedViolation :=
  match lineAlone config loaded violation with
  | .ok line => ⟨violation, some line, none⟩
  | .error reason =>
      let start := violation.line.getD config.startLine
      ⟨violation, if config.fallback then some start else none, some reason⟩

theorem lineAlone_eq (config : Config) (loaded : Loaded) (violation : Violation) :
    lineAlone config loaded violation =
      (locate (source config loaded) violation.path (startLine config violation)).map
        fun noted => noted.1.line := by
  cases loaded with
  | error reasons => rfl
  | ok bytes =>
      have text :
          (if config.normalizeLineEndings then LineEnding.normalize bytes else bytes) =
            config.prepare bytes :=
        rfl
      simp only [lineAlone, Except.mapError, bind, Except.bind, text]
      rw [source, locate, startLine]
      rcases read :
          Query.ofPath violation.path (config.prepare bytes)
            (violation.line.getD config.startLine) with fault | query
      · rw [resolve_of_fault read]
        rfl
      · rw [resolve_of_query read]
        simp only [Query.line]
        rcases query.walk with fault | noted
        · rfl
        · rfl

theorem resolveOne_eq_alone (config : Config) (loaded : Loaded) (violation : Violation) :
    (resolveOne config (source config loaded) violation).1 = alone config loaded violation := by
  rw [alone, lineAlone_eq, resolveOne]
  rcases locate (source config loaded) violation.path (startLine config violation) with
    reason | noted
  · rfl
  · rfl

/-! ## Records in turn -/

/-- Loads the files that records name, each once and in the order in which they are named first. -/
def loadFiles (load : Loader σ) (first : σ) (violations : List Violation) :
    List (String × Loaded) × σ :=
  loadAll load first (violations.map Violation.file).eraseDups

/-- The answer to a record, from the one load of its file. -/
def Answered (config : Config) (loads : List (String × Loaded)) (violation : Violation)
    (answer : ResolvedViolation × List Note) : Prop :=
  ∃ loaded : Loaded,
    loads.lookup violation.file = some loaded ∧
      answer = resolveOne config (source config loaded) violation

/-- The tally of a batch after some records. -/
structure Tally.Follows (load : Loader σ) (config : Config) (first : σ) (done : List Violation)
    (tally : Tally σ) : Prop where
  state : tally.state.Holds load config first (done.map Violation.file)
  answers :
    ∃ answers : List (ResolvedViolation × List Note),
      List.Forall₂ (Answered config (loadFiles load first done).1) done answers ∧
        tally.resolved.reverse = answers.map Prod.fst ∧
        tally.notes.reverse = answers.flatMap Prod.snd

variable {done : List Violation} {tally : Tally σ}

theorem Tally.Follows.empty :
    Tally.Follows load config first [] { state := ⟨[], first⟩ } :=
  ⟨.empty, [], .nil, rfl, rfl⟩

theorem Tally.add_eq {violation : Violation} {source : Source}
    (turned : (sourceOf load config tally.state violation.file).1 = source) :
    tally.add load config violation =
      ⟨(sourceOf load config tally.state violation.file).2,
        (resolveOne config source violation).1 :: tally.resolved,
        (resolveOne config source violation).2.reverseAux tally.notes⟩ := by
  rw [← turned]
  rfl

theorem Tally.Follows.add (follows : tally.Follows load config first done)
    (violation : Violation) :
    (tally.add load config violation).Follows load config first (done ++ [violation]) := by
  obtain ⟨holds, loaded, found, turned⟩ := follows.state.sourceOf violation.file
  obtain ⟨answers, earlier, resolved, notes⟩ := follows.answers
  have files :
      (done ++ [violation]).map Violation.file = done.map Violation.file ++ [violation.file] :=
    List.map_append
  have kept :
      List.Forall₂ (Answered config (loadFiles load first (done ++ [violation])).1)
        done answers := by
    refine earlier.imp ?_
    rintro other answer ⟨before, foundBefore, answered⟩
    rw [loadFiles, files]
    exact ⟨before, lookup_concat foundBefore violation.file, answered⟩
  have last :
      Answered config (loadFiles load first (done ++ [violation])).1
        violation (resolveOne config (source config loaded) violation) := by
    rw [loadFiles, files]
    exact ⟨loaded, found, rfl⟩
  refine ⟨?_, _, List.rel_append kept (.cons last .nil), ?_, ?_⟩
  · rw [files, Tally.add_eq turned]
    exact holds
  · rw [Tally.add_eq turned, List.reverse_cons, resolved, List.map_append]
    rfl
  · rw [Tally.add_eq turned, List.reverseAux_eq, List.reverse_append, List.reverse_reverse, notes,
      List.flatMap_append, List.flatMap_singleton]

theorem Tally.Follows.foldl_add (follows : tally.Follows load config first done)
    (violations : List Violation) :
    (violations.foldl (Tally.add load config) tally).Follows load config first
      (done ++ violations) := by
  induction violations generalizing done tally with
  | nil =>
      rw [List.append_nil]
      exact follows
  | cons violation later inductionHypothesis =>
      have rest := inductionHypothesis (follows.add violation)
      rw [List.append_assoc] at rest
      exact rest

theorem run_answers (load : Loader σ) (config : Config) (first : σ)
    (violations : List Violation) :
    ∃ answers : List (ResolvedViolation × List Note),
      List.Forall₂ (Answered config (loadFiles load first violations).1) violations answers ∧
        run load config first violations =
          ⟨answers.map Prod.fst, answers.flatMap Prod.snd,
            (loadFiles load first violations).2⟩ := by
  have empty : Tally.Follows load config first [] { state := ⟨[], first⟩ } := .empty
  have follows := empty.foldl_add violations
  obtain ⟨answers, each, resolved, notes⟩ := follows.answers
  refine ⟨answers, each, ?_⟩
  rw [run, resolved, notes, follows.state.loader]
  rfl

theorem rightUnique_answered (config : Config) (loads : List (String × Loaded)) :
    Relator.RightUnique (Answered config loads) := by
  rintro violation answer other ⟨loaded, found, answered⟩ ⟨loadedAgain, foundAgain, otherAnswered⟩
  rw [found] at foundAgain
  cases foundAgain
  rw [answered, otherAnswered]

theorem run_logged (load : Loader σ) (config : Config) (first : σ)
    (violations : List Violation) :
    run load.logged config (first, []) violations =
      ⟨(run load config first violations).resolved, (run load config first violations).notes,
        (loadFiles load first violations).2, (loadFiles load first violations).1⟩ := by
  obtain ⟨answers, each, result⟩ := run_answers load config first violations
  obtain ⟨loggedAnswers, loggedEach, loggedResult⟩ :=
    run_answers load.logged config (first, []) violations
  have sameLoads :
      loadFiles load.logged (first, []) violations =
        ((loadFiles load first violations).1, (loadFiles load first violations).2,
          (loadFiles load first violations).1) :=
    loadAll_logged load first [] (violations.map Violation.file).eraseDups
  rw [sameLoads] at loggedEach loggedResult
  have sameAnswers : loggedAnswers = answers :=
    List.right_unique_forall₂' (rightUnique_answered config _) loggedEach each
  rw [loggedResult, sameAnswers, result]

/-- A batch loads each file that its records name, once and in the order in which they name it
first, and each load goes on from the state that the one before it has left.  A loader that keeps a
list of its loads shows that there are no others.  A record resolves to what it resolves to alone,
given what the load of its file gave. -/
theorem run_loads_each_file_once (load : Loader σ) (config : Config) (first : σ)
    (violations : List Violation) :
    let files := (violations.map Violation.file).eraseDups
    let loads := (loadAll load first files).1
    let last := (loadAll load first files).2
    let outcome := run load config first violations
    run load.logged config (first, []) violations =
        ⟨outcome.resolved, outcome.notes, last, loads⟩ ∧
      loads.map Prod.fst = files ∧
      outcome.loader = last ∧
      List.Forall₂
        (fun violation resolved =>
          ∃ loaded : Loaded,
            loads.lookup violation.file = some loaded ∧ resolved = alone config loaded violation)
        violations outcome.resolved := by
  intro files loads last outcome
  obtain ⟨answers, each, result⟩ := run_answers load config first violations
  have named : outcome = ⟨answers.map Prod.fst, answers.flatMap Prod.snd, last⟩ := result
  refine ⟨run_logged load config first violations, map_fst_loadAll load first files, ?_, ?_⟩
  · rw [named]
  · rw [named, List.forall₂_map_right_iff]
    refine each.imp ?_
    rintro violation answer ⟨loaded, found, answered⟩
    refine ⟨loaded, found, ?_⟩
    rw [answered, resolveOne_eq_alone]

end Batch
end FieldLine
