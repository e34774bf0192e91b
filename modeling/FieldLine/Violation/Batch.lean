import FieldLine.Config
import FieldLine.Reasons
import FieldLine.Resolve
import FieldLine.Violation.Record

/-!
Resolving many violation records.  Each file is loaded once, when the first record names it,
and what the load gave is used for all records of the file.
-/

namespace FieldLine

/-- What loading a file gives: its bytes, or why there are none. -/
abbrev Loaded := Except Reasons (List UInt8)

/-- A way to load files by name.  Each load may depend on the loads before it. -/
abbrev Loader (σ : Type) := String → σ → Loaded × σ

namespace Batch

/-- What is remembered of a load: the bytes to resolve against, or the reasons in one line. -/
abbrev Source := Except String (List UInt8)

def source (config : Config) : Loaded → Source
  | .ok bytes => .ok (config.prepare bytes)
  | .error reasons => .error reasons.render

/-- The line that a record is resolved from. -/
def startLine (config : Config) (violation : Violation) : Nat :=
  violation.line.getD config.startLine

def locate (source : Source) (path : String) (start : Nat) : Except String Walk.Noted :=
  match source with
  | .error reason => .error reason
  | .ok bytes => (resolve bytes path start).mapError ResolveFault.message

def resolveOne (config : Config) (source : Source) (violation : Violation) :
    ResolvedViolation × List Note :=
  let start := startLine config violation
  match locate source violation.path start with
  | .ok (walk, notes) =>
      (⟨violation, some walk.line, none⟩,
        notes ++ [.recordResolved violation.rule violation.file violation.path walk.line])
  | .error reason =>
      (⟨violation, if config.fallback then some start else none, some reason⟩,
        [.recordFailed violation.rule violation.file violation.path reason])

structure State (σ : Type) where
  sources : List (String × Source)
  loader : σ

/-- The source of a file, which is loaded unless it is known. -/
def sourceOf {σ : Type} (load : Loader σ) (config : Config) (state : State σ) (file : String) :
    Source × State σ :=
  match state.sources.lookup file with
  | some source => (source, state)
  | none =>
      let (loaded, loader) := load file state.loader
      let source := source config loaded
      (source, ⟨(file, source) :: state.sources, loader⟩)

/-- What has been resolved so far, latest first, and what was noted. -/
structure Tally (σ : Type) where
  state : State σ
  resolved : List ResolvedViolation := []
  notes : List Note := []

def Tally.add {σ : Type} (load : Loader σ) (config : Config) (tally : Tally σ)
    (violation : Violation) : Tally σ :=
  let (source, state) := sourceOf load config tally.state violation.file
  let (resolved, notes) := resolveOne config source violation
  ⟨state, resolved :: tally.resolved, notes.reverseAux tally.notes⟩

/-- What resolving records gives: the records in their order, the notes in theirs, and the last
state of the loader. -/
structure Outcome (σ : Type) where
  resolved : List ResolvedViolation
  notes : List Note
  loader : σ

/-- Resolves records with a loader that starts in some state. -/
def run {σ : Type} (load : Loader σ) (config : Config) (loader : σ)
    (violations : List Violation) : Outcome σ :=
  let tally := violations.foldl (Tally.add load config) { state := ⟨[], loader⟩ }
  ⟨tally.resolved.reverse, tally.notes.reverse, tally.state.loader⟩

end Batch
end FieldLine
