import FieldLine.Command.Arguments
import FieldLine.Source
import FieldLine.Violation.Reading

/-!
Running a command: what it writes, or why it fails.  A command that fails writes nothing.
-/

namespace FieldLine

inductive OutputFormat where
  | text
  | json
deriving DecidableEq, Repr

def OutputFormat.ofName? (name : String) : Option OutputFormat :=
  if name = "text" then some text
  else if name = "json" then some json
  else none

inductive CommandFault where
  | unknownFormat (name : String)
  | source (fault : SourceFault)
  | records (fault : Json.Fault)
  | unresolved (path file : String) (fault : ResolveFault)
deriving DecidableEq, Repr

/-- What went wrong in a command, the outermost reason first. -/
def CommandFault.reasons : CommandFault → Reasons
  | unknownFormat name => ["Unknown output format '" ++ name ++ "', expected text or json"]
  | source fault => fault.reasons
  | records fault => Violation.faultReasons fault
  | unresolved path file fault =>
      ["Failed to resolve '" ++ path ++ "' in " ++ file, fault.message, fault.reason]

def Request.source : Request → String
  | resolve file _ _ => file
  | batch file => file

/-- The sources that a request turns to after the one that it names: those of its records. -/
def Request.laterSources (files : Source.Files) (input : List UInt8) :
    Request → List String
  | resolve .. => []
  | batch file =>
      match (Source.load files file input).1 with
      | .error _ => []
      | .ok bytes =>
          match Violation.readAll bytes with
          | .error _ => []
          | .ok violations => violations.map Violation.file

namespace Command

/-! ## Reports of failures -/

/-- A reason under a heading.  Its further lines are indented as far as its first. -/
def reportCause (heading : String) (indentation : Nat) (reason : String) : String :=
  let newLine := "\n" ++ String.ofList (List.replicate indentation ' ')
  "\n" ++ heading ++ String.intercalate newLine (reason.splitOn "\n")

def reportCauses : Reasons → String
  | [] => ""
  | [reason] => "\n\nCaused by:" ++ reportCause "    " 4 reason
  | reasons =>
      "\n\nCaused by:" ++ String.join (reasons.mapIdx fun index reason =>
        let number := toString index
        reportCause (String.ofList (List.replicate (5 - number.length) ' ') ++ number ++ ": ") 7
          reason)

def report : Reasons → String
  | [] => ""
  | reason :: causes => "Error: " ++ reason ++ reportCauses causes ++ "\n"

/-! ## Commands -/

/-- What a command depends on: the settings, the files, and the standard input. -/
structure Surroundings where
  config : Config
  files : Source.Files
  input : List UInt8

/-- What a command writes, and what is worth noting about it. -/
abbrev Written := String × List Note

def renderWalk (file path : String) (walk : Walk) : String :=
  (Json.Value.object [("file", .string file), ("path", .string path), ("line", .natural walk.line),
    ("state", .string walk.progress.render)]).pretty

/-- Resolves a path in a source.  If this is not possible, the start line is as good as any, unless
the settings say otherwise. -/
def resolveOrStart (config : Config) (file path : String) (source : List UInt8) (start : Nat) :
    Except CommandFault Walk.Noted :=
  match resolve source path start with
  | .ok noted => .ok noted
  | .error fault =>
      if config.fallback then
        .ok (⟨start, .fallenBack⟩, [.pathFailed file path fault.message start])
      else
        .error <| .unresolved path file fault

def runResolve (around : Surroundings) (format : OutputFormat) (file path : String)
    (start : Option Nat) : Except CommandFault Written := do
  let bytes ← (Source.load around.files file around.input).1.mapError .source
  let (walk, notes) ←
    resolveOrStart around.config file path (around.config.prepare bytes)
      (start.getD around.config.startLine)
  match format with
  | .json => return (renderWalk file path walk ++ "\n", notes)
  | .text => return (toString walk.line ++ "\n", notes)

def runBatch (around : Surroundings) (format : OutputFormat) (file : String) :
    Except CommandFault Written := do
  let (loaded, input) := Source.load around.files file around.input
  let violations ← (Violation.readAll (← loaded.mapError .source)).mapError .records
  let outcome := Batch.run (Source.loader around.files) around.config input violations
  match format with
  | .json => return (ResolvedViolation.renderJson outcome.resolved ++ "\n", outcome.notes)
  | .text => return (ResolvedViolation.renderText outcome.resolved, outcome.notes)

/-- Runs a command.  The output format is looked at before any file. -/
def run (around : Surroundings) (arguments : Arguments) : Except CommandFault Written :=
  let name := arguments.format.getD around.config.outputFormat
  match OutputFormat.ofName? name with
  | none => .error <| .unknownFormat name
  | some format =>
      match arguments.request with
      | .resolve file path start => runResolve around format file path start
      | .batch file => runBatch around format file

/-! ## Programs -/

/-- What a program leaves behind: its exit code, what it has written, its report of a failure, and
what is worth noting. -/
structure Outcome where
  exit : Nat
  written : String := ""
  report : String := ""
  notes : List Note := []

def versionLine : String := "iacline 0.1.0\n"

def stopped : Arguments.Stop → Outcome
  | .help => { exit := 0 }
  | .version => { exit := 0, written := versionLine }
  | .usage => { exit := 2 }

def finished : Except CommandFault Written → Outcome
  | .ok (text, notes) => { exit := 0, written := text, notes := notes }
  | .error fault => { exit := 1, report := report fault.reasons }

def runLine (around : Surroundings) (line : List String) : Outcome :=
  match Arguments.parse line with
  | .error stop => stopped stop
  | .ok arguments => finished (run around arguments)

end Command
end FieldLine
