import FieldLine.Command.Run
import FieldLine.Config.Storage

/-!
The command-line program.  It looks at the files that a command depends on and leaves the rest to
the command.
-/

namespace FieldLine
namespace Program

/-- The number of a system error, whose sign may be turned around. -/
def errorNumber (code : UInt32) : Nat :=
  if code < 2147483648 then code.toNat else (0 - code).toNat

/-- The fault with a number and words of the system. -/
def numberedFault (code : UInt32) (words : String) : FileFault :=
  match errorNumber code with
  | 2 => .missing
  | 20 => .notDirectory
  | 21 => .isDirectory
  | 36 => .nameTooLong
  | number => .other number words

def faultOf (error : IO.Error) : FileFault :=
  match error with
  | .noFileOrDirectory .. => .missing
  | .inappropriateType _ code words => numberedFault code words
  | .invalidArgument _ code words => numberedFault code words
  | .permissionDenied _ code words => numberedFault code words
  | .otherError code words => numberedFault code words
  | error => .other 0 (toString error)

def readFile (path : String) : IO (Except FileFault (List UInt8)) := do
  try
    return .ok (← IO.FS.readBinFile path).toList
  catch error =>
    return .error (faultOf error)

/-- Reads the files with some names, but for the standard input. -/
def readFiles (names : List String) : IO (List (String × Except FileFault (List UInt8))) :=
  (names.eraseDups.filter (· ≠ Source.inputName)).mapM fun name => return (name, ← readFile name)

def filesOf (known : List (String × Except FileFault (List UInt8))) : Source.Files := fun path =>
  (known.lookup path).getD (.error .missing)

/-- Reads the standard input, if one of some names stands for it. -/
def readInput (names : List String) : IO (List UInt8) := do
  if names.contains Source.inputName then
    return (← (← IO.getStdin).readBinToEnd).toList
  else
    return []

def readConfig : IO (Config × List Note) := do
  match ← IO.getEnv "HOME" with
  | none => return ({}, [])
  | some home =>
      let path := Config.pathOf home
      return Config.ofFile path (← readFile path)

/-- What a command line depends on, with what is worth noting about the settings. -/
def surroundings (arguments : Arguments) : IO (Command.Surroundings × List Note) := do
  let (config, notes) ← readConfig
  let first := arguments.request.source
  let known ← readFiles [first]
  let input ← readInput [first]
  let names := arguments.request.laterSources (filesOf known) input
  let later ← readFiles names
  let more ← readInput (if first = Source.inputName then [] else names)
  return (⟨config, filesOf (known ++ later), input ++ more⟩, notes)

/-- The lines that explain the command line. -/
def explanation : String :=
  "Usage: iacline [-f FORMAT] [-v] resolve FILE PATH [-s LINE]\n" ++
  "       iacline [-f FORMAT] [-v] batch FILE\n"

def writeNotes (verbose : Bool) (notes : List Note) : IO Unit :=
  for note in notes do
    if verbose || note.level = .warn then
      IO.eprintln <| "[" ++ note.level.render ++ "] " ++ note.message

def runCommand (arguments : Arguments) : IO Command.Outcome := do
  let (around, notes) ← surroundings arguments
  writeNotes arguments.verbose notes
  let outcome := Command.finished (Command.run around arguments)
  writeNotes arguments.verbose outcome.notes
  return outcome

/-- Writes an explanation of the command line, if there is a reason to. -/
def explain (stop : Arguments.Stop) : IO Unit :=
  match stop with
  | .help => IO.print explanation
  | .usage => IO.eprint explanation
  | .version => return

def run (line : List String) : IO UInt32 := do
  let outcome ←
    match Arguments.parse line with
    | .ok arguments => runCommand arguments
    | .error stop => do
        explain stop
        pure (Command.stopped stop)
  IO.print outcome.written
  IO.eprint outcome.report
  return outcome.exit.toUInt32

end Program
end FieldLine

def main (line : List String) : IO UInt32 :=
  FieldLine.Program.run line
