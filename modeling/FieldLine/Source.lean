import FieldLine.Files.Route
import FieldLine.Gzip.Member
import FieldLine.Violation.Batch

/-!
Loading the sources that are named on a command line or in violation records: files, which may be
compressed, and the standard input.
-/

namespace FieldLine

inductive SourceFault where
  | unreadable (path : String) (fault : FileFault)
  | unopened (fault : FileFault)
  | unreadableArchive (fault : FileFault)
  | malformedArchive (fault : Gzip.Fault)
  /-- The input looks compressed but is not well formed. -/
  | malformedInput (fault : Gzip.Fault)
deriving DecidableEq, Repr

/-- What went wrong with a source, the outermost reason first. -/
def SourceFault.reasons : SourceFault → Reasons
  | unreadable path fault => ["Failed to read " ++ path, fault.message]
  | unopened fault => ["Failed to open gzipped file", fault.message]
  | unreadableArchive fault =>
      ["Failed to decompress gzipped file - file may be corrupted", fault.message]
  | malformedArchive fault =>
      ["Failed to decompress gzipped file - file may be corrupted", fault.message]
  | malformedInput fault => ["Failed to decompress gzipped stdin", fault.message]

namespace Source

abbrev Files := String → Except FileFault (List UInt8)

/-- Whether a path names a compressed file. -/
def isArchive (path : String) : Bool :=
  (Route.name? path).bind Route.extension? = some "gz"

/-- The content of a compressed file.  A directory can be opened like a file, but not read. -/
def ofArchive : Except FileFault (List UInt8) → Except SourceFault (List UInt8)
  | .ok bytes => (Gzip.decompress bytes).mapError .malformedArchive
  | .error .isDirectory => .error <| .unreadableArchive .isDirectory
  | .error fault => .error <| .unopened fault

/-- Loads a file, and decompresses it if its name says that it is compressed. -/
def ofFile (files : Files) (path : String) : Except SourceFault (List UInt8) :=
  if isArchive path then ofArchive (files path)
  else (files path).mapError (.unreadable path)

def ofInput (input : List UInt8) : Except SourceFault (List UInt8) :=
  if Gzip.magic.isPrefixOf input then (Gzip.decompress input).mapError .malformedInput
  else .ok input

def inputName : String := "-"

/-- Loads a source by name.  The standard input can be loaded once and is empty from then on. -/
def load (files : Files) (name : String) (input : List UInt8) :
    Except SourceFault (List UInt8) × List UInt8 :=
  if name = inputName then (ofInput input, []) else (ofFile files name, input)

/-- A loader of sources, whose state is the standard input. -/
def loader (files : Files) : Loader (List UInt8) := fun name input =>
  (load files name input).map (·.mapError SourceFault.reasons) id

def fileLoader (files : Files) : Loader Unit := fun name _ =>
  ((ofFile files name).mapError SourceFault.reasons, ())

end Source
end FieldLine
