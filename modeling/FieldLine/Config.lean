import FieldLine.LineEnding

/-!
The settings of the program.
-/

namespace FieldLine

/-- The settings: the line to start from where none is given, whether line endings are normalized
before a document is read, the output format, and whether the start line is reported where a
path or document is at fault. -/
structure Config where
  startLine : Nat := 1
  normalizeLineEndings : Bool := true
  outputFormat : String := "text"
  fallback : Bool := true
deriving DecidableEq, Repr, Inhabited

/-- A document as it is read under some settings. -/
def Config.prepare (config : Config) (bytes : List UInt8) : List UInt8 :=
  if config.normalizeLineEndings then LineEnding.normalize bytes else bytes

end FieldLine
