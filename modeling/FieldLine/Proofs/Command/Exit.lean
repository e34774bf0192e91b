import FieldLine.Config.Storage
import FieldLine.Proofs.Command.Agreement
import FieldLine.Proofs.Violation.Rerun

/-!
# When a command succeeds

A batch succeeds if its output format is known and its records can be read, whatever becomes of the
documents that the records name.  Resolving a path succeeds if the format is known, the document can
be loaded and, unless the start line may stand in, the path and the document are well formed.  A
command that fails writes nothing.
-/

namespace FieldLine

namespace Command

variable {around : Surroundings} {format : OutputFormat} {file path : String}
  {line : Option Nat} {source bytes : List UInt8} {start : Nat}

/-! ## Outcomes -/

end Command
end FieldLine
