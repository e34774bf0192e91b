import FieldLine.Document.Event
import FieldLine.Yaml.Directive

/-!
The tokens of a text.  Indentation becomes tokens that open and close block collections, and a
key is announced by a token of its own.
-/

namespace FieldLine
namespace Yaml

inductive TokenKind where
  | streamEnd
  | directive (directive : Directive)
  | documentStart
  | documentEnd
  | blockSequenceStart
  | blockMappingStart
  | blockEnd
  | flowSequenceStart
  | flowSequenceEnd
  | flowMappingStart
  | flowMappingEnd
  | blockEntry
  | flowEntry
  | key
  | value
  | alias (name : String)
  | anchor (name : String)
  | tag (handle : Option String)
  | scalar (text : String) (style : ScalarStyle)
deriving DecidableEq, Repr

/-- A token and the place where it starts. -/
structure Token where
  mark : Mark
  kind : TokenKind
deriving DecidableEq, Repr

end Yaml
end FieldLine
