/-!
The events of a document stream, in the order in which they occur in the text.
-/

namespace FieldLine

inductive ScalarStyle where
  | plain
  | singleQuoted
  | doubleQuoted
  | literal
  | folded
deriving DecidableEq, Repr

/-- What happens at one place of a document stream. -/
inductive EventKind where
  | streamStart
  | streamEnd
  | documentStart
  | documentEnd
  | alias
  | scalar (text : String) (style : ScalarStyle)
  | sequenceStart
  | sequenceEnd
  | mappingStart
  | mappingEnd
deriving DecidableEq, Repr

structure Event where
  line : Nat
  kind : EventKind
deriving DecidableEq, Repr

/-- An implicit null: no source text is an empty plain scalar, so one stands for a
missing node. -/
def Event.isImplicitNull (event : Event) : Bool :=
  event.kind == .scalar "" .plain

end FieldLine
