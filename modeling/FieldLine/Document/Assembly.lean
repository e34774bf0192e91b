import FieldLine.Document.Event
import FieldLine.Document.Node

/-!
Building a document tree from its events.  The containers that are still open form a stack;
a finished node goes into the innermost of them, or becomes the root.
-/

namespace FieldLine

/-- A container whose children are still arriving, the latest child first. -/
inductive OpenNode where
  | mapping (line : Nat) (entries : List (Node × Node)) (key : Option Node)
  | sequence (line : Nat) (items : List Node)

/-- The containers still open, innermost first, and the root once it is complete. -/
structure Assembly where
  pending : List OpenNode := []
  root : Option Node := none

namespace Assembly

/-- Puts a finished node into the innermost open container.  In a mapping, keys and values
alternate.  Outside all containers only the first node counts. -/
def attach (assembly : Assembly) (node : Node) : Assembly :=
  match assembly.pending with
  | .mapping line entries none :: outer =>
      { assembly with pending := .mapping line entries (some node) :: outer }
  | .mapping line entries (some key) :: outer =>
      { assembly with pending := .mapping line ((key, node) :: entries) none :: outer }
  | .sequence line items :: outer =>
      { assembly with pending := .sequence line (node :: items) :: outer }
  | [] => { assembly with root := assembly.root <|> some node }

/-- The line of an implicit null that the stream marks at `marked`, the next token.  A missing
value takes the line of its key, a missing element that of the element before it or, if it is
the first, of its sequence. -/
def nullLine (assembly : Assembly) (marked : Nat) : Nat :=
  match assembly.pending with
  | .mapping _ _ (some key) :: _ => key.line
  | .sequence _ (item :: _) :: _ => item.line
  | .sequence line [] :: _ => line
  | _ => marked

/-- Closes the innermost container.  A key that is still without a value gets an empty one. -/
def close (assembly : Assembly) : Assembly :=
  match assembly.pending with
  | .mapping line entries none :: outer =>
      { assembly with pending := outer }.attach (.mapping line entries.reverse)
  | .mapping line entries (some key) :: outer =>
      { assembly with pending := outer }.attach
        (.mapping line ((key, Node.scalar key.line "") :: entries).reverse)
  | .sequence line items :: outer =>
      { assembly with pending := outer }.attach (.sequence line items.reverse)
  | [] => assembly

def feed (assembly : Assembly) (event : Event) : Assembly :=
  match event.kind with
  | .scalar text _ =>
      let line := if event.isImplicitNull then assembly.nullLine event.line else event.line
      assembly.attach (.scalar line text)
  | .alias => assembly.attach (.scalar event.line "")
  | .sequenceStart => { assembly with pending := .sequence event.line [] :: assembly.pending }
  | .mappingStart => { assembly with pending := .mapping event.line [] none :: assembly.pending }
  | .sequenceEnd => assembly.close
  | .mappingEnd => assembly.close
  | .streamStart => assembly
  | .streamEnd => assembly
  | .documentStart => assembly
  | .documentEnd => assembly

/-- The finished document, on the line of its root or else on the first. -/
def finish (assembly : Assembly) : Node :=
  .document ((assembly.root.map Node.line).getD 1) assembly.root

def ofEvents (events : List Event) : Node :=
  (events.foldl feed {}).finish

end Assembly
end FieldLine
