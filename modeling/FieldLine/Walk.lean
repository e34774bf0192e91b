import FieldLine.Document.Node
import FieldLine.Log
import FieldLine.Path

/-!
Following a path into a document.  A walk never fails: where a step does not match, it stops
and keeps the line that it has reached.
-/

namespace FieldLine

/-- How far a walk has come: it still has steps to take, all of them matched, or one did not. -/
inductive Progress where
  | descending
  | resolved
  | fallenBack
deriving DecidableEq, Repr

def Progress.render : Progress → String
  | descending => "Descending"
  | resolved => "Resolved"
  | fallenBack => "FallenBack"

/-- Where a walk ends: the line and how far it came. -/
structure Walk where
  line : Nat
  progress : Progress
deriving DecidableEq, Repr

namespace Walk

/-- A walk together with what is worth noting about it. -/
abbrev Noted := Walk × List Note

/-- A walk that stops early, with its reason. -/
def stop (line : Nat) (note : Note) : Noted :=
  (⟨line, .fallenBack⟩, [note])

/-- Takes steps from a node, having reached a line.  A last step without an index leads to the
line of its key; all other steps lead to the line of the node that they enter. -/
def descend (current : Node) (line : Nat) : List Step → Noted
  | [] => (⟨line, .descending⟩, [])
  | step :: later =>
      match current.pair? step.name with
      | none => stop line <| .keyMissing step.name current.kind current.line line
      | some (key, value) =>
          match step, later with
          | .key _, [] => (⟨key.line, .resolved⟩, [])
          | .key _, later => descend value value.line later
          | .element name index, later =>
              match value.item? index, later with
              | none, _ =>
                  stop value.line <|
                    .elementMissing index value.kind name value.line value.line
              | some item, [] => (⟨item.line, .resolved⟩, [])
              | some item, later => descend item item.line later

/-- Follows steps from the content of a document.  Where nothing matches, the walk keeps the
start line. -/
def follow (root : Node) (steps : List Step) (start : Nat) : Noted :=
  match root.content? with
  | none => stop start <| .noContent start
  | some content => descend content start steps

end Walk
end FieldLine
