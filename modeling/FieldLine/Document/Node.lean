/-!
Document trees.  Each node knows the line on which it starts; a mapping keeps its keys as
nodes, so that a key has a line of its own.
-/

namespace FieldLine

/-- A node of a document, with the line on which it starts. -/
inductive Node where
  | document (line : Nat) (content : Option Node)
  | mapping (line : Nat) (entries : List (Node × Node))
  | sequence (line : Nat) (items : List Node)
  | scalar (line : Nat) (text : String)
deriving Repr, Inhabited

inductive Kind where
  | document
  | mapping
  | sequence
  | scalar
deriving DecidableEq, Repr

/-- The word for a kind in messages. -/
def Kind.render : Kind → String
  | document => "document"
  | mapping => "mapping"
  | sequence => "sequence"
  | scalar => "scalar"

namespace Node

def line : Node → Nat
  | document line _ => line
  | mapping line _ => line
  | sequence line _ => line
  | scalar line _ => line

def kind : Node → Kind
  | document .. => .document
  | mapping .. => .mapping
  | sequence .. => .sequence
  | scalar .. => .scalar

def text? : Node → Option String
  | scalar _ text => some text
  | _ => none

/-- The content of a document that has one. -/
def content? : Node → Option Node
  | document _ content => content
  | _ => none

/-- The first entry of a mapping whose key is a scalar with exactly this text. -/
def pair? (name : String) : Node → Option (Node × Node)
  | mapping _ entries => entries.find? fun entry => entry.1.text? == some name
  | _ => none

def item? (index : Nat) : Node → Option Node
  | sequence _ items => items[index]?
  | _ => none

end Node
end FieldLine
