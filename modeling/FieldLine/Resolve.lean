import FieldLine.Document.Source
import FieldLine.Walk

/-!
Resolving a path in the text of a document to a line.
-/

namespace FieldLine

inductive ResolveFault where
  | path (fault : Path.Fault)
  | document (fault : DocumentFault)
deriving DecidableEq, Repr

def ResolveFault.reason : ResolveFault → String
  | path fault => fault.message
  | document fault => fault.message

/-- The wording of a fault, which says what is at fault. -/
def ResolveFault.message : ResolveFault → String
  | path fault => "invalid path: " ++ fault.message
  | document fault => "invalid document: " ++ fault.message

/-- A query for a line: the steps of a path, the document's bytes, and the line to report if
nothing better is known. -/
structure Query where
  steps : List Step
  source : List UInt8
  start : Nat

namespace Query

/-- The query for a path.  A malformed path is noticed before the document is read. -/
def ofPath (path : String) (source : List UInt8) (start : Nat) : Except Path.Fault Query :=
  (Path.parse path).map fun steps => ⟨steps, source, start⟩

/-- Reads the document and follows the steps in it. -/
def walk (query : Query) : Except DocumentFault Walk.Noted :=
  (Document.ofBytes query.source).map fun root => Walk.follow root query.steps query.start

def line (query : Query) : Except DocumentFault Nat :=
  query.walk.map fun noted => noted.1.line

/-- The line that the path leads to or, if the document cannot be read, the start line. -/
def lineOrStart (query : Query) : Nat × List Note :=
  match query.walk with
  | .ok (walk, notes) => (walk.line, notes)
  | .error fault => (query.start, [.startLineUsed query.start fault.message])

end Query

/-- Follows a path in a document given as bytes. -/
def resolve (source : List UInt8) (path : String) (start : Nat) :
    Except ResolveFault Walk.Noted :=
  match Query.ofPath path source start with
  | .error fault => .error (.path fault)
  | .ok query =>
      match query.walk with
      | .error fault => .error (.document fault)
      | .ok noted => .ok noted

theorem Query.ofPath_of_fault {path : String} {fault : Path.Fault}
    (malformed : Path.parse path = .error fault) (source : List UInt8) (start : Nat) :
    Query.ofPath path source start = .error fault := by
  rw [Query.ofPath, malformed]
  rfl

theorem Query.ofPath_of_steps {path : String} {steps : List Step}
    (parsed : Path.parse path = .ok steps) (source : List UInt8) (start : Nat) :
    Query.ofPath path source start = .ok ⟨steps, source, start⟩ := by
  rw [Query.ofPath, parsed]
  rfl

theorem resolve_of_fault {source : List UInt8} {path : String} {start : Nat} {fault : Path.Fault}
    (malformed : Query.ofPath path source start = .error fault) :
    resolve source path start = .error (.path fault) := by
  rw [resolve, malformed]

theorem resolve_of_query {source : List UInt8} {path : String} {start : Nat} {query : Query}
    (read : Query.ofPath path source start = .ok query) :
    resolve source path start = query.walk.mapError .document := by
  simp only [resolve, read]
  rcases query.walk with fault | noted
  · rfl
  · rfl

end FieldLine
