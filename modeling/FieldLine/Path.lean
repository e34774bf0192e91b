import FieldLine.Text.Decimal

/-!
Path expressions such as `spec.containers[0].image`: dot-separated segments, each a
key name with an optional index in brackets.  A path is read into one step per segment.
-/

namespace FieldLine

/-- One step of a path: the key to look up, and the element of its sequence if any. -/
inductive Step where
  | key (name : String)
  | element (name : String) (index : Nat)
deriving DecidableEq, Repr

namespace Step

/-- The mapping key that a step looks up. -/
def name : Step → String
  | key name => name
  | element name _ => name

def index? : Step → Option Nat
  | key _ => none
  | element _ index => some index

def render : Step → String
  | key name => name
  | element name index => name ++ "[" ++ toString index ++ "]"

end Step

namespace Path

inductive Fault where
  | empty
  | emptySegment (path : String) (position : Nat)
  | unterminatedIndex (segment : String)
  | invalidIndex (segment index : String)
deriving DecidableEq, Repr

def Fault.message : Fault → String
  | empty => "traversal information not available: path is empty"
  | emptySegment path position =>
      "empty segment at position " ++ toString position ++ " in path '" ++ path ++ "'"
  | unterminatedIndex segment =>
      "unterminated index in segment '" ++ segment ++ "', expected ']'"
  | invalidIndex segment index =>
      "incorrect value for index in '" ++ segment ++ "': '" ++ index ++
        "' is not a non-negative integer"

/-- The pieces between the dots of a text; there is always at least one. -/
def segments : List Char → List (List Char)
  | [] => [[]]
  | c :: rest =>
      if c = '.' then
        [] :: segments rest
      else
        match segments rest with
        | [] => [[c]]
        | segment :: later => (c :: segment) :: later

def byteLength (text : List Char) : Nat :=
  text.foldl (fun length c => length + c.utf8Size) 0

/-- Reads what follows the opening bracket: digits, closed by the segment's last character. -/
def index (segment suffix : List Char) : Except Fault Nat :=
  if suffix.getLast? = some ']' then
    match Decimal.word? suffix.dropLast with
    | some index => .ok index
    | none => .error <| .invalidIndex (.ofList segment) (.ofList suffix.dropLast)
  else
    .error <| .unterminatedIndex (.ofList segment)

/-- Reads one segment, which starts at byte `position` of `path`. -/
def step (path : String) (position : Nat) (segment : List Char) : Except Fault Step :=
  match segment.takeWhile (· ≠ '['), segment.dropWhile (· ≠ '[') with
  | [], _ => .error <| .emptySegment path position
  | name, [] => .ok <| .key (.ofList name)
  | name, _ :: suffix => (index segment suffix).map (.element (.ofList name))

/-- Reads segments from byte `position` of `path` on. -/
def steps (path : String) : Nat → List (List Char) → Except Fault (List Step)
  | _, [] => .ok []
  | position, segment :: later => do
      let first ← step path position segment
      let rest ← steps path (position + byteLength segment + 1) later
      return first :: rest

/-- Reads a path into its steps, one for each segment. -/
def parse (path : String) : Except Fault (List Step) :=
  if path.isEmpty then
    .error .empty
  else
    steps path 0 (segments path.toList)

end Path
end FieldLine
