import FieldLine.Text.Decimal
import FieldLine.Yaml.Cursor

/-!
Block scalars, literal (`|`) and folded (`>`).  The header says what becomes of the final line
breaks and may fix the indentation, which is otherwise that of the first line with content.
-/

namespace FieldLine
namespace Yaml
namespace Block

inductive Chomping where
  | clip
  | strip
  | keep
deriving DecidableEq, Repr

/-- What a header says, and the number of its characters after the first. -/
structure Header where
  chomping : Chomping
  increment : Nat
  length : Nat

def chomping? (c : Char) : Option Chomping :=
  if c = '+' then some .keep else if c = '-' then some .strip else none

/-- The indentation that a character asks for; zero is refused. -/
def increment? (c : Char) : Except Cause (Option Nat) :=
  if c = '0' then .error .blockIndentZero
  else if Decimal.isDigit c then .ok <| some <| Decimal.digitValue c
  else .ok none

/-- Reads the chomping and indentation indicators, which may come in either order. -/
def header : List Char → Except Cause Header
  | [] => .ok ⟨.clip, 0, 0⟩
  | [c] =>
      match chomping? c with
      | some chomping => .ok ⟨chomping, 0, 1⟩
      | none => (increment? c).map fun
          | some increment => ⟨.clip, increment, 1⟩
          | none => ⟨.clip, 0, 0⟩
  | c :: d :: _ =>
      match chomping? c with
      | some chomping => (increment? d).map fun
          | some increment => ⟨chomping, increment, 2⟩
          | none => ⟨chomping, 0, 1⟩
      | none => (increment? c).map fun
          | some increment =>
              match chomping? d with
              | some chomping => ⟨chomping, increment, 2⟩
              | none => ⟨.clip, increment, 1⟩
          | none => ⟨.clip, 0, 0⟩

/-- Moves over empty lines and over the spaces that indent the next line, at most `indent` of
them.  Gives the number of lines. -/
def skipIndent (indent : Nat) : List Char → Place → Nat → Cursor × Nat
  | [], place, lines => (⟨place, []⟩, lines)
  | c :: rest, place, lines =>
      if c = ' ' && place.column < indent then
        skipIndent indent rest place.blank lines
      else if c = '\n' then
        skipIndent indent rest place.newline (lines + 1)
      else
        (⟨place, c :: rest⟩, lines)

/-- Moves over empty lines and all spaces before the first content.  Gives the number of lines
and the deepest column reached on any of them. -/
def measureIndent : List Char → Place → Nat → Nat → Cursor × Nat × Nat
  | [], place, lines, deepest => (⟨place, []⟩, lines, max deepest place.column)
  | c :: rest, place, lines, deepest =>
      if c = ' ' then
        measureIndent rest place.blank lines deepest
      else if c = '\n' then
        measureIndent rest place.newline (lines + 1) (max deepest place.column)
      else
        (⟨place, c :: rest⟩, lines, max deepest place.column)

/-- Content that has been read, latest character first, and the line breaks after it. -/
structure Content where
  text : List Char := []
  broken : Bool := false
  emptyLines : Nat := 0
  startsBlank : Bool := false

def Content.breaks (content : Content) : List Char :=
  List.replicate (content.emptyLines + if content.broken then 1 else 0) '\n'

/-- Content with one more line started, whose first character is `c`.  In a folded scalar a
single line break between lines that start with no blank becomes a space. -/
def Content.startLine (content : Content) (folded : Bool) (c : Char) : Content :=
  let joint :=
    if folded && content.broken && !content.startsBlank && !isBlank c then
      if content.emptyLines = 0 then [' '] else List.replicate content.emptyLines '\n'
    else
      content.breaks
  { text := c :: (joint ++ content.text), startsBlank := isBlank c }

def stretch : Nat := 16

/-- How many characters of a line have been looked at once its indentation is skipped. -/
def sightedAfter (indent : Nat) : Nat :=
  max 2 (stretch - ((indent + stretch - 1) % stretch + 1))

/-- The place after a character of content.  Beyond the characters already looked at, columns
count bytes. -/
def advance (place : Place) (ahead : Nat) (c : Char) : Place :=
  if ahead = 0 then
    { place.blank with column := place.column + c.utf8Size }
  else
    place.blank

/-- Reads lines for as long as they are indented by `indent`.  `line` is the number of characters
already looked at inside a line, or none before its content; `ahead` is that number for the
next line to start. -/
def readLines (indent : Nat) (folded : Bool) :
    List Char → Place → Option Nat → Nat → Content → Content × Cursor
  | [], place, _, _, content => (content, ⟨place, []⟩)
  | c :: rest, place, some line, ahead, content =>
      if c = '\n' then
        readLines indent folded rest place.newline none ahead { content with broken := true }
      else
        readLines indent folded rest (advance place line c) (some (line - 1)) ahead
          { content with text := c :: content.text }
  | c :: rest, place, none, ahead, content =>
      if c = ' ' && place.column < indent then
        readLines indent folded rest place.blank none ahead content
      else if c = '\n' then
        readLines indent folded rest place.newline none ahead
          { content with emptyLines := content.emptyLines + 1 }
      else if place.column = indent && !(indent = 0 && atTriple '.' (c :: rest)) then
        readLines indent folded rest (advance place ahead c) (some (ahead - 1))
          (sightedAfter indent) (content.startLine folded c)
      else
        (content, ⟨place, c :: rest⟩)

/-- The text of a scalar with its last line breaks treated as the header says.  At the end of
the input an indented last line without content counts as one more break. -/
def Content.finish (content : Content) (chomping : Chomping) (indent : Nat) (next : Cursor) :
    List Char :=
  let final := if content.broken then ['\n'] else []
  let unfinished := if next.rest = [] ∧ max indent 1 ≤ next.column then ['\n'] else []
  let text := match chomping with
    | .strip => content.text
    | .clip => unfinished ++ final ++ content.text
    | .keep => List.replicate content.emptyLines '\n' ++ unfinished ++ final ++ content.text
  text.reverse

/-- The text of a scalar without content at the end of the input, after its header's line break
(if it has one) and empty lines. -/
def emptyText (chomping : Chomping) (sameLine : Bool) (emptyLines : Nat) : List Char :=
  if sameLine then
    []
  else
    match chomping with
    | .strip => []
    | .clip => ['\n']
    | .keep => List.replicate (max emptyLines 1) '\n'

/-- What reading a block scalar gives: where it counts as starting, its text, and the cursor
after it. -/
structure Reading where
  mark : Mark
  text : List Char
  cursor : Cursor

/-- Reads the block scalar whose indicator is at the cursor, inside a block that is indented by
`outer`.  When `sighted` characters are left, all before them have been looked at. -/
def read (cursor : Cursor) (outer : Int) (folded : Bool) (sighted : Nat) :
    Except Fault Reading := do
  let header ← (header cursor.rest.tail).mapError fun cause => ⟨cursor.mark, cause⟩
  let (afterHeader, _) ← (cursor.solid (header.length + 1)).skipBlanks true
  if !atLineEnd afterHeader.rest then
    cursor.fault .blockHeaderTrailing
  else
    let body := afterHeader.skipBreak
    if nextIs (· = '\t') body.rest then
      cursor.fault .blockStartsWithTab
    else
      let least := (outer + 1).toNat
      let (first, emptyLines, indent) :=
        if header.increment = 0 then
          let (first, emptyLines, deepest) := measureIndent body.rest body.toPlace 0 0
          (first, emptyLines, max deepest least)
        else
          let indent := outer.toNat + header.increment
          let (first, emptyLines) := skipIndent indent body.rest body.toPlace 0
          (first, emptyLines, indent)
      if first.rest = [] then
        return ⟨cursor.mark, emptyText header.chomping (first.line = cursor.line) emptyLines, first⟩
      else if first.column < indent && outer < (first.column : Int) then
        first.fault .blockLineShallow
      else
        let ahead :=
          if header.increment = 0 then max 1 (first.left - sighted) else sightedAfter indent
        let (content, next) := readLines indent folded first.rest first.toPlace none ahead
          { emptyLines := emptyLines }
        return ⟨first.mark, content.finish header.chomping indent next, next⟩

end Block
end Yaml
end FieldLine
