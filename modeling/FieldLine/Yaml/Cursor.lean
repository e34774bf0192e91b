import FieldLine.Yaml.Fault

/-!
A cursor in a text: the characters still to be read and where the first of them stands.
Line breaks are line feeds here; other forms are unified before reading begins.
-/

namespace FieldLine
namespace Yaml

/-! ## Classes of characters -/

def isBlank (c : Char) : Bool :=
  c = ' ' || c = '\t'

def isSpace (c : Char) : Bool :=
  isBlank c || c = '\n'

def isFlow (c : Char) : Bool :=
  c = ',' || c = '[' || c = ']' || c = '\x7b' || c = '\x7d'

/-- A letter, a digit, an underscore or a hyphen, all in ASCII. -/
def isNameChar (c : Char) : Bool :=
  ('0' ≤ c && c ≤ '9') || ('a' ≤ c && c ≤ 'z') || ('A' ≤ c && c ≤ 'Z') || c = '_' || c = '-'

/-- Whether a condition holds of the next character, if there is one. -/
def nextIs (p : Char → Bool) : List Char → Bool
  | [] => false
  | c :: _ => p c

def atGap : List Char → Bool
  | [] => true
  | c :: _ => isSpace c

def atLineEnd : List Char → Bool
  | [] => true
  | c :: _ => c = '\n'

def atTriple (c : Char) : List Char → Bool
  | c₁ :: c₂ :: c₃ :: rest => c₁ = c && c₂ = c && c₃ = c && atGap rest
  | _ => false

/-- A line `---` or `...`, which bounds a document. -/
def atDocumentIndicator (text : List Char) : Bool :=
  atTriple '-' text || atTriple '.' text

/-! ## Places and cursors -/

/-- A place in a text: its line and column, the number of characters from it to the end, and
whether only blanks precede it on its line. -/
structure Place where
  line : Nat := 1
  column : Nat := 0
  left : Nat
  fresh : Bool := true
deriving DecidableEq, Repr

namespace Place

def mark (place : Place) : Mark :=
  ⟨place.line, place.column⟩

def blank (place : Place) : Place :=
  { place with column := place.column + 1, left := place.left - 1 }

def solid (place : Place) : Place :=
  { place with column := place.column + 1, left := place.left - 1, fresh := false }

def newline (place : Place) : Place :=
  { line := place.line + 1, column := 0, left := place.left - 1, fresh := true }

end Place

structure Cursor extends Place where
  rest : List Char
deriving DecidableEq, Repr

namespace Cursor

def start (text : List Char) : Cursor :=
  { left := text.length, rest := text }

/-- Moves over the next `count` characters, which are content on one line. -/
def solid (cursor : Cursor) : Nat → Cursor
  | 0 => cursor
  | count + 1 => ⟨(cursor.solid count).toPlace.solid, (cursor.solid count).rest.tail⟩

/-- Moves over the longest run of characters of one class, which holds no line break. -/
def skipRun (p : Char → Bool) (cursor : Cursor) : Cursor :=
  let count := (cursor.rest.takeWhile p).length
  { cursor with
    column := cursor.column + count
    left := cursor.left - count
    rest := cursor.rest.dropWhile p }

def skipLine (cursor : Cursor) : Cursor :=
  cursor.skipRun (· ≠ '\n')

def skipBreak (cursor : Cursor) : Cursor :=
  match cursor.rest with
  | '\n' :: rest => ⟨cursor.toPlace.newline, rest⟩
  | _ => cursor

def fault {α : Type} (cursor : Cursor) (cause : Cause) : Except Fault α :=
  .error ⟨cursor.mark, cause⟩

/-- The blanks that were found before the end of a line or the next token. -/
structure Blanks where
  spaces : Bool
  tabs : Bool

/-- Moves over blanks and a comment after them, up to the next token on the line or its end.
Tabs count as blanks only if `tabs` is set. -/
def skipBlanks (cursor : Cursor) (tabs : Bool) : Except Fault (Cursor × Blanks) :=
  let isGap := fun c => c = ' ' || (tabs && c = '\t')
  let found := cursor.rest.takeWhile isGap
  let next := cursor.skipRun isGap
  let blanks := ⟨found.any (· = ' '), found.any (· = '\t')⟩
  if nextIs (· = '#') next.rest then
    if found = [] then
      next.fault .commentNotSeparated
    else
      .ok (next.skipLine, blanks)
  else
    .ok (next, blanks)

end Cursor
end Yaml
end FieldLine
