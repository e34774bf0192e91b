import FieldLine.Text.Hex
import FieldLine.Yaml.Cursor

/-!
Quoted scalars.  Between single quotes only the quote itself is special, and is doubled.
Between double quotes a backslash starts an escape.  Line breaks are folded in both.
-/

namespace FieldLine
namespace Yaml
namespace Quoted

/-- What the character after a backslash stands for: a character, or a code point written
with a number of hexadecimal digits. -/
inductive Escape where
  | char (c : Char)
  | code (digits : Nat)

def escape? (c : Char) : Option Escape :=
  match c with
  | '0' => some <| .char '\x00'
  | 'a' => some <| .char '\x07'
  | 'b' => some <| .char '\x08'
  | 't' => some <| .char '\t'
  | '\t' => some <| .char '\t'
  | 'n' => some <| .char '\n'
  | 'v' => some <| .char '\x0b'
  | 'f' => some <| .char '\x0c'
  | 'r' => some <| .char '\x0d'
  | 'e' => some <| .char '\x1b'
  | ' ' => some <| .char ' '
  | '"' => some <| .char '"'
  | '/' => some <| .char '/'
  | '\\' => some <| .char '\\'
  | 'N' => some <| .char '\u0085'
  | '_' => some <| .char '\u00a0'
  | 'L' => some <| .char '\u2028'
  | 'P' => some <| .char '\u2029'
  | 'x' => some <| .code 2
  | 'u' => some <| .code 4
  | 'U' => some <| .code 8
  | _ => none

/-- White space inside a scalar, which is folded once it ends.  Its lines are counted from
the first break on; an escaped break starts them without one. -/
structure Gap where
  blanks : List Char := []
  lines : Bool := false
  broken : Bool := false
  emptyLines : Nat := 0

def Gap.addTo (gap : Gap) (text : List Char) : List Char :=
  if !gap.lines then
    gap.blanks ++ text
  else if gap.broken && gap.emptyLines = 0 then
    ' ' :: text
  else
    List.replicate gap.emptyLines '\n' ++ text

/-- Which part of a quoted scalar is being read: its text, white space in it, or the digits of
a code point. -/
inductive Part where
  | text
  | gap (gap : Gap)
  | code (digits value : Nat)

/-- What is the same all through one scalar: where it starts, the indentation of the block
that it stands in, and its quote. -/
structure Setting where
  start : Mark
  indent : Int
  single : Bool

/-- Reads on with the text so far, latest character first. -/
def readFrom (setting : Setting) :
    List Char → Place → Part → List Char → Except Fault (List Char × Cursor)
  | [], _, .code _ _, _ => .error ⟨setting.start, .escapeHexMissing⟩
  | [], _, _, _ => .error ⟨setting.start, .quotedUnterminated⟩
  | c :: rest, place, .code digits value, text =>
      match Hex.value? c with
      | none => .error ⟨setting.start, .escapeHexMissing⟩
      | some digit =>
          if digits ≤ 1 then
            match Hex.char? (16 * value + digit) with
            | none => .error ⟨setting.start, .escapeNotCharacter⟩
            | some escaped => readFrom setting rest place.solid .text (escaped :: text)
          else
            readFrom setting rest place.solid (.code (digits - 1) (16 * value + digit)) text
  | c :: rest, place, part, text =>
      let gap : Gap := match part with
        | .gap gap => gap
        | _ => {}
      if isBlank c then
        if !gap.lines then
          readFrom setting rest place.blank (.gap { gap with blanks := c :: gap.blanks }) text
        else if c = '\t' && (place.column : Int) < setting.indent then
          .error ⟨place.mark, .quotedTab⟩
        else
          readFrom setting rest place.blank (.gap gap) text
      else if c = '\n' then
        if !gap.lines then
          readFrom setting rest place.newline (.gap { lines := true, broken := true }) text
        else
          readFrom setting rest place.newline
            (.gap { gap with emptyLines := gap.emptyLines + 1 }) text
      else if part matches .gap _ && place.column = 0 && atDocumentIndicator (c :: rest) then
        .error ⟨setting.start, .quotedAtDocumentIndicator⟩
      else if part matches .gap _ && (place.column : Int) < setting.indent then
        .error ⟨setting.start, .quotedIndentShallow⟩
      else
        let text := gap.addTo text
        if setting.single then
          if c = '\'' then
            match rest with
            | '\'' :: rest => readFrom setting rest place.solid.solid .text ('\'' :: text)
            | rest => .ok (text.reverse, ⟨place.solid, rest⟩)
          else
            readFrom setting rest place.solid .text (c :: text)
        else if c = '"' then
          .ok (text.reverse, ⟨place.solid, rest⟩)
        else if c = '\\' then
          match rest with
          | [] => .error ⟨setting.start, .escapeUnknown⟩
          | '\n' :: rest =>
              readFrom setting rest place.solid.newline (.gap { lines := true }) text
          | e :: rest =>
              match escape? e with
              | none => .error ⟨setting.start, .escapeUnknown⟩
              | some (.char escaped) =>
                  readFrom setting rest place.solid.solid .text (escaped :: text)
              | some (.code digits) =>
                  readFrom setting rest place.solid.solid (.code digits 0) text
        else
          readFrom setting rest place.solid .text (c :: text)

def read (cursor : Cursor) (indent : Int) (single : Bool) :
    Except Fault (List Char × Cursor) :=
  readFrom ⟨cursor.mark, indent, single⟩ cursor.rest.tail cursor.toPlace.solid .text []

end Quoted
end Yaml
end FieldLine
