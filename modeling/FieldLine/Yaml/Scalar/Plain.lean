import FieldLine.Yaml.Cursor

/-!
Plain scalars: text without quotes, which ends at a comment, at a mapping indicator, at a
line that is indented too little or, inside flow collections, at a flow indicator.  Line breaks
inside it are folded.
-/

namespace FieldLine
namespace Yaml
namespace Plain

/-- A character other than a blank or a break continues a plain scalar unless it is a colon
before a gap or, in a flow collection, an indicator. -/
def continues (inFlow : Bool) (c : Char) (rest : List Char) : Bool :=
  if c = ':' then
    !(atGap rest || (inFlow && nextIs isFlow rest))
  else
    !(inFlow && isFlow c)

/-- White space that has been read but only counts if more text follows. -/
structure Gap where
  blanks : List Char := []
  broken : Bool := false
  emptyLines : Nat := 0

/-- The text with the white space added that separates it from more text.  A single line break
becomes a space, and empty lines become line breaks. -/
def Gap.addTo (gap : Gap) (text : List Char) : List Char :=
  if !gap.broken then
    gap.blanks ++ text
  else if gap.emptyLines = 0 then
    ' ' :: text
  else
    List.replicate gap.emptyLines '\n' ++ text

inductive Part where
  | start
  | word (ahead : Nat)
  | gap
  | comment

/-- What is the same all through one scalar: where it starts, the least column of its later
lines, and whether it stands in a flow collection. -/
structure Setting where
  start : Mark
  indent : Int
  inFlow : Bool

/-- What reading a plain scalar gives: its text, the cursor after it, and how many characters
were left after the stretch of text that was looked at for its last word. -/
structure Reading where
  text : List Char
  cursor : Cursor
  sighted : Nat

def stretch : Nat := 16

/-- Whether a tab at this place would indent a line that has content.  Tabs may only indent
lines that hold nothing but blanks or a comment. -/
def isTabIndent (setting : Setting) (place : Place) (c : Char) : Bool :=
  c = '\t' && place.fresh && (place.column : Int) < setting.indent

/-- Reads on with the text so far (latest character first) and the gap after it. -/
def readFrom (setting : Setting) :
    List Char → Place → Part → Gap → List Char → Nat → Except Fault Reading
  | [], place, part, _, text, sighted =>
      match part with
      | .word ahead => .ok ⟨text, ⟨place, []⟩, place.left - ahead⟩
      | _ => .ok ⟨text, ⟨place, []⟩, sighted⟩
  | c :: rest, place, .word ahead, gap, text, sighted =>
      if isBlank c then
        readFrom setting rest place.blank .gap { gap with blanks := [c] } text
          (place.left - ahead)
      else if c = '\n' then
        readFrom setting rest place.newline .gap { broken := true } text (place.left - ahead)
      else if continues setting.inFlow c rest then
        readFrom setting rest place.solid (.word (if ahead = 2 then stretch else ahead - 1)) {}
          (c :: text) sighted
      else
        .ok ⟨text, ⟨place, c :: rest⟩, place.left - ahead⟩
  | c :: rest, place, .comment, gap, text, sighted =>
      if c = '\n' then
        readFrom setting rest place.newline .gap gap text sighted
      else
        readFrom setting rest place.blank .comment gap text sighted
  | c :: rest, place, part, gap, text, sighted =>
      if isTabIndent setting place c && !atLineEnd (rest.dropWhile isBlank) then
        if nextIs (· = '#') (rest.dropWhile isBlank) then
          readFrom setting rest place.blank .comment gap text sighted
        else
          .error ⟨setting.start, .plainTab⟩
      else if isBlank c then
        if place.fresh then
          readFrom setting rest place.blank part gap text sighted
        else
          readFrom setting rest place.blank part { gap with blanks := c :: gap.blanks } text
            sighted
      else if c = '\n' then
        if place.fresh then
          readFrom setting rest place.newline part { gap with emptyLines := gap.emptyLines + 1 }
            text sighted
        else
          readFrom setting rest place.newline part { broken := true } text sighted
      else if part matches .gap && !setting.inFlow && (place.column : Int) < setting.indent then
        .ok ⟨text, ⟨place, c :: rest⟩, sighted⟩
      else if (place.fresh && atDocumentIndicator (c :: rest)) || c = '#' then
        .ok ⟨text, ⟨place, c :: rest⟩, sighted⟩
      else if setting.inFlow && c = '-' && nextIs isFlow rest then
        .error ⟨place.mark, .plainStartsWithDash⟩
      else if continues setting.inFlow c rest then
        readFrom setting rest place.solid (.word stretch) {} (c :: gap.addTo text) sighted
      else
        .ok ⟨text, ⟨place, c :: rest⟩, sighted⟩

def read (cursor : Cursor) (indent : Int) (inFlow : Bool) : Except Fault Reading := do
  let setting : Setting := ⟨cursor.mark, indent, inFlow⟩
  let reading ← readFrom setting cursor.rest cursor.toPlace .start {} [] cursor.left
  if reading.text = [] then
    cursor.fault .plainEmpty
  else
    return { reading with text := reading.text.reverse }

end Plain
end Yaml
end FieldLine
