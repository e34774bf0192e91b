import FieldLine.Text.Decimal
import FieldLine.Yaml.Property

/-!
Directives: lines that start with a percent sign and come before a document.
-/

namespace FieldLine
namespace Yaml

/-- A directive: the version of the language, or an abbreviation for tags.  A directive of
another name counts as an abbreviation that abbreviates nothing. -/
inductive Directive where
  | version
  | tag (handle : String)
deriving DecidableEq, Repr

namespace Directive

def skipNumber (cursor : Cursor) : Except Cause Cursor :=
  let length := (cursor.rest.takeWhile Decimal.isDigit).length
  if length = 0 then .error .versionNumberMissing
  else if 9 < length then .error .versionNumberTooLong
  else .ok <| cursor.skipRun Decimal.isDigit

def skipVersion (cursor : Cursor) : Except Cause Cursor := do
  let major ← skipNumber <| cursor.skipRun isBlank
  if nextIs (· = '.') major.rest then
    skipNumber <| major.solid 1
  else
    .error .versionMalformed

/-- Reads the handle of an abbreviation: an exclamation mark, or a name between two. -/
def readHandle (cursor : Cursor) : Except Cause (String × Cursor) :=
  if nextIs (· = '!') cursor.rest then
    let name := (cursor.solid 1).rest.takeWhile isNameChar
    let named := (cursor.solid 1).skipRun isNameChar
    if nextIs (· = '!') named.rest then
      .ok (.ofList ('!' :: name ++ ['!']), named.solid 1)
    else if name = [] then
      .ok ("!", named)
    else
      .error .tagHandleUnterminated
  else
    .error .tagHandleMissing

/-- Reads an abbreviation: a handle and the text that it stands for. -/
def readTag (cursor : Cursor) : Except Cause (String × Cursor) := do
  let (handle, named) ← readHandle <| cursor.skipRun isBlank
  let text := named.skipRun isBlank
  if nextIs (fun c => c = '!' || Tag.isTagChar c) text.rest then
    let next := text.solid (← Tag.measure Tag.isUriChar text.rest)
    if atGap next.rest then
      return (handle, next)
    else
      .error .tagDirectiveTrailing
  else
    .error .tagPrefixMissing

/-- Reads the directive whose percent sign is at the cursor, up to the start of the next
line. -/
def read (cursor : Cursor) : Except Fault (Directive × Cursor) := do
  let refuse {α : Type} (result : Except Cause α) : Except Fault α :=
    result.mapError fun cause => ⟨cursor.mark, cause⟩
  let opened := cursor.solid 1
  let name := opened.rest.takeWhile isNameChar
  let named := opened.skipRun isNameChar
  if name = [] then
    opened.fault .directiveNameMissing
  else if !atGap named.rest then
    opened.fault .directiveNameMalformed
  else
    let (directive, next) ←
      if name = "YAML".toList then
        (refuse <| skipVersion named).map (version, ·)
      else if name = "TAG".toList then
        (refuse <| readTag named).map fun (handle, next) => (tag handle, next)
      else
        pure (tag "", named.skipLine)
    let (next, _) ← next.skipBlanks true
    if atLineEnd next.rest then
      return (directive, next.skipBreak)
    else
      cursor.fault .directiveTrailing

end Directive
end Yaml
end FieldLine
