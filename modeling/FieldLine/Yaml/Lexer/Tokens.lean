import FieldLine.Yaml.Lexer
import FieldLine.Yaml.Scalar.Block
import FieldLine.Yaml.Scalar.Plain
import FieldLine.Yaml.Scalar.Quoted

/-!
Reading the tokens of a text: one function for each kind of place where a token starts, the
choice between them by the first character, and the list of all tokens up to the first fault.
-/

namespace FieldLine
namespace Yaml
namespace Lexer

/-! ## Bounds of documents -/

/-- Closes all blocks before a token that ends what came before it. -/
def closeAll (lexer : Lexer) : Except Fault Lexer := do
  let lexer ← (lexer.closeTo (-1)).forget
  return { lexer with keyAllowed := false }

def atEnd (lexer : Lexer) : Except Fault Lexer := do
  let cursor :=
    if lexer.cursor.column = 0 then lexer.cursor
    else { lexer.cursor with line := lexer.cursor.line + 1, column := 0 }
  if lexer.candidates.any fun candidate => candidate.any (·.required) then
    cursor.fault .keyWithoutValueAtEnd
  else
    let lexer := { lexer with cursor := cursor, candidates := lexer.candidates.map fun _ => none }
    let lexer ← lexer.closeAll
    return lexer.push cursor.mark .streamEnd

def atDirective (lexer : Lexer) : Except Fault Lexer := do
  let lexer ← lexer.closeAll
  let (directive, cursor) ← Directive.read lexer.cursor
  return { lexer.push lexer.cursor.mark (.directive directive) with cursor := cursor }

def atDocumentStart (lexer : Lexer) : Except Fault Lexer := do
  let lexer ← lexer.closeAll
  return (lexer.push lexer.cursor.mark .documentStart).solid 3

/-- Three points at the start of a line, after which the line has to end. -/
def atDocumentEnd (lexer : Lexer) : Except Fault Lexer := do
  let lexer ← lexer.closeAll
  let (lexer, _) ← ((lexer.push lexer.cursor.mark .documentEnd).solid 3).skipBlanks true
  if atLineEnd lexer.cursor.rest then
    return lexer
  else
    lexer.cursor.fault .documentEndTrailing

/-! ## Collections -/

/-- The deepest nesting of flow collections. -/
def maxFlowDepth : Nat := 255

def atFlowStart (lexer : Lexer) (kind : TokenKind) : Except Fault Lexer := do
  let mark := lexer.cursor.mark
  let lexer := lexer.suggest.deepen
  if maxFlowDepth < lexer.candidates.length then
    lexer.cursor.fault .nestingTooDeep
  else
    let lexer := { lexer with candidates := none :: lexer.candidates, keyAllowed := true }
    let lexer :=
      if kind = .flowMappingStart then { lexer with pairsExplicit := true } else lexer
    let (lexer, _) ← (lexer.solid 1).skipBlanks true
    return lexer.push mark kind

/-- Ends the single-pair mapping that is open, if there is one. -/
def closePair (lexer : Lexer) (mark : Mark) : Lexer :=
  if lexer.pairOpen then
    { lexer.push mark .flowMappingEnd with pairOpen := false, pairsExplicit := false }
  else
    lexer

def leaveFlow (lexer : Lexer) : Lexer :=
  match lexer.candidates with
  | _ :: outer :: others => { lexer with candidates := outer :: others }
  | _ => lexer

def atFlowEnd (lexer : Lexer) (kind : TokenKind) : Except Fault Lexer := do
  let mark := lexer.cursor.mark
  let lexer ← lexer.forget
  let lexer := { lexer.leaveFlow with keyAllowed := false }
  let lexer := if kind = .flowSequenceEnd then lexer.closePair mark else lexer
  let (lexer, _) ← (lexer.solid 1).skipBlanks true
  let lexer :=
    if lexer.inFlow then { lexer with adjacentValue := some lexer.cursor.left } else lexer
  return lexer.push mark kind

def atFlowEntry (lexer : Lexer) : Except Fault Lexer := do
  let mark := lexer.cursor.mark
  let lexer ← lexer.forget
  let lexer := { lexer with keyAllowed := true }.closePair mark
  let (lexer, _) ← (lexer.solid 1).skipBlanks true
  return lexer.push mark .flowEntry

def atBlockEntry (lexer : Lexer) : Except Fault Lexer := do
  let mark := lexer.cursor.mark
  if lexer.inFlow then
    lexer.cursor.fault .blockEntryInFlow
  else if !lexer.keyAllowed then
    lexer.cursor.fault .blockEntryMisplaced
  else
    let lexer := (lexer.solid 1).openBlock mark.column lexer.count mark .blockSequenceStart
    let (lexer, blanks) ← lexer.skipBlanks true
    let next := lexer.cursor.rest
    if blanks.tabs && nextIs (· = '-') next && atGap next.tail then
      lexer.cursor.fault .blockEntrySeparatedByTab
    else
      let (lexer, _) ← lexer.skipBlanks false
      let lexer :=
        if nextIs (fun c => c = '\n' || isFlow c) lexer.cursor.rest then lexer.deepen else lexer
      let lexer ← lexer.forget
      return { lexer with keyAllowed := true }.push lexer.cursor.mark .blockEntry

/-- A question mark before a key. -/
def atKey (lexer : Lexer) : Except Fault Lexer := do
  let mark := lexer.cursor.mark
  if !lexer.inFlow && !lexer.keyAllowed then
    lexer.cursor.fault .keyMisplaced
  else
    let lexer :=
      if lexer.inFlow then { lexer with pairsExplicit := true }
      else lexer.openBlock mark.column lexer.count mark .blockMappingStart
    let lexer ← lexer.forget
    let after := (lexer.solid 1).cursor
    let (cursor, keyAllowed, found) :=
      skipGapFrom lexer.inFlow after.rest after.toPlace false (!lexer.inFlow) false
    if !found then
      cursor.fault .keyNotSeparated
    else if nextIs (· = '\t') cursor.rest then
      cursor.fault .keySeparatedByTab
    else
      return { lexer with cursor := cursor, keyAllowed := keyAllowed }.push mark .key

/-- Turns a candidate into a key, of which the colon at `mark` starts the value. -/
def acceptKey (lexer : Lexer) (candidate : Candidate) (mark : Mark) : Except Fault Lexer := do
  let key := candidate.place.mark
  -- Whatever is announced last comes first: a mapping goes before the key that opens it.
  let lexer := lexer.insert candidate.number key .key
  if lexer.pairOpen && key.line < mark.line then
    .error ⟨mark, .valueOnLaterLine⟩
  else
    let lexer :=
      if lexer.pairOpen then lexer.insert candidate.number lexer.cursor.mark .flowMappingStart
      else lexer
    let lexer := (lexer.openBlock key.column candidate.number mark .blockMappingStart).deepen
    return { lexer with candidates := none :: lexer.candidates.tail, keyAllowed := false }

/-- The colon at `mark` starts the value of a key that is missing or was announced before. -/
def acceptValue (lexer : Lexer) (mark : Mark) : Except Fault Lexer :=
  let lexer := if lexer.pairOpen then lexer.push lexer.cursor.mark .flowMappingStart else lexer
  if lexer.inFlow then
    .ok { lexer with keyAllowed := false }
  else if !lexer.keyAllowed then
    .error ⟨mark, .valueMisplaced⟩
  else
    let lexer := (lexer.openBlock mark.column lexer.count mark .blockMappingStart).deepen
    .ok { lexer with keyAllowed := true }

/-- A colon before a value.  In a flow sequence it opens a mapping, unless pairs have been
announced. -/
def atValue (lexer : Lexer) : Except Fault Lexer := do
  let mark := lexer.cursor.mark
  let lexer := { lexer.solid 1 with pairOpen := lexer.inFlow && !lexer.pairsExplicit }
  let (lexer, tabbed) ←
    if nextIs (· = '\t') lexer.cursor.rest then
      (lexer.skipBlanks true).map fun (lexer, blanks) => (lexer, !blanks.spaces)
    else
      pure (lexer, false)
  if tabbed && nextIs (fun c => c = '-' || isNameChar c) lexer.cursor.rest then
    lexer.cursor.fault .valueSeparatedByTab
  else
    let lexer ←
      match lexer.candidates with
      | some candidate :: _ => lexer.acceptKey candidate mark
      | _ => lexer.acceptValue mark
    return lexer.push mark .value

/-! ## Nodes and their properties -/

/-- Prepares for a token that may be a key and after which no key may start. -/
def beginNode (lexer : Lexer) : Lexer :=
  { lexer.suggest with keyAllowed := false }

def atAlias (lexer : Lexer) : Except Fault Lexer := do
  let (name, cursor) ← readAnchor lexer.cursor
  return { lexer.beginNode.push lexer.cursor.mark (.alias name) with cursor := cursor }

def atAnchor (lexer : Lexer) : Except Fault Lexer := do
  let (name, cursor) ← readAnchor lexer.cursor
  return { lexer.beginNode.push lexer.cursor.mark (.anchor name) with cursor := cursor }

def atTag (lexer : Lexer) : Except Fault Lexer := do
  let (handle, cursor) ← Tag.read lexer.cursor lexer.inFlow
  return { lexer.beginNode.push lexer.cursor.mark (.tag handle) with cursor := cursor }

/-- Whether a quoted scalar that started on `line` may be followed by this text. -/
def mayFollowQuoted (inFlow : Bool) (line : Nat) (cursor : Cursor) : Bool :=
  match cursor.rest with
  | [] => true
  | c :: _ =>
      c = '\n' || (inFlow && (c = ',' || c = ']' || c = '\x7d' || c = ':')) ||
        (c = ':' && cursor.line = line)

/-- A quote.  The next token is looked for at once, as a colon there needs no gap after it. -/
def atQuoted (lexer : Lexer) (single : Bool) : Except Fault Lexer := do
  let mark := lexer.cursor.mark
  let lexer := lexer.beginNode
  let (text, cursor) ← Quoted.read lexer.cursor lexer.indent single
  let (cursor, _) ← cursor.skipBlanks true
  if mayFollowQuoted lexer.inFlow mark.line cursor then
    let lexer ← { lexer with cursor := cursor }.skipToToken
    let style := if single then .singleQuoted else .doubleQuoted
    return { lexer.push mark (.scalar (.ofList text) style) with
      adjacentValue := some lexer.cursor.left }
  else
    cursor.fault .quotedTrailing

/-- The indicator of a block scalar. -/
def atBlockScalar (lexer : Lexer) (folded : Bool) : Except Fault Lexer := do
  let lexer := { lexer.suggest.dropInner with keyAllowed := true }
  let reading ← Block.read lexer.cursor lexer.indent folded lexer.sighted
  let style := if folded then .folded else .literal
  return { lexer.push reading.mark (.scalar (.ofList reading.text) style) with
    cursor := reading.cursor }

/-- The first character of a plain scalar.  After one that ends with a line, a key may start. -/
def atPlain (lexer : Lexer) : Except Fault Lexer := do
  let mark := lexer.cursor.mark
  let lexer := lexer.beginNode.dropInner
  let indent := lexer.indent + 1
  if lexer.inFlow && (mark.column : Int) < indent then
    lexer.cursor.fault .flowIndentShallow
  else
    let reading ← Plain.read lexer.cursor indent lexer.inFlow
    return { lexer.push mark (.scalar (.ofList reading.text) .plain) with
      cursor := reading.cursor
      sighted := reading.sighted
      keyAllowed := reading.cursor.fresh }

/-! ## Reading tokens -/

/-- Reads the token at the cursor, given its first character and the text after it. -/
def readToken (lexer : Lexer) (c : Char) (rest : List Char) : Except Fault Lexer :=
  let gap := atGap rest
  match c with
  | '[' => lexer.atFlowStart .flowSequenceStart
  | '\x7b' => lexer.atFlowStart .flowMappingStart
  | ']' => lexer.atFlowEnd .flowSequenceEnd
  | '\x7d' => lexer.atFlowEnd .flowMappingEnd
  | ',' => lexer.atFlowEntry
  | '*' => lexer.atAlias
  | '&' => lexer.atAnchor
  | '!' => lexer.atTag
  | '\'' => lexer.atQuoted true
  | '"' => lexer.atQuoted false
  | '%' => lexer.cursor.fault (.reservedCharacter c)
  | '@' => lexer.cursor.fault (.reservedCharacter c)
  | '\x60' => lexer.cursor.fault (.reservedCharacter c)
  | '-' => if gap then lexer.atBlockEntry else lexer.atPlain
  | '?' => if gap then lexer.atKey else lexer.atPlain
  | ':' =>
      if gap || (lexer.inFlow &&
          (nextIs isFlow rest || lexer.adjacentValue = some lexer.cursor.left)) then
        lexer.atValue
      else
        lexer.atPlain
  | '|' => if lexer.inFlow then lexer.atPlain else lexer.atBlockScalar false
  | '>' => if lexer.inFlow then lexer.atPlain else lexer.atBlockScalar true
  | _ => lexer.atPlain

/-- Reads the next token or, after the last one, the end of the text. -/
def advance (lexer : Lexer) : Except Fault Lexer := do
  let lexer ← lexer.skipToToken
  let lexer ← lexer.expire
  let lexer := lexer.closeTo lexer.cursor.column
  match lexer.cursor.rest with
  | [] => lexer.atEnd
  | c :: rest =>
      if lexer.cursor.column = 0 && c = '%' then
        lexer.atDirective
      else if lexer.cursor.column = 0 && atTriple '-' (c :: rest) then
        lexer.atDocumentStart
      else if lexer.cursor.column = 0 && atTriple '.' (c :: rest) then
        lexer.atDocumentEnd
      else if (lexer.cursor.column : Int) < lexer.indent then
        lexer.cursor.fault .indentShallow
      else
        lexer.readToken c rest

def isAtEnd (lexer : Lexer) : Bool :=
  match lexer.tokens with
  | ⟨_, .streamEnd⟩ :: _ => true
  | _ => false

end Lexer

/-- The tokens of a text in order, up to its end or to the fault that stops them.  A token that
may still turn out to come after another one does not count. -/
structure Tokens where
  list : List Token
  fault : Option Fault := none
deriving DecidableEq, Repr

namespace Tokens

def ofLexer (lexer : Lexer) : Tokens :=
  match lexer.advance with
  | .error fault => ⟨lexer.settled.reverse, some fault⟩
  | .ok next =>
      match next.expire with
      | .error fault => ⟨lexer.settled.reverse, some fault⟩
      | .ok next =>
          -- Each token but the last one takes up characters, which is why this terminates.
          if !next.isAtEnd && next.cursor.left < lexer.cursor.left then
            ofLexer next
          else
            ⟨next.tokens.reverse, none⟩
  termination_by lexer.cursor.left
  decreasing_by simp_all

def ofText (text : List Char) : Tokens :=
  ofLexer (.start text)

end Tokens
end Yaml
end FieldLine
