import FieldLine.Yaml.Token

/-!
A text of which some tokens have been read.  Whether a token is a key only shows at the colon
after it, so such tokens are remembered as candidates and the announcement is put before them
later.
-/

namespace FieldLine
namespace Yaml

/-- A level of indentation.  An inner level that opened no block only keeps a deeper block from
starting at the same column. -/
structure Level where
  column : Nat
  isBlock : Bool
deriving DecidableEq, Repr

/-- A token that may turn out to be a key: where it starts, how many tokens came before it, and
whether nothing but a key is allowed there. -/
structure Candidate where
  place : Place
  number : Nat
  required : Bool
deriving DecidableEq, Repr

/-- A text of which some tokens have been read.

* `tokens`, the latest first, and their number `count`;
* `levels` of indentation, innermost first;
* `candidates`: for the block and each flow collection around the cursor, innermost first, the
  last token there that may be a key;
* `keyAllowed`: whether a key may start at the cursor;
* `pairOpen`: whether a colon has opened a single-pair mapping in a flow sequence;
* `pairsExplicit`: whether a brace or a question mark has announced pairs;
* `adjacentValue`: the number of characters left where a colon needs no gap after it;
* `sighted`: the number left after the stretch looked at for the last plain scalar. -/
structure Lexer where
  cursor : Cursor
  tokens : List Token := []
  count : Nat := 0
  levels : List Level := []
  candidates : List (Option Candidate) := [none]
  keyAllowed : Bool := true
  pairOpen : Bool := false
  pairsExplicit : Bool := false
  adjacentValue : Option Nat := none
  sighted : Nat

namespace Lexer

/-! ## Levels and tokens -/

def start (text : List Char) : Lexer :=
  { cursor := .start text, sighted := text.length }

/-- The current indentation; the document itself is at minus one. -/
def indent (lexer : Lexer) : Int :=
  match lexer.levels with
  | [] => -1
  | level :: _ => level.column

def inFlow (lexer : Lexer) : Bool :=
  match lexer.candidates with
  | _ :: _ :: _ => true
  | _ => false

def push (lexer : Lexer) (mark : Mark) (kind : TokenKind) : Lexer :=
  { lexer with tokens := ⟨mark, kind⟩ :: lexer.tokens, count := lexer.count + 1 }

/-- Puts a token before the one that has `number` tokens before it. -/
def insert (lexer : Lexer) (number : Nat) (mark : Mark) (kind : TokenKind) : Lexer :=
  let later := lexer.count - number
  { lexer with
    tokens := lexer.tokens.take later ++ ⟨mark, kind⟩ :: lexer.tokens.drop later
    count := lexer.count + 1 }

/-- Closes the levels that are deeper than a column. -/
def closeLevels (mark : Mark) (column : Int) : List Level → List Level × List Token
  | [] => ([], [])
  | level :: outer =>
      if column < (level.column : Int) then
        let (levels, ends) := closeLevels mark column outer
        (levels, if level.isBlock then ends ++ [⟨mark, .blockEnd⟩] else ends)
      else
        (level :: outer, [])

/-- Closes the blocks that are deeper than a column.  Flow collections ignore indentation. -/
def closeTo (lexer : Lexer) (column : Int) : Lexer :=
  if lexer.inFlow then
    lexer
  else
    let (levels, ends) := closeLevels lexer.cursor.mark column lexer.levels
    { lexer with
      levels := levels
      tokens := ends ++ lexer.tokens
      count := lexer.count + ends.length }

/-- Opens a block collection at a column unless it is open already.  Its token goes before the
one with the given number. -/
def openBlock (lexer : Lexer) (column number : Nat) (mark : Mark) (kind : TokenKind) : Lexer :=
  if lexer.inFlow then
    lexer
  else
    let levels := match lexer.levels with
      | level :: outer =>
          if level.column ≤ column && !level.isBlock then outer else level :: outer
      | [] => []
    let lexer := { lexer with levels := levels }
    if lexer.indent < (column : Int) then
      { lexer.insert number mark kind with levels := ⟨column, true⟩ :: levels }
    else
      lexer

/-- Adds a level one column deeper than the current block. -/
def deepen (lexer : Lexer) : Lexer :=
  match lexer.inFlow, lexer.levels with
  | false, level :: outer =>
      if level.isBlock then
        { lexer with levels := ⟨level.column + 1, false⟩ :: level :: outer }
      else
        lexer
  | _, _ => lexer

def dropInner (lexer : Lexer) : Lexer :=
  { lexer with levels := lexer.levels.dropWhile fun level => !level.isBlock }

/-! ## Candidates for keys -/

/-- Remembers the next token as a candidate, if a key may start here.  At the very column of a
block, nothing but a key may. -/
def suggest (lexer : Lexer) : Lexer :=
  if lexer.keyAllowed then
    let required := !lexer.inFlow && lexer.levels.head? = some ⟨lexer.cursor.column, true⟩
    { lexer with
      candidates := some ⟨lexer.cursor.toPlace, lexer.count, required⟩ :: lexer.candidates.tail }
  else
    lexer

def forget (lexer : Lexer) : Except Fault Lexer :=
  match lexer.candidates with
  | some candidate :: outer =>
      if candidate.required then
        lexer.cursor.fault .keyWithoutValueAtEnd
      else
        .ok { lexer with candidates := none :: outer }
  | _ => .ok lexer

/-- Whether it is too late for a candidate of the block to be a key: keys have at most 1024
characters on one line. -/
def isStale (lexer : Lexer) (candidate : Candidate) : Bool :=
  candidate.place.line < lexer.cursor.line || lexer.cursor.left + 1024 < candidate.place.left

/-- Gives up a candidate of the block once it is too late for it. -/
def expire (lexer : Lexer) : Except Fault Lexer :=
  match lexer.candidates with
  | [some candidate] =>
      if !lexer.isStale candidate then
        .ok lexer
      else if candidate.required then
        lexer.cursor.fault .keyWithoutValue
      else
        .ok { lexer with candidates := [none] }
  | _ => .ok lexer

/-- The tokens, latest first, that are certain to precede all others: those before the first
candidate. -/
def settled (lexer : Lexer) : List Token :=
  match (lexer.candidates.filterMap id).getLast? with
  | some candidate => lexer.tokens.drop (lexer.count - candidate.number)
  | none => lexer.tokens

/-! ## Moving between tokens -/

/-- Moves over blanks, line breaks and comments.  A line break allows a key again.  Tabs may not
indent a line of a block that has content. -/
def skipFrom (indented : Option Int) (inFlow : Bool) :
    List Char → Place → (inComment keyAllowed : Bool) → Except Fault (Cursor × Bool)
  | [], place, _, keyAllowed => .ok (⟨place, []⟩, keyAllowed)
  | c :: rest, place, inComment, keyAllowed =>
      if c = '\n' then
        skipFrom indented inFlow rest place.newline false (keyAllowed || !inFlow)
      else if inComment || c = ' ' then
        skipFrom indented inFlow rest place.blank inComment keyAllowed
      else if c = '\t' then
        let next := rest.dropWhile isBlank
        let isIndent := place.fresh && indented.any ((place.column : Int) < ·)
        if isIndent && !(atLineEnd next || nextIs (· = '#') next) then
          .error ⟨⟨place.line, place.column + 1 + (rest.takeWhile isBlank).length⟩,
            .tabInIndentation⟩
        else
          skipFrom indented inFlow rest place.blank false keyAllowed
      else if c = '#' then
        skipFrom indented inFlow rest place.blank true keyAllowed
      else
        .ok (⟨place, c :: rest⟩, keyAllowed)

def skipToToken (lexer : Lexer) : Except Fault Lexer := do
  let indented := if lexer.levels = [] then none else some lexer.indent
  let (cursor, keyAllowed) ←
    skipFrom indented lexer.inFlow lexer.cursor.rest lexer.cursor.toPlace false lexer.keyAllowed
  return { lexer with cursor := cursor, keyAllowed := keyAllowed }

/-- Moves over the white space that has to follow a question mark.  Gives whether there is
any. -/
def skipGapFrom (inFlow : Bool) :
    List Char → Place → (inComment keyAllowed found : Bool) → Cursor × Bool × Bool
  | [], place, _, keyAllowed, found => (⟨place, []⟩, keyAllowed, found)
  | c :: rest, place, inComment, keyAllowed, found =>
      if c = '\n' then
        skipGapFrom inFlow rest place.newline false (keyAllowed || !inFlow) true
      else if inComment then
        skipGapFrom inFlow rest place.blank true keyAllowed found
      else if c = ' ' then
        skipGapFrom inFlow rest place.blank false keyAllowed true
      else if c = '#' then
        skipGapFrom inFlow rest place.blank true keyAllowed found
      else
        (⟨place, c :: rest⟩, keyAllowed, found)

def skipBlanks (lexer : Lexer) (tabs : Bool) : Except Fault (Lexer × Cursor.Blanks) := do
  let (cursor, blanks) ← lexer.cursor.skipBlanks tabs
  return ({ lexer with cursor := cursor }, blanks)

def solid (lexer : Lexer) (count : Nat) : Lexer :=
  { lexer with cursor := lexer.cursor.solid count }

end Lexer
end Yaml
end FieldLine
