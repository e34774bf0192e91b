import FieldLine.Text.Hex

/-!
TOML strings: basic ones, in which a backslash starts an escape, and literal ones, in which no
character is special.  Between tripled quotes both may hold line breaks.
-/

namespace FieldLine
namespace Toml

def isBlank (c : Char) : Bool :=
  c = ' ' || c = '\t'

/-- A character that may stand in comments and strings: no control character but the tab. -/
def isText (c : Char) : Bool :=
  c = '\t' || (' ' ≤ c && c ≠ '\x7f')

/-- A line break at the start of a text is skipped. -/
def skipNewline : List Char → Option (List Char)
  | '\n' :: rest => some rest
  | '\r' :: '\n' :: rest => some rest
  | _ => none

/-- What is left of a text, if it starts in this way. -/
def strip? : (start text : List Char) → Option (List Char)
  | [], text => some text
  | _ :: _, [] => none
  | a :: start, b :: text => if a = b then strip? start text else none

namespace Text

/-! ## Escapes -/

/-- What an escape stands for: a character, or a code point in some hexadecimal digits. -/
inductive Escape where
  | char (c : Char)
  | code (digits : Nat)

def escape? (c : Char) : Option Escape :=
  match c with
  | 'b' => some <| .char '\x08'
  | 't' => some <| .char '\t'
  | 'n' => some <| .char '\n'
  | 'f' => some <| .char '\x0c'
  | 'r' => some <| .char '\x0d'
  | '"' => some <| .char '"'
  | '\\' => some <| .char '\\'
  | 'u' => some <| .code 4
  | 'U' => some <| .code 8
  | _ => none

/-- Which part of a string is being read: its text, the digits of a code point, or white space
after a backslash at the end of a line. -/
inductive Part where
  | text
  | code (digits value : Nat)
  | gap

/-! ## Reading -/

def readBasicFrom : List Char → Part → List Char → Option (String × List Char)
  | [], _, _ => none
  | c :: rest, .code digits value, text => do
      let value := 16 * value + (← Hex.value? c)
      if digits ≤ 1 then
        readBasicFrom rest .text ((← Hex.char? value) :: text)
      else
        readBasicFrom rest (.code (digits - 1) value) text
  | '"' :: rest, _, text => some (.ofList text.reverse, rest)
  | '\\' :: e :: rest, _, text =>
      match escape? e with
      | none => none
      | some (.char c) => readBasicFrom rest .text (c :: text)
      | some (.code digits) => readBasicFrom rest (.code digits 0) text
  | c :: rest, _, text =>
      if isText c && c ≠ '\\' then readBasicFrom rest .text (c :: text) else none

def readLiteralFrom : List Char → List Char → Option (String × List Char)
  | [], _ => none
  | c :: rest, text =>
      if c = '\'' then some (.ofList text.reverse, rest)
      else if isText c then readLiteralFrom rest (c :: text)
      else none

/-- At the end of a string between tripled quotes, one or two quotes before the last three belong
to the text. -/
def closeTripled (quote : Char) (text rest : List Char) : String × List Char :=
  match rest with
  | a :: b :: later =>
      if a = quote ∧ b = quote then (.ofList (quote :: quote :: text).reverse, later)
      else if a = quote then (.ofList (quote :: text).reverse, b :: later)
      else (.ofList text.reverse, rest)
  | [a] =>
      if a = quote then (.ofList (quote :: text).reverse, []) else (.ofList text.reverse, rest)
  | [] => (.ofList text.reverse, rest)

def endsLine (text : List Char) : Bool :=
  (skipNewline <| text.dropWhile isBlank).isSome

def readTripledBasicFrom : List Char → Part → List Char → Option (String × List Char)
  | [], _, _ => none
  | c :: rest, .code digits value, text => do
      let value := 16 * value + (← Hex.value? c)
      if digits ≤ 1 then
        readTripledBasicFrom rest .text ((← Hex.char? value) :: text)
      else
        readTripledBasicFrom rest (.code (digits - 1) value) text
  | '\r' :: '\n' :: rest, .gap, text => readTripledBasicFrom rest .gap text
  | '\r' :: '\n' :: rest, _, text => readTripledBasicFrom rest .text ('\n' :: text)
  | '"' :: '"' :: '"' :: rest, _, text => some <| closeTripled '"' text rest
  | '\\' :: e :: rest, _, text =>
      if endsLine (e :: rest) then
        readTripledBasicFrom (e :: rest) .gap text
      else
        match escape? e with
        | none => none
        | some (.char c) => readTripledBasicFrom rest .text (c :: text)
        | some (.code digits) => readTripledBasicFrom rest (.code digits 0) text
  | c :: rest, part, text =>
      if part matches .gap && (isBlank c || c = '\n') then
        readTripledBasicFrom rest .gap text
      else if (isText c && c ≠ '\\') || c = '\n' then
        readTripledBasicFrom rest .text (c :: text)
      else
        none

def readTripledLiteralFrom : List Char → List Char → Option (String × List Char)
  | [], _ => none
  | '\r' :: '\n' :: rest, text => readTripledLiteralFrom rest ('\n' :: text)
  | '\'' :: '\'' :: '\'' :: rest, text => some <| closeTripled '\'' text rest
  | c :: rest, text =>
      if isText c || c = '\n' then readTripledLiteralFrom rest (c :: text) else none

/-- A line break right after tripled quotes does not count. -/
def skipFirstNewline (text : List Char) : List Char :=
  (skipNewline text).getD text

/-- Reads a string on one line, as it may also stand for a key. -/
def readQuoted : List Char → Option (String × List Char)
  | '"' :: rest => readBasicFrom rest .text []
  | '\'' :: rest => readLiteralFrom rest []
  | _ => none

def read : List Char → Option (String × List Char)
  | '"' :: '"' :: '"' :: rest => readTripledBasicFrom (skipFirstNewline rest) .text []
  | '\'' :: '\'' :: '\'' :: rest => readTripledLiteralFrom (skipFirstNewline rest) []
  | text => readQuoted text

/-! ## Writing -/

inductive Form where
  | basic
  | literal
  | tripledBasic
  | tripledLiteral
deriving DecidableEq, Repr

def isControl (c : Char) : Bool :=
  (c < ' ' && c ≠ '\t' && c ≠ '\n') || c = '\x7f'

def hasTriple (c : Char) : List Char → Bool
  | [] => false
  | a :: rest => (strip? [c, c, c] (a :: rest)).isSome || hasTriple c rest

/-- The form in which a text is written: the first that needs no escapes but for tabs. -/
def form (text : List Char) : Form :=
  let control := text.any isControl
  if !control && !text.any (fun c => c = '\\' || c = '"' || c = '\n') then .basic
  else if !control && !text.any (fun c => c = '\'' || c = '\n') then .literal
  else if !control && !text.contains '\\' && !hasTriple '"' text then .tripledBasic
  else if !control && !hasTriple '\'' text then .tripledLiteral
  else if text.contains '\n' then .tripledBasic
  else .basic

def hexDigit (n : Nat) : Char :=
  if n < 10 then Char.ofNat (48 + n) else Char.ofNat (55 + n)

/-- A character of a basic string, other than a quote. -/
def escapeChar (tripled : Bool) (c : Char) : List Char :=
  if c = '\x08' then ['\\', 'b']
  else if c = '\t' then ['\\', 't']
  else if c = '\n' then if tripled then ['\n'] else ['\\', 'n']
  else if c = '\x0c' then ['\\', 'f']
  else if c = '\x0d' then ['\\', 'r']
  else if c = '\\' then ['\\', '\\']
  else if isControl c then
    ['\\', 'u', '0', '0', hexDigit (c.toNat / 16), hexDigit (c.toNat % 16)]
  else [c]

/-- The text of a basic string, in which up to `free` quotes in a row stand as they are; `row` of
them precede the text. -/
def escapeFrom (tripled : Bool) (free : Nat) : (row : Nat) → List Char → List Char
  | _, [] => []
  | row, c :: rest =>
      if c = '"' then
        if row < free then '"' :: escapeFrom tripled free (row + 1) rest
        else '\\' :: '"' :: escapeFrom tripled free 0 rest
      else
        escapeChar tripled c ++ escapeFrom tripled free 0 rest

/-- A string between its quotes.  In tripled quotes a text with a line break starts on a line of
its own. -/
def renderChars (text : List Char) : List Char :=
  let first := if text.contains '\n' then ['\n'] else []
  match form text with
  | .basic => '"' :: escapeFrom false 0 0 text ++ ['"']
  | .literal => '\'' :: text ++ ['\'']
  | .tripledBasic => ['"', '"', '"'] ++ first ++ escapeFrom true 2 0 text ++ ['"', '"', '"']
  | .tripledLiteral => ['\'', '\'', '\''] ++ first ++ text ++ ['\'', '\'', '\'']

def render (text : String) : String :=
  .ofList (renderChars text.toList)

end Text
end Toml
end FieldLine
