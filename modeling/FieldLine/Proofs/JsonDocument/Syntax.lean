import FieldLine.Document.Source
import FieldLine.Proofs.Yaml.BlockRounds

/-!
# JSON texts

The grammar of JSON as trees: a tree holds all that a text decides, down to its white space and the
escapes in its strings.  The text is printed from the tree, and what the text says is read off the
tree as well, as a document in which each node stands on its line.
-/

namespace FieldLine
namespace JsonSyntax

open Yaml.Lexer (Brackets)

/-! ## White space -/

/-- White space between tokens. -/
structure Padding where
  chars : List Char
  blank : ∀ c ∈ chars, c = ' ' ∨ c = '\t' ∨ c = '\n' ∨ c = '\r'

namespace Padding

/-- White space in which every line break is a line feed. -/
def unified (padding : Padding) : List Char :=
  Document.unifyBreaks padding.chars

/-- The number of line breaks. -/
def lines (padding : Padding) : Nat :=
  padding.unified.count '\n'

/-- White space that consists of tabs. -/
def IsTabs (padding : Padding) : Prop :=
  padding.chars ≠ [] ∧ ∀ c ∈ padding.chars, c = '\t'

end Padding

/-- Something with the white space around it. -/
structure Padded (α : Type) where
  before : Padding
  inner : α
  after : Padding

/-! ## Literals and numbers -/

inductive Literal where
  | truth (value : Bool)
  | null

def Literal.chars : Literal → List Char
  | truth true => ['t', 'r', 'u', 'e']
  | truth false => ['f', 'a', 'l', 's', 'e']
  | null => ['n', 'u', 'l', 'l']

structure Digits where
  chars : List Char
  someDigit : chars ≠ []
  digits : ∀ c ∈ chars, c.isDigit = true

structure Exponent where
  capital : Bool
  negative : Option Bool
  digits : Digits

def Exponent.chars (exponent : Exponent) : List Char :=
  (if exponent.capital then 'E' else 'e') ::
    ((exponent.negative.map fun negative => if negative then '-' else '+').toList ++
      exponent.digits.chars)

/-- A number.  Its whole part starts with a zero only if it is zero. -/
structure Number where
  negative : Bool
  whole : Digits
  noLeadingZero : whole.chars.head? = some '0' → whole.chars = ['0']
  fraction : Option Digits
  exponent : Option Exponent

namespace Number

def fractionChars (number : Number) : List Char :=
  match number.fraction with
  | none => []
  | some digits => '.' :: digits.chars

def exponentChars (number : Number) : List Char :=
  match number.exponent with
  | none => []
  | some exponent => exponent.chars

def chars (number : Number) : List Char :=
  (if number.negative then ['-'] else []) ++
    (number.whole.chars ++ (number.fractionChars ++ number.exponentChars))

end Number

/-! ## Strings -/

inductive ShortEscape where
  | quote
  | backslash
  | slash
  | backspace
  | formFeed
  | lineFeed
  | carriageReturn
  | tab

namespace ShortEscape

def letter : ShortEscape → Char
  | quote => '"'
  | backslash => '\\'
  | slash => '/'
  | backspace => 'b'
  | formFeed => 'f'
  | lineFeed => 'n'
  | carriageReturn => 'r'
  | tab => 't'

def char : ShortEscape → Char
  | quote => '"'
  | backslash => '\\'
  | slash => '/'
  | backspace => '\x08'
  | formFeed => '\x0c'
  | lineFeed => '\n'
  | carriageReturn => '\r'
  | tab => '\t'

end ShortEscape

structure HexDigit where
  value : Fin 16
  capital : Bool

def HexDigit.char (digit : HexDigit) : Char :=
  if digit.value.val < 10 then .ofNat ('0'.toNat + digit.value.val)
  else .ofNat ((if digit.capital then 'A' else 'a').toNat + (digit.value.val - 10))

/-- A code unit of sixteen bits, in four digits. -/
structure CodeUnit where
  first : HexDigit
  second : HexDigit
  third : HexDigit
  fourth : HexDigit

namespace CodeUnit

def chars (unit : CodeUnit) : List Char :=
  ['\\', 'u', unit.first.char, unit.second.char, unit.third.char, unit.fourth.char]

def number (unit : CodeUnit) : Nat :=
  ((unit.first.value.val * 16 + unit.second.value.val) * 16 + unit.third.value.val) * 16 +
    unit.fourth.value.val

end CodeUnit

/-- A character of a string as it is written: itself or escaped, and if it takes two code units,
perhaps as these. -/
inductive Glyph where
  | plain (c : Char) (allowed : 0x20 ≤ c.toNat ∧ c ≠ '"' ∧ c ≠ '\\')
  | escape (short : ShortEscape)
  | code (unit : CodeUnit) (isChar : unit.number.isValidChar)
  | pair (high low : CodeUnit) (isHigh : 0xD800 ≤ high.number ∧ high.number ≤ 0xDBFF)
      (isLow : 0xDC00 ≤ low.number ∧ low.number ≤ 0xDFFF)

namespace Glyph

def chars : Glyph → List Char
  | plain c _ => [c]
  | escape short => ['\\', short.letter]
  | code unit _ => unit.chars
  | pair high low _ _ => high.chars ++ low.chars

/-- The character that is written. -/
def char : Glyph → Char
  | plain c _ => c
  | escape short => short.char
  | code unit _ => .ofNat unit.number
  | pair high low _ _ =>
      .ofNat (0x10000 + (high.number - 0xD800) * 0x400 + (low.number - 0xDC00))

inductive IsPair : Glyph → Prop where
  | pair {high low : CodeUnit} {isHigh isLow} : IsPair (pair high low isHigh isLow)

end Glyph

def quoted (glyphs : List Glyph) : List Char :=
  '"' :: (glyphs.flatMap Glyph.chars ++ ['"'])

def decoded (glyphs : List Glyph) : String :=
  .ofList (glyphs.map Glyph.char)

/-! ## Values -/

structure Member (α : Type) where
  key : Padded (List Glyph)
  value : Padded α

/-- A value as it is written.  Empty arrays and objects may have white space inside. -/
inductive Value where
  | literal (word : Literal)
  | number (numeral : Number)
  | string (glyphs : List Glyph)
  | hollow (brackets : Brackets) (inside : Padding)
  | array (elements : List (Padded Value))
  | object (members : List (Member Value))

namespace Value

/-- What passes from elements to their array and from members to their object holds of all
values. -/
@[elab_as_elim, induction_eliminator]
theorem induction {motive : Value → Prop} (literal : ∀ word : Literal, motive (.literal word))
    (number : ∀ numeral : Number, motive (.number numeral))
    (string : ∀ glyphs : List Glyph, motive (.string glyphs))
    (hollow : ∀ (brackets : Brackets) (inside : Padding), motive (.hollow brackets inside))
    (array : ∀ elements : List (Padded Value), (∀ element ∈ elements, motive element.inner) →
      motive (.array elements))
    (object : ∀ members : List (Member Value), (∀ member ∈ members, motive member.value.inner) →
      motive (.object members))
    (value : Value) : motive value := by
  refine
    @Value.rec motive (fun elements => ∀ element ∈ elements, motive element.inner)
      (fun members => ∀ member ∈ members, motive member.value.inner)
      (fun element => motive element.inner) (fun member => motive member.value.inner)
      literal number string hollow array object ?_ ?_ ?_ ?_ ?_ ?_ value
  · exact fun _ member => absurd member List.not_mem_nil
  · exact fun _ _ first later => List.forall_mem_cons.mpr ⟨first, later⟩
  · exact fun _ member => absurd member List.not_mem_nil
  · exact fun _ _ first later => List.forall_mem_cons.mpr ⟨first, later⟩
  · exact fun _ _ _ inner => inner
  · exact fun _ _ inner => inner

/-! ## Texts -/

def comma {α : Type} (later : List α) : List Char :=
  if later.isEmpty then [] else [',']

mutual

/-- The text of a value, with white space written in some way. -/
def text (render : Padding → List Char) : Value → List Char
  | literal word => word.chars
  | number numeral => numeral.chars
  | string glyphs => quoted glyphs
  | hollow brackets inside => brackets.left :: (render inside ++ [brackets.right])
  | array elements => '[' :: elementText render elements
  | object members => '\x7b' :: memberText render members

/-- The elements of an array up to its end. -/
def elementText (render : Padding → List Char) : List (Padded Value) → List Char
  | [] => [']']
  | ⟨before, value, after⟩ :: later =>
      render before ++ (value.text render ++ (render after ++
        (comma later ++ elementText render later)))

/-- The members of an object up to its end. -/
def memberText (render : Padding → List Char) : List (Member Value) → List Char
  | [] => ['\x7d']
  | ⟨⟨beforeKey, key, afterKey⟩, ⟨before, value, after⟩⟩ :: later =>
      render beforeKey ++ (quoted key ++ (render afterKey ++ ':' :: (render before ++
        (value.text render ++ (render after ++ (comma later ++ memberText render later))))))

end

/-- The number of line breaks in a value. -/
def lines (value : Value) : Nat :=
  (value.text Padding.unified).count '\n'

/-! ## Nodes -/

mutual

/-- What a value that starts on a line says.  A key is on the line of its first quotation mark. -/
def node (line : Nat) : Value → Node
  | literal word => .scalar line (.ofList word.chars)
  | number numeral => .scalar line (.ofList numeral.chars)
  | string glyphs => .scalar line (decoded glyphs)
  | hollow .square _ => .sequence line []
  | hollow .curly _ => .mapping line []
  | array elements => .sequence line (elementNodes line elements)
  | object members => .mapping line (memberNodes line members)

def elementNodes (line : Nat) : List (Padded Value) → List Node
  | [] => []
  | ⟨before, value, after⟩ :: later =>
      let start := line + before.lines
      value.node start :: elementNodes (start + value.lines + after.lines) later

def memberNodes (line : Nat) : List (Member Value) → List (Node × Node)
  | [] => []
  | ⟨⟨beforeKey, key, afterKey⟩, ⟨before, value, after⟩⟩ :: later =>
      let keyLine := line + beforeKey.lines
      let start := keyLine + afterKey.lines + before.lines
      (.scalar keyLine (decoded key), value.node start) ::
        memberNodes (start + value.lines + after.lines) later

end

/-! ## Nesting -/

mutual

/-- How many arrays and objects are nested one in the other. -/
def depth : Value → Nat
  | literal _ => 0
  | number _ => 0
  | string _ => 0
  | hollow .. => 1
  | array elements => elementDepth elements + 1
  | object members => memberDepth members + 1

def elementDepth : List (Padded Value) → Nat
  | [] => 0
  | ⟨_, value, _⟩ :: later => max value.depth (elementDepth later)

def memberDepth : List (Member Value) → Nat
  | [] => 0
  | ⟨_, ⟨_, value, _⟩⟩ :: later => max value.depth (memberDepth later)

end

/-! ## Kinds of values -/

inductive IsBare : Value → Prop where
  | literal (word : Literal) : IsBare (literal word)
  | number (numeral : Number) : IsBare (number numeral)

inductive IsCollection : Value → Prop where
  | hollow (brackets : Brackets) (inside : Padding) : IsCollection (hollow brackets inside)
  | array (elements : List (Padded Value)) : IsCollection (array elements)
  | object (members : List (Member Value)) : IsCollection (object members)

/-- No string is escaped by pairs of code units, and no literal or number is separated from the
colon before it by tabs alone. -/
inductive IsPortable : Value → Prop where
  | literal (word : Literal) : IsPortable (literal word)
  | number (numeral : Number) : IsPortable (number numeral)
  | string {glyphs : List Glyph} : (∀ glyph ∈ glyphs, ¬glyph.IsPair) → IsPortable (string glyphs)
  | hollow (brackets : Brackets) (inside : Padding) : IsPortable (hollow brackets inside)
  | array {elements : List (Padded Value)} :
      (∀ element ∈ elements, IsPortable element.inner) → IsPortable (array elements)
  | object {members : List (Member Value)} :
      (∀ member ∈ members, ∀ glyph ∈ member.key.inner, ¬glyph.IsPair) →
      (∀ member ∈ members, member.value.inner.IsBare → ¬member.value.before.IsTabs) →
      (∀ member ∈ members, IsPortable member.value.inner) → IsPortable (object members)

end Value
end JsonSyntax

/-- A JSON text: a value and the white space around it. -/
abbrev JsonText := JsonSyntax.Padded JsonSyntax.Value

namespace JsonText

open JsonSyntax

/-- The text with white space written in some way. -/
def text (document : JsonText) (render : Padding → List Char) : List Char :=
  render document.before ++ (document.inner.text render ++ render document.after)

def bytes (document : JsonText) : List UInt8 :=
  Utf8.encode <| .ofList <| document.text Padding.chars

/-- What the text says, as a document. -/
def tree (document : JsonText) : Node :=
  let line := 1 + document.before.lines
  .document line (some (document.inner.node line))

end JsonText
end FieldLine
