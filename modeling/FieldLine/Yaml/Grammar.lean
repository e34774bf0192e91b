import FieldLine.Yaml.Lexer.Tokens

/-!
The grammar of documents: from tokens to events.  What may come next is a stack of goals, the
most pressing one first.  Each token meets the first goal, which it fulfils, replaces by other
goals, or shows to be over, in which case the token meets the goals below.
-/

namespace FieldLine
namespace Yaml

/-- What a document may go on with. -/
inductive Goal where
  | document
  /-- More directives or the start of their document. -/
  | directives (versionSeen : Bool)
  | documentContent
  | documentEnd
  | node (block indentless : Bool)
  /-- A node after its anchor, which stands at a mark, and perhaps a tag. -/
  | anchored (block indentless : Bool) (mark : Mark)
  /-- A node after its tag and perhaps an anchor. -/
  | tagged (block indentless : Bool)
  /-- A node after both of its properties. -/
  | described (block indentless : Bool)
  | blockItem
  | blockItemNode
  /-- An element of a sequence that has the indentation of the mapping around it. -/
  | indentlessItem
  | indentlessItemNode
  | blockKey
  | blockKeyNode
  | blockValue
  /-- The node after a colon at a mark. -/
  | blockValueNode (mark : Mark)
  | flowItem
  /-- A comma in a flow sequence, or its end. -/
  | flowItemNext
  | pairKey
  | pairValue
  | pairValueNode
  | pairEnd
  | flowKey
  /-- A comma in a flow mapping, or its end. -/
  | flowKeyNext
  | flowKeyNode
  | flowValue
  | flowValueNode (mark : Mark)
  /-- The missing value of a node that was no announced key. -/
  | flowValueMissing
deriving DecidableEq, Repr

/-- A document that is being read: the goals, the events so far (latest first), the anchors
and the abbreviation for tags that are in force. -/
structure Reader where
  goals : List Goal := [.document]
  events : List Event := []
  anchors : List String := []
  handle : Option String := none

namespace Reader

/-! ## Events and goals -/

def emit (reader : Reader) (mark : Mark) (kind : EventKind) : Reader :=
  { reader with events := ⟨mark.line, kind⟩ :: reader.events }

def emitNull (reader : Reader) (mark : Mark) : Reader :=
  reader.emit mark (.scalar "" .plain)

/-- Replaces the first goal by others. -/
def goOn (reader : Reader) (goals later : List Goal) : Reader :=
  { reader with goals := goals ++ later }

/-- Checks that a tag's handle is known.  The secondary handle always is. -/
def checkHandle (reader : Reader) (mark : Mark) (handle : Option String) :
    Except Fault Unit :=
  if handle = none ∨ handle = some "!!" ∨ handle = reader.handle then
    .ok ()
  else
    .error ⟨mark, .tagHandleUndeclared⟩

/-! ## Nodes -/

/-- Starts the content of a node, if the token can do that. -/
def content? (reader : Reader) (block indentless : Bool) (later : List Goal) (token : Token) :
    Option Reader :=
  match token.kind with
  | .scalar text style =>
      some <| (reader.emit token.mark (.scalar text style)).goOn [] later
  | .flowSequenceStart =>
      some <| (reader.emit token.mark .sequenceStart).goOn [.flowItem] later
  | .flowMappingStart =>
      some <| (reader.emit token.mark .mappingStart).goOn [.flowKey] later
  | .blockSequenceStart =>
      if block then
        some <| (reader.emit token.mark .sequenceStart).goOn [.blockItem] later
      else
        none
  | .blockMappingStart =>
      if block then
        some <| (reader.emit token.mark .mappingStart).goOn [.blockKey] later
      else
        none
  | .blockEntry =>
      if indentless then
        some <| (reader.emit token.mark .sequenceStart).goOn [.indentlessItemNode] later
      else
        none
  | _ => none

/-- Starts a node, which may be an alias or begin with a property. -/
def node (reader : Reader) (block indentless : Bool) (later : List Goal) (token : Token) :
    Except Fault Reader :=
  match token.kind with
  | .alias name =>
      if reader.anchors.contains name then
        .ok <| (reader.emit token.mark .alias).goOn [] later
      else
        .error ⟨token.mark, .aliasUnknown⟩
  | .anchor name =>
      .ok <| { reader with anchors := name :: reader.anchors }.goOn
        [.anchored block indentless token.mark] later
  | .tag handle => do
      reader.checkHandle token.mark handle
      return reader.goOn [.tagged block indentless] later
  | _ =>
      match reader.content? block indentless later token with
      | some reader => .ok reader
      | none => .error ⟨token.mark, .nodeMissing⟩

/-! ## Block collections -/

def blockItem (reader : Reader) (later : List Goal) (token : Token) : Except Fault Reader :=
  match token.kind with
  | .blockEntry => .ok <| reader.goOn [.blockItemNode] later
  | .blockEnd => .ok <| (reader.emit token.mark .sequenceEnd).goOn [] later
  | _ => .error ⟨token.mark, .sequenceEntryMissing⟩

/-- A key of a block mapping, or its end.  A value may come without a key. -/
def blockKey (reader : Reader) (later : List Goal) (token : Token) : Except Fault Reader :=
  match token.kind with
  | .key => .ok <| reader.goOn [.blockKeyNode] later
  | .value => .ok <| (reader.emitNull token.mark).goOn [.blockValueNode token.mark] later
  | .blockEnd => .ok <| (reader.emit token.mark .mappingEnd).goOn [] later
  | _ => .error ⟨token.mark, .mappingKeyMissing⟩

/-- The value of a key of a block mapping, which may be missing. -/
def blockValue (reader : Reader) (later : List Goal) (token : Token) : Except Fault Reader :=
  match token.kind with
  | .value => .ok <| reader.goOn [.blockValueNode token.mark] later
  | _ => (reader.emitNull token.mark).blockKey later token

/-! ## Flow collections -/

def flowKeyNext (reader : Reader) (later : List Goal) (token : Token) : Except Fault Reader :=
  match token.kind with
  | .flowEntry => .ok <| reader.goOn [.flowKey] later
  | .flowMappingEnd => .ok <| (reader.emit token.mark .mappingEnd).goOn [] later
  | _ => .error ⟨token.mark, .flowMappingUnterminated⟩

/-- A key of a flow mapping, or its end.  A value may come without a key and, where no key was
announced, a key without a value. -/
def flowKey (reader : Reader) (later : List Goal) (token : Token) : Except Fault Reader :=
  match token.kind with
  | .key => .ok <| reader.goOn [.flowKeyNode] later
  | .value => .ok <| (reader.emitNull token.mark).goOn [.flowValueNode token.mark] later
  | .flowMappingEnd => .ok <| (reader.emit token.mark .mappingEnd).goOn [] later
  | _ => reader.node false false (.flowValueMissing :: later) token

/-- The value of a key of a flow mapping, which may be missing. -/
def flowValue (reader : Reader) (later : List Goal) (token : Token) : Except Fault Reader :=
  match token.kind with
  | .value => .ok <| reader.goOn [.flowValueNode token.mark] later
  | _ => (reader.emitNull token.mark).flowKeyNext later token

def flowItem (reader : Reader) (later : List Goal) (token : Token) : Except Fault Reader :=
  match token.kind with
  | .flowSequenceEnd => .ok <| (reader.emit token.mark .sequenceEnd).goOn [] later
  | .key => .ok <| (reader.emit token.mark .mappingStart).goOn [.pairKey] later
  | _ => reader.node false false (.flowItemNext :: later) token

def flowItemNext (reader : Reader) (later : List Goal) (token : Token) : Except Fault Reader :=
  match token.kind with
  | .flowEntry => .ok <| reader.goOn [.flowItem] later
  | .flowSequenceEnd => .ok <| (reader.emit token.mark .sequenceEnd).goOn [] later
  | _ => .error ⟨token.mark, .flowSequenceUnterminated⟩

/-- The end of a single-pair mapping, and what follows it in the sequence. -/
def pairEnd (reader : Reader) (later : List Goal) (token : Token) : Except Fault Reader :=
  (reader.emit token.mark .mappingEnd).flowItemNext later token

/-! ## Documents -/

/-- A document ends where another one starts or the text ends. -/
def endDocument (reader : Reader) (later : List Goal) (token : Token) : Except Fault Reader :=
  match token.kind with
  | .directive _ => .error ⟨token.mark, .directiveAfterContent⟩
  | _ => .ok <| (reader.emit token.mark .documentEnd).goOn [] later

/-- A directive replaces the abbreviation that was in force before it. -/
def directive (reader : Reader) (versionSeen : Bool) (later : List Goal) (mark : Mark)
    (directive : Directive) : Except Fault Reader :=
  match directive with
  | .version =>
      if versionSeen then
        .error ⟨mark, .versionRepeated⟩
      else
        .ok <| { reader with handle := none }.goOn [.directives true] later
  | .tag handle =>
      .ok <| { reader with handle := some handle }.goOn [.directives versionSeen] later

def document (reader : Reader) (later : List Goal) (token : Token) : Except Fault Reader :=
  match token.kind with
  | .documentEnd => .ok <| reader.goOn [.document] later
  | .streamEnd => .ok <| (reader.emit token.mark .streamEnd).goOn [] later
  | .directive kind => reader.directive false later token.mark kind
  | .documentStart =>
      .ok <| (reader.emit token.mark .documentStart).goOn [.documentContent] later
  | _ => (reader.emit token.mark .documentStart).node true false (.documentEnd :: later) token

def directives (reader : Reader) (versionSeen : Bool) (later : List Goal) (token : Token) :
    Except Fault Reader :=
  match token.kind with
  | .directive kind => reader.directive versionSeen later token.mark kind
  | .documentStart =>
      .ok <| (reader.emit token.mark .documentStart).goOn [.documentContent] later
  | _ => .error ⟨token.mark, .documentStartMissing⟩

/-- The content of a document that was started explicitly, which may be missing. -/
def documentContent (reader : Reader) (later : List Goal) (token : Token) :
    Except Fault Reader :=
  match token.kind with
  | .directive _ => (reader.emitNull token.mark).endDocument later token
  | .documentStart => (reader.emitNull token.mark).endDocument later token
  | .documentEnd => (reader.emitNull token.mark).endDocument later token
  | .streamEnd => (reader.emitNull token.mark).endDocument later token
  | _ => reader.node true false (.documentEnd :: later) token

/-! ## Tokens -/

/-- Whether a token ends a key or value of a block mapping that has not begun. -/
def endsBlockNode : TokenKind → Bool
  | .key => true
  | .value => true
  | .blockEnd => true
  | _ => false

/-- Lets a token meet the goals. -/
def meet (reader : Reader) (token : Token) : List Goal → Except Fault Reader
  | [] => .ok { reader with goals := [] }
  | goal :: later =>
      match goal with
      | .document => reader.document later token
      | .directives versionSeen => reader.directives versionSeen later token
      | .documentContent => reader.documentContent later token
      | .documentEnd => reader.endDocument later token
      | .node block indentless => reader.node block indentless later token
      | .anchored block indentless mark =>
          match token.kind, reader.content? block indentless later token with
          | .tag handle, _ => do
              reader.checkHandle mark handle
              return reader.goOn [.described block indentless] later
          | _, some reader => .ok reader
          | _, none => (reader.emitNull token.mark).meet token later
      | .tagged block indentless =>
          match token.kind, reader.content? block indentless later token with
          | .anchor name, _ =>
              .ok <| { reader with anchors := name :: reader.anchors }.goOn
                [.described block indentless] later
          | _, some reader => .ok reader
          | _, none => (reader.emitNull token.mark).meet token later
      | .described block indentless =>
          match reader.content? block indentless later token with
          | some reader => .ok reader
          | none => (reader.emitNull token.mark).meet token later
      | .blockItem => reader.blockItem later token
      | .blockItemNode =>
          match token.kind with
          | .blockEntry => (reader.emitNull token.mark).blockItem later token
          | .blockEnd => (reader.emitNull token.mark).blockItem later token
          | _ => reader.node true false (.blockItem :: later) token
      | .indentlessItem =>
          match token.kind with
          | .blockEntry => .ok <| reader.goOn [.indentlessItemNode] later
          | _ => (reader.emit token.mark .sequenceEnd).meet token later
      | .indentlessItemNode =>
          match token.kind with
          | .blockEntry =>
              .ok <| (reader.emitNull token.mark).goOn [.indentlessItemNode] later
          | kind =>
              if endsBlockNode kind then
                ((reader.emitNull token.mark).emit token.mark .sequenceEnd).meet token later
              else
                reader.node true false (.indentlessItem :: later) token
      | .blockKey => reader.blockKey later token
      | .blockKeyNode =>
          if endsBlockNode token.kind then
            (reader.emitNull token.mark).blockValue later token
          else
            reader.node true true (.blockValue :: later) token
      | .blockValue => reader.blockValue later token
      | .blockValueNode mark =>
          if endsBlockNode token.kind then
            (reader.emitNull mark).blockKey later token
          else
            reader.node true true (.blockKey :: later) token
      | .flowItem => reader.flowItem later token
      | .flowItemNext => reader.flowItemNext later token
      | .pairKey =>
          match token.kind with
          | .value => .ok <| (reader.emitNull token.mark).goOn [.pairValue] later
          | .flowEntry => .ok <| (reader.emitNull token.mark).goOn [.pairValue] later
          | .flowSequenceEnd => .ok <| (reader.emitNull token.mark).goOn [.pairValue] later
          | _ => reader.node false false (.pairValue :: later) token
      | .pairValue =>
          match token.kind with
          | .value => .ok <| reader.goOn [.pairValueNode] later
          | _ => (reader.emitNull token.mark).pairEnd later token
      | .pairValueNode =>
          match token.kind with
          | .flowEntry => (reader.emitNull token.mark).pairEnd later token
          | .flowSequenceEnd => (reader.emitNull token.mark).pairEnd later token
          | _ => reader.node false false (.pairEnd :: later) token
      | .pairEnd => reader.pairEnd later token
      | .flowKey => reader.flowKey later token
      | .flowKeyNext => reader.flowKeyNext later token
      | .flowKeyNode =>
          match token.kind with
          | .value => (reader.emitNull token.mark).flowValue later token
          | .flowEntry => (reader.emitNull token.mark).flowValue later token
          | .flowMappingEnd => (reader.emitNull token.mark).flowValue later token
          | _ => reader.node false false (.flowValue :: later) token
      | .flowValue => reader.flowValue later token
      | .flowValueNode mark =>
          match token.kind with
          | .flowEntry => (reader.emitNull mark).flowKeyNext later token
          | .flowMappingEnd => (reader.emitNull mark).flowKeyNext later token
          | _ => reader.node false false (.flowKeyNext :: later) token
      | .flowValueMissing => (reader.emitNull token.mark).flowKeyNext later token

/-- Reads tokens until all goals are fulfilled.  What comes after that is not looked at. -/
def run (reader : Reader) : Tokens → Except Fault (List Event)
  | ⟨tokens, fault⟩ => go reader tokens fault
where
  go (reader : Reader) : List Token → Option Fault → Except Fault (List Event)
    | [], fault =>
        match reader.goals, fault with
        | _ :: _, some fault => .error fault
        | _, _ => .ok reader.events.reverse
    | token :: later, fault =>
        match reader.goals with
        | [] => .ok reader.events.reverse
        | goals => do
            let reader ← reader.meet token goals
            go reader later fault

end Reader

def events (text : List Char) : Except Fault (List Event) :=
  Reader.run {} (.ofText text)

end Yaml
end FieldLine
