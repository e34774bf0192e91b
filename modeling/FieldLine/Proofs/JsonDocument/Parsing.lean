import FieldLine.Proofs.JsonDocument.Scanning
import FieldLine.Proofs.Yaml.Goals

/-!
# Documents of JSON texts

The tokens of a value emit its events, and from these its tree is built.  So a JSON text whose root
is an object or array is read as what it says, unless its nesting is too deep, a string is escaped
by pairs of code units, or tabs alone stand between a colon and a literal or number.
-/

namespace FieldLine

open Yaml Yaml.Lexer

namespace JsonSyntax
namespace Value

open Reader

/-! ## Events -/

def elementLines (elements : List (Padded Value)) : Nat :=
  (elementText Padding.unified elements).count '\n'

def memberLines (members : List (Member Value)) : Nat :=
  (memberText Padding.unified members).count '\n'

mutual

/-- A value as it stands in a text from a line on. -/
def source (line : Nat) : Value → SourceNode
  | literal word => .scalar line (.ofList word.chars) .plain
  | number numeral => .scalar line (.ofList numeral.chars) .plain
  | string glyphs => .scalar line (decoded glyphs) .doubleQuoted
  | hollow .square inside => .sequence line (line + inside.lines) []
  | hollow .curly inside => .mapping line (line + inside.lines) []
  | array elements =>
      .sequence line (line + elementLines elements) (elementSources line elements)
  | object members =>
      .mapping line (line + memberLines members) (memberSources line members)

def elementSources (line : Nat) : List (Padded Value) → List SourceNode
  | [] => []
  | ⟨before, value, after⟩ :: later =>
      let start := line + before.lines
      value.source start :: elementSources (start + value.lines + after.lines) later

def memberSources (line : Nat) : List (Member Value) → List (SourceNode × SourceNode)
  | [] => []
  | ⟨⟨beforeKey, key, afterKey⟩, ⟨before, value, after⟩⟩ :: later =>
      let keyLine := line + beforeKey.lines
      let start := keyLine + afterKey.lines + before.lines
      (.scalar keyLine (decoded key) .doubleQuoted, value.source start) ::
        memberSources (start + value.lines + after.lines) later

end

/-- The tokens of a value are read as its events wherever a node is awaited. -/
def IsParsed (value : Value) : Prop :=
  ∀ (mark : Mark) {block : Bool} {goal : Goal} {later next : List Goal} (reader : Reader)
    (rest : List Token) (fault : Option Fault),
    Awaits block goal later next → reader.goals = goal :: later →
    run.go reader (value.tokens mark ++ rest) fault =
      run.go (reader.after next (value.source mark.line).events) rest fault

theorem isParsed_scalar {value : Value} {text : String} {style : ScalarStyle}
    (isToken : ∀ mark : Mark, value.tokens mark = [⟨mark, .scalar text style⟩])
    (isSource : ∀ line : Nat, value.source line = .scalar line text style) : value.IsParsed := by
  intro mark block goal later next reader rest fault awaits goals
  rw [isToken, isSource, List.singleton_append, go_scalar awaits goals]
  rfl

section

variable {α : Type} {later : List Goal} {rest : List Token} {fault : Option Fault}

/-- The rest of a collection is read as its events wherever an element or key may start. -/
def IsParsedRest (brackets : Brackets) (tokens : Mark → List Token) (events : Nat → List Event) :
    Prop :=
  ∀ (mark : Mark) (later : List Goal) (reader : Reader) (rest : List Token)
    (fault : Option Fault), reader.goals = brackets.firstGoal :: later →
    run.go reader (tokens mark ++ rest) fault =
      run.go (reader.after later (events mark.line)) rest fault

theorem isParsedRest_end (brackets : Brackets) :
    IsParsedRest brackets (fun mark => [⟨mark, brackets.endKind⟩])
      (fun line => [⟨line, brackets.endEvent⟩]) :=
  fun mark later reader _ _ goals => go_cons goals (brackets.meet_end_first reader mark later)

theorem comma_line (mark : Mark) (others : List α) :
    (mark.past (comma others)).line = mark.line := by
  cases others <;> rfl

/-- After an element or member, its collection ends or goes on after a comma. -/
theorem go_rest (brackets : Brackets) (tokens : Mark → List α → List Token)
    (events : Nat → List α → List Event)
    (endToken : ∀ mark : Mark, tokens mark [] = [⟨mark, brackets.endKind⟩])
    (endEvent : ∀ line : Nat, events line [] = [⟨line, brackets.endEvent⟩]) {others : List α}
    (isParsed : IsParsedRest brackets (tokens · others) (events · others)) (mark : Mark)
    {reader : Reader} (goals : reader.goals = brackets.nextGoal :: later) :
    run.go reader (commaTokens mark others ++ (tokens (mark.past (comma others)) others ++ rest))
        fault =
      run.go (reader.after later (events mark.line others)) rest fault := by
  cases others with
  | nil =>
      change run.go reader (tokens mark [] ++ rest) fault = _
      rw [endToken, endEvent]
      exact go_cons goals (brackets.meet_end_next reader mark later)
  | cons first siblings =>
      have next := isParsed (mark.past (comma (first :: siblings))) later
        (reader.after (brackets.firstGoal :: later) []) rest fault rfl
      rw [comma_line, after_after, List.nil_append] at next
      exact (go_cons goals (brackets.meet_comma reader mark later)).trans next

end

/-- The events of the elements from a line on, and of the end of their array. -/
def elementEvents (line : Nat) (elements : List (Padded Value)) : List Event :=
  SourceNode.itemEvents (elementSources line elements) ++
    [⟨line + elementLines elements, .sequenceEnd⟩]

def memberEvents (line : Nat) (members : List (Member Value)) : List Event :=
  SourceNode.entryEvents (memberSources line members) ++
    [⟨line + memberLines members, .mappingEnd⟩]

theorem count_comma {α : Type} (later : List α) : (comma later).count '\n' = 0 := by
  cases later <;> rfl

theorem count_quoted (glyphs : List Glyph) : (quoted glyphs).count '\n' = 0 :=
  List.count_eq_zero.mpr fun member => (isSolid_quoted glyphs _ member).1 rfl

theorem elementEvents_cons (line : Nat) (before after : Padding) (value : Value)
    (later : List (Padded Value)) :
    elementEvents line (⟨before, value, after⟩ :: later) =
      (value.source (line + before.lines)).events ++
        elementEvents (line + before.lines + value.lines + after.lines) later := by
  have lines :
      line + elementLines (⟨before, value, after⟩ :: later) =
        line + before.lines + value.lines + after.lines + elementLines later := by
    simp only [elementLines, elementText, List.count_append, count_comma, Padding.lines, lines]
    omega
  rw [elementEvents, lines, elementSources, SourceNode.itemEvents, List.append_assoc]
  rfl

theorem memberEvents_cons (line : Nat) (beforeKey afterKey before after : Padding)
    (key : List Glyph) (value : Value) (later : List (Member Value)) :
    memberEvents line (⟨⟨beforeKey, key, afterKey⟩, ⟨before, value, after⟩⟩ :: later) =
      ⟨line + beforeKey.lines, .scalar (decoded key) .doubleQuoted⟩ ::
        ((value.source (line + beforeKey.lines + afterKey.lines + before.lines)).events ++
          memberEvents
            (line + beforeKey.lines + afterKey.lines + before.lines + value.lines + after.lines)
            later) := by
  have lines :
      line + memberLines (⟨⟨beforeKey, key, afterKey⟩, ⟨before, value, after⟩⟩ :: later) =
        line + beforeKey.lines + afterKey.lines + before.lines + value.lines + after.lines +
          memberLines later := by
    have notColon : (':' == '\n') = false := rfl
    simp only [memberLines, memberText, List.count_append, List.count_cons, count_comma,
      count_quoted, Padding.lines, lines, notColon, Bool.false_eq_true, if_false]
    omega
  rw [memberEvents, lines, memberSources, SourceNode.entryEvents, List.append_assoc,
    List.append_assoc]
  rfl

theorem isParsedRest_elements {elements : List (Padded Value)}
    (areParsed : ∀ element ∈ elements, element.inner.IsParsed) :
    IsParsedRest .square (elementTokens · elements) (elementEvents · elements) := by
  induction elements with
  | nil => exact isParsedRest_end .square
  | cons element later inductionHypothesis =>
      intro mark goals reader rest fault isFirst
      obtain ⟨before, value, after⟩ := element
      rw [List.forall_mem_cons] at areParsed
      have laterParsed := inductionHypothesis areParsed.2
      simp only [elementTokens, elementEvents_cons, List.append_assoc]
      rw [areParsed.1 _ _ _ _ awaits_flowItem isFirst,
        go_rest .square elementTokens elementEvents (fun _ => rfl) (fun _ => rfl) laterParsed _ rfl,
        after_after]
      simp only [Mark.past_line, Mark.past_append, Padding.lines, lines]

theorem isParsedRest_members {members : List (Member Value)}
    (areParsed : ∀ member ∈ members, member.value.inner.IsParsed) :
    IsParsedRest .curly (memberTokens · members) (memberEvents · members) := by
  induction members with
  | nil => exact isParsedRest_end .curly
  | cons member later inductionHypothesis =>
      intro mark goals reader rest fault isFirst
      obtain ⟨⟨beforeKey, key, afterKey⟩, ⟨before, value, after⟩⟩ := member
      rw [List.forall_mem_cons] at areParsed
      have laterParsed := inductionHypothesis areParsed.2
      have announced (mark : Mark) :
          reader.meet ⟨mark, .key⟩ (.flowKey :: goals) =
            .ok (reader.after (.flowKeyNode :: goals) []) :=
        rfl
      have name (reader : Reader) (mark : Mark) :
          reader.meet ⟨mark, .scalar (decoded key) .doubleQuoted⟩ (.flowKeyNode :: goals) =
            .ok (reader.after (.flowValue :: goals)
              [⟨mark.line, .scalar (decoded key) .doubleQuoted⟩]) :=
        rfl
      have colon (reader : Reader) (mark : Mark) :
          reader.meet ⟨mark, .value⟩ (.flowValue :: goals) =
            .ok (reader.after (.flowValueNode mark :: goals) []) :=
        rfl
      simp only [memberTokens, memberEvents_cons, List.append_assoc, List.cons_append]
      rw [go_cons isFirst (announced _), go_cons rfl (name _ _), go_cons rfl (colon _ _),
        areParsed.1 _ _ _ _ (awaits_flowValueNode _) rfl,
        go_rest .curly memberTokens memberEvents (fun _ => rfl) (fun _ => rfl) laterParsed _ rfl]
      have colonLine (mark : Mark) : (mark.right 1).line = mark.line := rfl
      simp only [after_after, Mark.past_line, Mark.past_append, colonLine, count_quoted,
        Nat.add_zero, List.nil_append, List.append_nil, List.cons_append, Padding.lines, lines]

/-- What stands in brackets is read with the brackets around it. -/
theorem isParsed_collection (brackets : Brackets) {value : Value} (inside : Mark → List Token)
    (events : Nat → List Event)
    (areTokens : ∀ mark : Mark,
      value.tokens mark = ⟨mark, brackets.startKind⟩ :: inside (mark.right 1))
    (areEvents : ∀ line : Nat,
      (value.source line).events = ⟨line, brackets.startEvent⟩ :: events line)
    (isParsedRest : IsParsedRest brackets inside events) : value.IsParsed := by
  intro mark block goal later next reader rest fault awaits goals
  rw [areTokens, areEvents, List.cons_append, go_opening brackets awaits goals,
    isParsedRest _ _ _ _ _ rfl, after_after]
  rfl

theorem isParsed (value : Value) : value.IsParsed := by
  induction value with
  | literal word => exact isParsed_scalar (fun _ => rfl) fun _ => rfl
  | number numeral => exact isParsed_scalar (fun _ => rfl) fun _ => rfl
  | string glyphs => exact isParsed_scalar (fun _ => rfl) fun _ => rfl
  | hollow brackets inside =>
      refine isParsed_collection brackets
        (fun mark => [⟨mark.past inside.unified, brackets.endKind⟩])
        (fun line => [⟨line + inside.lines, brackets.endEvent⟩]) (fun _ => rfl)
        (fun line => by cases brackets <;> rfl) ?_
      intro mark later reader rest fault isFirst
      have ends :=
        isParsedRest_end brackets (mark.past inside.unified) later reader rest fault isFirst
      rwa [Mark.past_line] at ends
  | array elements inductionHypothesis =>
      exact isParsed_collection .square (elementTokens · elements) (elementEvents · elements)
        (fun _ => rfl) (fun _ => rfl) (isParsedRest_elements inductionHypothesis)
  | object members inductionHypothesis =>
      exact isParsed_collection .curly (memberTokens · members) (memberEvents · members)
        (fun _ => rfl) (fun _ => rfl) (isParsedRest_members inductionHypothesis)

/-! ## Trees -/

theorem node_line (value : Value) (line : Nat) : (value.node line).line = line := by
  cases value with
  | hollow brackets inside => cases brackets <;> rfl
  | _ => rfl

theorem settle_bareWord {word : List Char} (bareWord : IsBareWord word) (line : Nat)
    (instead : Option Nat) :
    (SourceNode.scalar line (.ofList word) .plain).settle instead =
      .scalar line (.ofList word) := by
  have someChar := Plain.ne_nil_of_isBareWord bareWord
  simp [SourceNode.settle, someChar]

theorem settleItems_elementSources {elements : List (Padded Value)}
    (each : ∀ element ∈ elements, ∀ (line : Nat) (instead : Option Nat),
      (element.inner.source line).settle instead = element.inner.node line)
    (line before : Nat) :
    SourceNode.settleItems before (elementSources line elements) = elementNodes line elements := by
  induction elements generalizing line before with
  | nil => rfl
  | cons element later inductionHypothesis =>
      obtain ⟨padding, value, after⟩ := element
      rw [List.forall_mem_cons] at each
      rw [elementSources, SourceNode.settleItems, elementNodes, each.1, inductionHypothesis each.2]

theorem settleEntries_memberSources {members : List (Member Value)}
    (each : ∀ member ∈ members, ∀ (line : Nat) (instead : Option Nat),
      (member.value.inner.source line).settle instead = member.value.inner.node line)
    (line : Nat) :
    SourceNode.settleEntries (memberSources line members) = memberNodes line members := by
  induction members generalizing line with
  | nil => rfl
  | cons member later inductionHypothesis =>
      obtain ⟨⟨beforeKey, key, afterKey⟩, ⟨before, value, after⟩⟩ := member
      rw [List.forall_mem_cons] at each
      have keySettles :
          (SourceNode.scalar (line + beforeKey.lines) (decoded key) .doubleQuoted).settle none =
            .scalar (line + beforeKey.lines) (decoded key) := by
        simp [SourceNode.settle]
      rw [memberSources, SourceNode.settleEntries, memberNodes, each.1, keySettles,
        inductionHypothesis each.2]

/-- No node of a value is missing, so every node keeps its own line. -/
theorem settle_source (value : Value) (line : Nat) (instead : Option Nat) :
    (value.source line).settle instead = value.node line := by
  induction value generalizing line instead with
  | literal word => exact settle_bareWord (isBareWord_literal word) line instead
  | number numeral => exact settle_bareWord (isBareWord_number numeral) line instead
  | string glyphs => simp [source, SourceNode.settle, node]
  | hollow brackets inside => cases brackets <;> rfl
  | array elements inductionHypothesis =>
      rw [source, SourceNode.settle, settleItems_elementSources inductionHypothesis, node]
  | object members inductionHypothesis =>
      rw [source, SourceNode.settle, settleEntries_memberSources inductionHypothesis, node]

/-- The first token of a collection stands at its bracket. -/
theorem exists_tokens_cons {value : Value} (isCollection : value.IsCollection) (mark : Mark) :
    ∃ (first : Token) (others : List Token), value.tokens mark = first :: others ∧
      first.kind.StartsNode true ∧ first.mark = mark := by
  cases isCollection with
  | hollow brackets inside =>
      cases brackets with
      | square => exact ⟨_, _, rfl, .flowSequence, rfl⟩
      | curly => exact ⟨_, _, rfl, .flowMapping, rfl⟩
  | array elements => exact ⟨_, _, rfl, .flowSequence, rfl⟩
  | object members => exact ⟨_, _, rfl, .flowMapping, rfl⟩

theorem text_ne_nil {value : Value} (isCollection : value.IsCollection)
    (render : Padding → List Char) : value.text render ≠ [] := by
  cases isCollection <;> exact List.cons_ne_nil _ _

end Value
end JsonSyntax

/-! ## Documents -/

namespace JsonText

open JsonSyntax

theorem events_text (document : JsonText) (isCollection : document.inner.IsCollection)
    (shallow : document.inner.depth ≤ Lexer.maxFlowDepth) (portable : document.inner.IsPortable) :
    ∃ stop : Nat, Yaml.events (document.text Padding.unified) =
      .ok (⟨1 + document.before.lines, .documentStart⟩ ::
        ((document.inner.source (1 + document.before.lines)).events ++
          [⟨stop, .documentEnd⟩])) := by
  let start := (Mark.mk 1 0).past document.before.unified
  have startLine : start.line = 1 + document.before.lines := Mark.past_line _ _
  obtain ⟨last, reads⟩ := ofText_text document isCollection shallow portable
  obtain ⟨first, others, isFirst, starts, firstMark⟩ :=
    Value.exists_tokens_cons isCollection start
  have events :=
    Reader.run_document isFirst starts
      (fun reader rest fault =>
        document.inner.isParsed start reader rest fault Reader.awaits_documentContent) last
  rw [firstMark, startLine] at events
  exact ⟨last.line, by rw [Yaml.events, reads, events]⟩

/-- A JSON text whose root is an object or array is read as what it says, if it is not nested too
deep, no string is escaped by pairs of code units, and no literal or number is separated from the
colon before it by tabs alone. -/
theorem ofBytes_jsonText (document : JsonText) (isCollection : document.inner.IsCollection)
    (shallow : document.inner.depth ≤ Lexer.maxFlowDepth) (portable : document.inner.IsPortable) :
    Document.ofBytes document.bytes = .ok document.tree := by
  obtain ⟨stop, events⟩ := events_text document isCollection shallow portable
  have decoded : Utf8.decode document.bytes = .ok (document.text Padding.chars) :=
    (Utf8.decode_encode _).trans (congrArg Except.ok String.toList_ofList)
  have someByte : document.bytes ≠ [] := by
    intro noByte
    rw [noByte] at decoded
    have noChar : [] = document.text Padding.chars := Except.ok.inj decoded
    rw [text, eq_comm, List.append_eq_nil_iff, List.append_eq_nil_iff] at noChar
    exact Value.text_ne_nil isCollection _ noChar.2.1
  rw [Document.ofBytes, if_neg someByte, decoded]
  simp only
  rw [Document.ofText, body_text, events]
  simp only
  rw [Assembly.ofEvents_document, Value.settle_source, Value.node_line]
  rfl

/-! Every kind of value, with white space of every kind. -/

def mixed : JsonText :=
  let empty : Padding := ⟨[], by simp⟩
  let space : Padding := ⟨[' '], by simp⟩
  let accented : List Glyph :=
    [.plain 'a' (by decide),
      .code ⟨⟨0, false⟩, ⟨0, false⟩, ⟨14, true⟩, ⟨9, false⟩⟩ (by decide)]
  let numeral : Number :=
    ⟨true, ⟨['2'], by simp, by simp⟩, by decide, some ⟨['5'], by simp, by simp⟩,
      some ⟨true, some false, ⟨['3'], by simp, by simp⟩⟩⟩
  let items : Value :=
    .array [⟨empty, .number numeral, empty⟩, ⟨empty, .string [.escape .lineFeed], space⟩,
      ⟨empty, .literal .null, empty⟩]
  let hollow : Value := .hollow .curly ⟨['\n'], by simp⟩
  ⟨⟨['\r', '\n'], by simp⟩,
    .object
      [⟨⟨space, accented, empty⟩, ⟨⟨['\r'], by simp⟩, items, empty⟩⟩,
        ⟨⟨⟨['\r', '\n', '\t'], by simp⟩, [], space⟩, ⟨⟨['\t'], by simp⟩, hollow, empty⟩⟩],
    empty⟩

theorem ofBytes_jsonText_mixed :
    mixed.inner.IsCollection ∧ mixed.inner.depth ≤ Lexer.maxFlowDepth ∧ mixed.inner.IsPortable ∧
      mixed.bytes = Utf8.encode
        "\r\n\x7b \"a\\u00E9\":\r[-2.5E+3,\"\\n\" ,null],\r\n\t\"\" :\t\x7b\n\x7d\x7d" ∧
      Document.ofBytes mixed.bytes =
        .ok (.document 2 (some (.mapping 2
          [(.scalar 2 "aé",
              .sequence 3 [.scalar 3 "-2.5E+3", .scalar 3 "\n", .scalar 3 "null"]),
            (.scalar 4 "", .mapping 4 [])]))) := by
  have isCollection : mixed.inner.IsCollection := .object _
  have shallow : mixed.inner.depth ≤ Lexer.maxFlowDepth := by decide
  have portable : mixed.inner.IsPortable := by
    refine .object ?_ ?_ ?_ <;>
      refine List.forall_mem_cons.mpr ⟨?_, List.forall_mem_singleton.mpr ?_⟩
    · exact List.forall_mem_cons.mpr ⟨nofun, List.forall_mem_singleton.mpr nofun⟩
    · exact List.forall_mem_nil _
    · exact nofun
    · exact nofun
    · refine .array (List.forall_mem_cons.mpr ⟨.number _, List.forall_mem_cons.mpr ⟨.string ?_,
        List.forall_mem_singleton.mpr (.literal _)⟩⟩)
      exact List.forall_mem_singleton.mpr nofun
    · exact .hollow _ _
  exact ⟨isCollection, shallow, portable, rfl, ofBytes_jsonText mixed isCollection shallow portable⟩

/-! A pair of code units, and a tab alone between a colon and a number. -/

def surrogatePair : JsonText :=
  let empty : Padding := ⟨[], by simp⟩
  let face : Glyph :=
    .pair ⟨⟨13, false⟩, ⟨8, false⟩, ⟨3, false⟩, ⟨13, false⟩⟩
      ⟨⟨13, false⟩, ⟨14, false⟩, ⟨0, false⟩, ⟨0, false⟩⟩ (by decide) (by decide)
  ⟨empty, .array [⟨empty, .string [face], empty⟩], empty⟩

def tabbedNumber : JsonText :=
  let empty : Padding := ⟨[], by simp⟩
  let one : Number := ⟨false, ⟨['1'], by simp, by simp⟩, by decide, .none, .none⟩
  ⟨empty, .object
    [⟨⟨empty, [.plain 'a' (by decide)], empty⟩, ⟨⟨['\t'], by simp⟩, .number one, empty⟩⟩], empty⟩

/-- Two texts that say something are refused instead. -/
theorem ofBytes_refuses_surrogate_pair_and_tab :
    (surrogatePair.inner.IsCollection ∧ surrogatePair.inner.depth = 1 ∧
      surrogatePair.bytes = Utf8.encode "[\"\\ud83d\\ude00\"]" ∧
      surrogatePair.tree = .document 1 (some (.sequence 1 [.scalar 1 "😀"])) ∧
      Document.ofBytes surrogatePair.bytes =
        .error (.malformed ⟨⟨1, 1⟩, .escapeNotCharacter⟩)) ∧
    (tabbedNumber.inner.IsCollection ∧ tabbedNumber.inner.depth = 1 ∧
      tabbedNumber.bytes = Utf8.encode "\x7b\"a\":\t1\x7d" ∧
      tabbedNumber.tree = .document 1 (some (.mapping 1 [(.scalar 1 "a", .scalar 1 "1")])) ∧
      Document.ofBytes tabbedNumber.bytes =
        .error (.malformed ⟨⟨1, 6⟩, .valueSeparatedByTab⟩)) := by
  have refused {document : JsonText} {fault : DocumentFault}
      (kind : (Document.ofBytes document.bytes).map Node.kind = .error fault) :
      Document.ofBytes document.bytes = .error fault := by
    cases read : Document.ofBytes document.bytes with
    | error other =>
        rw [read] at kind
        cases kind
        rfl
    | ok root =>
        rw [read] at kind
        cases kind
  exact ⟨⟨.array _, rfl, rfl, rfl, refused (by decide +kernel)⟩,
    ⟨.object _, rfl, rfl, rfl, refused (by decide +kernel)⟩⟩

end JsonText
end FieldLine
