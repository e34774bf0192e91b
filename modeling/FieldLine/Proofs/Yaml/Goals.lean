import FieldLine.Proofs.Document.Flattening
import FieldLine.Proofs.Yaml.BlockRounds
import FieldLine.Yaml.Grammar

/-!
# Goals of a reader

A token meets the first goal and leaves the goals after it.  A goal that awaits a node may be met
by any token that starts one, and a document is read once the tokens of its node are.
-/

namespace FieldLine
namespace Yaml

open Lexer (Brackets)

/-- The kinds of tokens that a node starts with, which may be a block collection or not. -/
inductive TokenKind.StartsNode : Bool → TokenKind → Prop where
  | scalar {block : Bool} (text : String) (style : ScalarStyle) :
      StartsNode block (.scalar text style)
  | flowSequence {block : Bool} : StartsNode block .flowSequenceStart
  | flowMapping {block : Bool} : StartsNode block .flowMappingStart
  | blockSequence : StartsNode true .blockSequenceStart
  | blockMapping : StartsNode true .blockMappingStart

namespace Reader

variable {reader : Reader} {goal : Goal} {later next : List Goal} {fault : Option Fault}
  {tokens : List Token}

/-! ## Steps -/

/-- A reader that has gone on to other goals and has emitted some events. -/
def after (reader : Reader) (goals : List Goal) (events : List Event) : Reader :=
  { reader with goals := goals, events := events.reverse ++ reader.events }

theorem after_after (goals others : List Goal) (events more : List Event) :
    (reader.after goals events).after others more = reader.after others (events ++ more) := by
  simp [after]

theorem after_nil {goals : List Goal} (same : reader.goals = goals) :
    reader.after goals [] = reader := by
  subst same
  rfl

theorem go_cons {met : Reader} {token : Token} (goals : reader.goals = goal :: later)
    (meets : reader.meet token (goal :: later) = .ok met) :
    run.go reader (token :: tokens) fault = run.go met tokens fault := by
  rw [run.go, goals]
  simp only [meets]
  rfl

theorem go_nil (reader : Reader) : run.go reader [] none = .ok reader.events.reverse := by
  rw [run.go]
  intro goal later fault _ someFault
  cases someFault

end Reader

/-! ## Brackets -/

namespace Lexer.Brackets

/-- The goal where an element or key may start. -/
def firstGoal : Brackets → Goal
  | square => .flowItem
  | curly => .flowKey

/-- The goal after an element or value. -/
def nextGoal : Brackets → Goal
  | square => .flowItemNext
  | curly => .flowKeyNext

def startEvent : Brackets → EventKind
  | square => .sequenceStart
  | curly => .mappingStart

def endEvent : Brackets → EventKind
  | square => .sequenceEnd
  | curly => .mappingEnd

variable (brackets : Brackets) (reader : Reader) (mark : Mark) (later : List Goal)

theorem startsNode (block : Bool) : brackets.startKind.StartsNode block := by
  cases brackets with
  | square => exact .flowSequence
  | curly => exact .flowMapping

theorem node_start (block indentless : Bool) :
    reader.node block indentless later ⟨mark, brackets.startKind⟩ =
      .ok (reader.after (brackets.firstGoal :: later) [⟨mark.line, brackets.startEvent⟩]) := by
  cases brackets <;> rfl

theorem meet_end_first :
    reader.meet ⟨mark, brackets.endKind⟩ (brackets.firstGoal :: later) =
      .ok (reader.after later [⟨mark.line, brackets.endEvent⟩]) := by
  cases brackets <;> rfl

theorem meet_end_next :
    reader.meet ⟨mark, brackets.endKind⟩ (brackets.nextGoal :: later) =
      .ok (reader.after later [⟨mark.line, brackets.endEvent⟩]) := by
  cases brackets <;> rfl

theorem meet_comma :
    reader.meet ⟨mark, .flowEntry⟩ (brackets.nextGoal :: later) =
      .ok (reader.after (brackets.firstGoal :: later) []) := by
  cases brackets <;> rfl

end Lexer.Brackets

namespace Reader

variable {reader : Reader} {goal : Goal} {later next : List Goal} {fault : Option Fault}
  {tokens : List Token}

/-! ## Nodes that are awaited -/

/-- A goal awaits a node if any node that starts is read, with certain goals after it. -/
def Awaits (block : Bool) (goal : Goal) (later next : List Goal) : Prop :=
  ∃ indentless : Bool, ∀ (reader : Reader) (token : Token), token.kind.StartsNode block →
    reader.meet token (goal :: later) = reader.node block indentless next token

theorem awaits_documentContent : Awaits true .documentContent later (.documentEnd :: later) := by
  refine ⟨false, ?_⟩
  rintro reader ⟨mark, kind⟩ starts
  cases starts <;> rfl

theorem awaits_blockItemNode : Awaits true .blockItemNode later (.blockItem :: later) := by
  refine ⟨false, ?_⟩
  rintro reader ⟨mark, kind⟩ starts
  cases starts <;> rfl

theorem awaits_blockValueNode (mark : Mark) :
    Awaits true (.blockValueNode mark) later (.blockKey :: later) := by
  refine ⟨true, ?_⟩
  rintro reader ⟨_, kind⟩ starts
  cases starts <;> rfl

theorem awaits_flowItem : Awaits false .flowItem later (.flowItemNext :: later) := by
  refine ⟨false, ?_⟩
  rintro reader ⟨mark, kind⟩ starts
  cases starts <;> rfl

theorem awaits_flowValueNode (mark : Mark) :
    Awaits false (.flowValueNode mark) later (.flowKeyNext :: later) := by
  refine ⟨false, ?_⟩
  rintro reader ⟨_, kind⟩ starts
  cases starts <;> rfl

/-- A scalar that is awaited is read with its event. -/
theorem go_scalar {block : Bool} (awaits : Awaits block goal later next)
    (goals : reader.goals = goal :: later) (mark : Mark) (text : String) (style : ScalarStyle) :
    run.go reader (⟨mark, .scalar text style⟩ :: tokens) fault =
      run.go (reader.after next [⟨mark.line, .scalar text style⟩]) tokens fault := by
  obtain ⟨indentless, meets⟩ := awaits
  have read :
      reader.node block indentless next ⟨mark, .scalar text style⟩ =
        .ok (reader.after next [⟨mark.line, .scalar text style⟩]) :=
    rfl
  exact go_cons goals ((meets _ _ (.scalar _ _)).trans read)

/-- A bracket that is awaited leads to the first goal inside. -/
theorem go_opening {block : Bool} (brackets : Brackets) (awaits : Awaits block goal later next)
    (goals : reader.goals = goal :: later) (mark : Mark) :
    run.go reader (⟨mark, brackets.startKind⟩ :: tokens) fault =
      run.go (reader.after (brackets.firstGoal :: next) [⟨mark.line, brackets.startEvent⟩]) tokens
        fault := by
  obtain ⟨indentless, meets⟩ := awaits
  exact go_cons goals
    ((meets _ _ (brackets.startsNode block)).trans
      (brackets.node_start reader mark next block indentless))

/-- An empty collection ends at its second bracket. -/
theorem go_empty {block : Bool} (brackets : Brackets) (awaits : Awaits block goal later next)
    (goals : reader.goals = goal :: later) (mark stop : Mark) :
    run.go reader (⟨mark, brackets.startKind⟩ :: ⟨stop, brackets.endKind⟩ :: tokens) fault =
      run.go
        (reader.after next [⟨mark.line, brackets.startEvent⟩, ⟨stop.line, brackets.endEvent⟩])
        tokens fault := by
  rw [go_opening brackets awaits goals, go_cons rfl (brackets.meet_end_first _ stop next),
    after_after]
  rfl

/-! ## Documents -/

/-- A document may start with its content. -/
theorem go_document {token : Token} (starts : token.kind.StartsNode true) (tokens : List Token) :
    run.go {} (token :: tokens) fault =
      run.go (({} : Reader).after [.documentContent] [⟨token.mark.line, .documentStart⟩])
        (token :: tokens) fault := by
  obtain ⟨mark, kind⟩ := token
  rw [run.go, run.go]
  cases starts <;> rfl

/-- The events of a document that is a single node, up to the end of the stream. -/
theorem run_document {first : Token} {others : List Token} {node : SourceNode}
    (isFirst : tokens = first :: others) (starts : first.kind.StartsNode true)
    (parsed : ∀ (reader : Reader) (rest : List Token) (fault : Option Fault),
      reader.goals = [.documentContent] →
      run.go reader (tokens ++ rest) fault =
        run.go (reader.after [.documentEnd] node.events) rest fault)
    (last : Mark) :
    run {} ⟨tokens ++ [⟨last, .streamEnd⟩], none⟩ =
      .ok (⟨first.mark.line, .documentStart⟩ :: (node.events ++ [⟨last.line, .documentEnd⟩])) := by
  have final (reader : Reader) :
      reader.meet ⟨last, .streamEnd⟩ [.documentEnd] =
        .ok (reader.after [] [⟨last.line, .documentEnd⟩]) :=
    rfl
  have started :
      run.go {} (tokens ++ [⟨last, .streamEnd⟩]) none =
        run.go (({} : Reader).after [.documentContent] [⟨first.mark.line, .documentStart⟩])
          (tokens ++ [⟨last, .streamEnd⟩]) none := by
    rw [isFirst]
    exact go_document starts _
  rw [run, started, parsed _ _ _ rfl, go_cons rfl (final _), go_nil]
  simp [after]

end Reader

end Yaml
end FieldLine
