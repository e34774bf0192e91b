import FieldLine.Document.Assembly
import FieldLine.Text.Utf8
import FieldLine.Yaml.Grammar

/-!
Reading a document from bytes.  JSON is YAML too and is read in the same way.
-/

namespace FieldLine

inductive DocumentFault where
  | empty
  | encoding (fault : Utf8.Fault)
  | malformed (fault : Yaml.Fault)
deriving DecidableEq, Repr

/-- The wording of a document fault.  Columns are counted from one here. -/
def DocumentFault.message : DocumentFault → String
  | empty => "document is empty"
  | encoding fault => "document is not valid UTF-8: " ++ fault.message
  | malformed fault =>
      "malformed document at line " ++ toString fault.mark.line ++ ", column " ++
        toString (fault.mark.column + 1) ++ ": " ++ fault.cause.message

namespace Document

/-- Unifies the line breaks of a text that follows the characters `done`, latest first. -/
def unifyBreaksAfter (done : List Char) : List Char → List Char
  | [] => done.reverse
  | '\r' :: '\n' :: rest => unifyBreaksAfter ('\n' :: done) rest
  | c :: rest => unifyBreaksAfter ((if c = '\r' then '\n' else c) :: done) rest

/-- Writes every line break as a line feed: a carriage return with the line feed after it, if
there is one, becomes a single line feed. -/
def unifyBreaks (text : List Char) : List Char :=
  unifyBreaksAfter [] text

theorem unifyBreaksAfter_append (done earlier text : List Char) :
    unifyBreaksAfter (done ++ earlier) text = earlier.reverse ++ unifyBreaksAfter done text := by
  fun_induction unifyBreaksAfter done text with
  | case1 done => simp [unifyBreaksAfter]
  | case2 done rest inductionHypothesis =>
      rw [unifyBreaksAfter, ← inductionHypothesis]
      rfl
  | case3 done c rest notPair inductionHypothesis =>
      rw [unifyBreaksAfter, ← inductionHypothesis]
      · rfl
      · exact notPair

theorem unifyBreaksAfter_eq (done text : List Char) :
    unifyBreaksAfter done text = done.reverse ++ unifyBreaks text :=
  unifyBreaksAfter_append [] done text

@[simp]
theorem unifyBreaks_nil : unifyBreaks [] = [] :=
  rfl

@[simp]
theorem unifyBreaks_pair (rest : List Char) :
    unifyBreaks ('\r' :: '\n' :: rest) = '\n' :: unifyBreaks rest := by
  rw [unifyBreaks, unifyBreaksAfter, unifyBreaksAfter_eq]
  rfl

theorem unifyBreaks_cons (c : Char) (rest : List Char)
    (notPair : c = '\r' → rest.head? ≠ some '\n') :
    unifyBreaks (c :: rest) = (if c = '\r' then '\n' else c) :: unifyBreaks rest := by
  rw [unifyBreaks, unifyBreaksAfter, unifyBreaksAfter_eq]
  · rfl
  · rintro later rfl rfl
    exact notPair rfl rfl

/-- The text of a document ends at its first null character. -/
def body (text : List Char) : List Char :=
  unifyBreaks <| text.takeWhile (· ≠ '\x00')

def ofText (text : List Char) : Except DocumentFault Node :=
  match Yaml.events (body text) with
  | .ok events => .ok (Assembly.ofEvents events)
  | .error fault => .error (.malformed fault)

def ofBytes (bytes : List UInt8) : Except DocumentFault Node :=
  if bytes = [] then
    .error .empty
  else
    match Utf8.decode bytes with
    | .ok text => ofText text
    | .error fault => .error (.encoding fault)

end Document
end FieldLine
