import FieldLine.Json.Skip
import FieldLine.Reasons
import FieldLine.Text.Quoted
import FieldLine.Violation.Record

/-!
Reading violation records from JSON.  A record is an object, or a list of its values in order.
Members that a record does not know are passed over.
-/

namespace FieldLine
namespace Violation

open Json (Cursor Fault Found byte)

/-! ## Fields -/

inductive Field where
  | rule
  | file
  | path
  | line
  | severity
  | category
deriving DecidableEq, Repr

def Field.name : Field → String
  | rule => "rule_id"
  | file => "file"
  | path => "path"
  | line => "line"
  | severity => "severity"
  | category => "category"

/-- All fields, in the order of a list. -/
def Field.all : List Field :=
  [rule, file, path, line, severity, category]

def Field.ofName? (name : String) : Option Field :=
  all.find? fun field => field.name == name

/-- A record of which some fields are known. -/
structure Draft where
  rule : Option String := none
  file : Option String := none
  path : Option String := none
  line : Option (Option Nat) := none
  severity : Option String := none
  category : Option String := none

namespace Draft

def has (draft : Draft) : Field → Bool
  | .rule => draft.rule.isSome
  | .file => draft.file.isSome
  | .path => draft.path.isSome
  | .line => draft.line.isSome
  | .severity => draft.severity.isSome
  | .category => draft.category.isSome

/-- The record, unless a field without a default is missing.  The first such field counts. -/
def finish (draft : Draft) : Except Field Violation :=
  match draft.rule, draft.file, draft.path with
  | none, _, _ => .error .rule
  | _, none, _ => .error .file
  | _, _, none => .error .path
  | some rule, some file, some path =>
      .ok {
        rule := rule
        file := file
        path := path
        line := draft.line.getD none
        severity := draft.severity.getD ""
        category := draft.category.getD "" }

end Draft

/-! ## Values -/

/-- The fault of a value that is not of the expected kind.  It is read first, unless it is a
collection. -/
def refuse {α : Type} (cursor : Cursor) (b : UInt8) (expected : String) : Except Fault α := do
  let (found, next) ←
    if b = byte 'n' then
      (cursor.next.skipWord ['u', 'l', 'l']).map (Found.null, ·)
    else if b = byte 't' then
      (cursor.next.skipWord ['r', 'u', 'e']).map (Found.boolean true, ·)
    else if b = byte 'f' then
      (cursor.next.skipWord ['a', 'l', 's', 'e']).map (Found.boolean false, ·)
    else if b = byte '-' then
      (Json.Number.read cursor.next false).map fun (number, next) => (number.found, next)
    else if Json.isDigit b then
      (Json.Number.read cursor true).map fun (number, next) => (number.found, next)
    else if b = byte '"' then
      (Json.Text.read cursor.next).map fun (text, next) => (.string (Quoted.render text), next)
    else if b = byte '[' then
      pure (.sequence, cursor)
    else if b = byte '\x7b' then
      pure (.map, cursor)
    else
      cursor.faultAtNext .valueMissing
  next.fault (.typeInvalid found expected)

def readText (cursor : Cursor) : Except Fault (String × Cursor) :=
  let cursor := cursor.skipSpace
  match cursor.rest with
  | [] => cursor.fault .endsInValue
  | b :: _ =>
      if b = byte '"' then Json.Text.read cursor.next else refuse cursor b "a string"

def lineOfNumber (number : Json.Number) (next : Cursor) : Except Fault (Option Nat × Cursor) :=
  match number with
  | .natural value => .ok (some value, next)
  | .negative magnitude => next.fault (.valueInvalid (.negative magnitude) "usize")
  | .decimal text => next.fault (.typeInvalid (.decimal text) "usize")

def readLine (cursor : Cursor) : Except Fault (Option Nat × Cursor) :=
  let cursor := cursor.skipSpace
  match cursor.rest with
  | [] => cursor.fault .endsInValue
  | b :: _ =>
      if b = byte 'n' then
        (cursor.next.skipWord ['u', 'l', 'l']).map (none, ·)
      else if b = byte '-' then do
        let (number, next) ← Json.Number.read cursor.next false
        lineOfNumber number next
      else if Json.isDigit b then do
        let (number, next) ← Json.Number.read cursor true
        lineOfNumber number next
      else
        refuse cursor b "usize"

def readField (draft : Draft) (cursor : Cursor) : Field → Except Fault (Draft × Cursor)
  | .rule => (readText cursor).map fun (text, next) => ({ draft with rule := some text }, next)
  | .file => (readText cursor).map fun (text, next) => ({ draft with file := some text }, next)
  | .path => (readText cursor).map fun (text, next) => ({ draft with path := some text }, next)
  | .line => (readLine cursor).map fun (line, next) => ({ draft with line := some line }, next)
  | .severity =>
      (readText cursor).map fun (text, next) => ({ draft with severity := some text }, next)
  | .category =>
      (readText cursor).map fun (text, next) => ({ draft with category := some text }, next)

/-! ## Records -/

def expected : String := "struct Violation"

/-- Reads the values of some fields, in order, from a list; `first` if none has been read.  From
the line on, fields may be missing. -/
def readItems (draft : Draft) (cursor : Cursor) :
    (fields : List Field) → (first : Bool) → Except Fault (Draft × Cursor)
  | [], _ => .ok (draft, cursor)
  | field :: later, first => do
      let (cursor, more) ← cursor.nextElement first
      if more then
        let (draft, cursor) ← readField draft cursor field
        readItems draft cursor later false
      else if field = .rule ∨ field = .file ∨ field = .path then
        cursor.next.fault (.lengthInvalid (Field.all.length - later.length - 1)
          (expected ++ " with 6 elements"))
      else
        return (draft, cursor)

/-- The place where the repetition of a key that ends at the cursor is reported. -/
def afterKey (cursor : Cursor) : Cursor :=
  let cursor := cursor.skipSpace
  if cursor.rest.head? = some (byte '\x7d') then cursor.next else cursor

/-- Reads the members of an object, up to the brace that closes it.  `fuel` bounds the number of
bytes. -/
def readMembers : (fuel : Nat) → Draft → Cursor → (first : Bool) → Except Fault (Draft × Cursor)
  | 0, _, cursor, _ => cursor.fault .endsInObject
  | fuel + 1, draft, cursor, first => do
      let (cursor, more) ← cursor.nextMember first
      if more then
        let (name, cursor) ← Json.Text.read cursor
        match Field.ofName? name with
        | none =>
            let cursor ← cursor.skipColon
            let cursor ← cursor.skipValue fuel
            readMembers fuel draft cursor false
        | some field =>
            if draft.has field then
              (afterKey cursor).fault (.fieldRepeated name)
            else
              let cursor ← cursor.skipColon
              let (draft, cursor) ← readField draft cursor field
              readMembers fuel draft cursor false
      else
        return (draft, cursor.next)

def finish (draft : Draft) (cursor : Cursor) : Except Fault (Violation × Cursor) :=
  match draft.finish with
  | .ok violation => .ok (violation, cursor)
  | .error field => cursor.fault (.fieldMissing field.name)

def readRecord (fuel : Nat) (cursor : Cursor) : Except Fault (Violation × Cursor) :=
  let cursor := cursor.skipSpace
  match cursor.rest with
  | [] => cursor.fault .endsInValue
  | b :: _ =>
      if b = byte '[' then do
        let (draft, cursor) ← readItems {} cursor.next Field.all true
        let cursor ← cursor.closeList
        finish draft cursor
      else if b = byte '\x7b' then do
        let (draft, cursor) ← readMembers fuel {} cursor.next true
        finish draft cursor
      else
        refuse cursor b expected

/-- Reads the records of a list after some others (latest first), up to after its end. -/
def readRecords : (fuel : Nat) → List Violation → Cursor → (first : Bool) →
    Except Fault (List Violation × Cursor)
  | 0, _, cursor, _ => cursor.fault .endsInList
  | fuel + 1, done, cursor, first => do
      let (cursor, more) ← cursor.nextElement first
      if more then
        let (violation, cursor) ← readRecord fuel cursor
        readRecords fuel (violation :: done) cursor false
      else
        return (done.reverse, cursor.next)

def readAll (bytes : List UInt8) : Except Fault (List Violation) := do
  let cursor := (Cursor.start bytes).skipSpace
  match cursor.rest with
  | [] => cursor.fault .endsInValue
  | b :: _ =>
      if b = byte '[' then
        let (violations, cursor) ← readRecords bytes.length [] cursor.next true
        let cursor := cursor.skipSpace
        if cursor.rest = [] then return violations
        else cursor.faultAtNext .trailingCharacters
      else
        refuse cursor b "a sequence"

/-- What is wrong with text that holds no records, the outermost reason first. -/
def faultReasons (fault : Fault) : Reasons :=
  ["Failed to parse violation records", fault.message]

end Violation
end FieldLine
