import FieldLine.Json.Text

/-!
JSON values and their two written forms: on one line, or with one element or member a line.
-/

namespace FieldLine
namespace Json

inductive Value where
  | null
  | natural (value : Nat)
  | string (text : String)
  | list (items : List Value)
  | object (members : List (String × Value))

namespace Value

mutual

/-- A value on one line without any blanks. -/
def compact : Value → String
  | null => "null"
  | natural value => toString value
  | string text => Text.quote text
  | list items => "[" ++ String.intercalate "," (compactList items) ++ "]"
  | object members => "\x7b" ++ String.intercalate "," (compactMembers members) ++ "\x7d"

def compactList : List Value → List String
  | [] => []
  | item :: later => item.compact :: compactList later

def compactMembers : List (String × Value) → List String
  | [] => []
  | (name, value) :: later => (Text.quote name ++ ":" ++ value.compact) :: compactMembers later

end

def newline (depth : Nat) : String :=
  .ofList ('\n' :: List.replicate (2 * depth) ' ')

/-- The lines of a collection between its brackets. -/
def block (depth : Nat) (opening closing : String) (lines : List String) : String :=
  if lines = [] then
    opening ++ closing
  else
    opening ++ newline (depth + 1) ++ String.intercalate ("," ++ newline (depth + 1)) lines ++
      newline depth ++ closing

mutual

/-- A value at some depth of indentation, two spaces for each level. -/
def prettyAt (depth : Nat) : Value → String
  | null => "null"
  | natural value => toString value
  | string text => Text.quote text
  | list items => block depth "[" "]" (prettyList (depth + 1) items)
  | object members => block depth "\x7b" "\x7d" (prettyMembers (depth + 1) members)

def prettyList (depth : Nat) : List Value → List String
  | [] => []
  | item :: later => prettyAt depth item :: prettyList depth later

def prettyMembers (depth : Nat) : List (String × Value) → List String
  | [] => []
  | (name, value) :: later =>
      (Text.quote name ++ ": " ++ prettyAt depth value) :: prettyMembers depth later

end

/-- A value with one element or member a line. -/
def pretty (value : Value) : String :=
  prettyAt 0 value

end Value
end Json
end FieldLine
