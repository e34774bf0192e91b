import FieldLine.Document.Node

/-!
What is worth noting while paths are resolved, and how it is worded.
-/

namespace FieldLine

inductive Note.Level where
  | debug
  | warn
deriving DecidableEq, Repr

def Note.Level.render : Note.Level → String
  | debug => "DEBUG"
  | warn => "WARN"

inductive Note where
  | noContent (kept : Nat)
  /-- A key is missing from the node on a line, so the line reached before is kept. -/
  | keyMissing (name : String) (within : Kind) (line kept : Nat)
  /-- The value of a key, on a line, has no such element, so the line is kept. -/
  | elementMissing (index : Nat) (within : Kind) (name : String) (line kept : Nat)
  | startLineUsed (start : Nat) (reason : String)
  | recordResolved (rule file path : String) (line : Nat)
  | recordFailed (rule file path reason : String)
  | pathFailed (file path reason : String) (start : Nat)
  | configIgnored (path : String)
deriving DecidableEq, Repr

namespace Note

/-- The level of a note: failures are warnings. -/
def level : Note → Level
  | noContent .. => .debug
  | keyMissing .. => .debug
  | elementMissing .. => .debug
  | startLineUsed .. => .warn
  | recordResolved .. => .debug
  | recordFailed .. => .warn
  | pathFailed .. => .warn
  | configIgnored .. => .warn

def message : Note → String
  | noContent kept => "document has no content, keeping line " ++ toString kept
  | keyMissing name within line kept =>
      "key '" ++ name ++ "' not found in " ++ within.render ++ " at line " ++ toString line ++
        ", keeping line " ++ toString kept
  | elementMissing index within name line kept =>
      "no element " ++ toString index ++ " in " ++ within.render ++ " '" ++ name ++
        "' at line " ++ toString line ++ ", keeping line " ++ toString kept
  | startLineUsed start reason =>
      "could not resolve line, using start line " ++ toString start ++ ": " ++ reason
  | recordResolved rule file path line =>
      rule ++ " " ++ file ++ " '" ++ path ++ "' resolved to line " ++ toString line
  | recordFailed rule file path reason =>
      rule ++ " " ++ file ++ " '" ++ path ++ "': " ++ reason
  | pathFailed file path reason start =>
      file ++ " '" ++ path ++ "': " ++ reason ++ ", using start line " ++ toString start
  | configIgnored path => "ignoring invalid config " ++ path

end Note
end FieldLine
