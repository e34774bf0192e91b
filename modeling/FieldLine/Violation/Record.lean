import FieldLine.Json.Value

/-!
Violation records: what a policy engine reports, and the same with the line that was found.
-/

namespace FieldLine

/-- A violation of a rule by a field of a file.  `line` is where the resource starts that holds
the field. -/
structure Violation where
  rule : String
  file : String
  path : String
  line : Option Nat := none
  severity : String := ""
  category : String := ""
deriving DecidableEq, Repr

/-- A violation with the line of its field and, if it could not be looked for, the reason. -/
structure ResolvedViolation where
  violation : Violation
  line : Option Nat
  error : Option String
deriving DecidableEq, Repr

/-- The members of a record.  A missing line is left out. -/
def Violation.members (violation : Violation) : List (String × Json.Value) :=
  [("rule_id", .string violation.rule), ("file", .string violation.file),
    ("path", .string violation.path)] ++
  (violation.line.map fun line => ("line", .natural line)).toList ++
  [("severity", .string violation.severity), ("category", .string violation.category)]

def Violation.toJson (violation : Violation) : Json.Value :=
  .object violation.members

/-- A resolved record as JSON.  A missing resolved line is written, a missing reason is not. -/
def ResolvedViolation.toJson (resolved : ResolvedViolation) : Json.Value :=
  .object <| resolved.violation.members ++
    [("resolved_line", (resolved.line.map .natural).getD .null)] ++
    (resolved.error.map fun error => ("error", .string error)).toList

def Violation.renderAll (violations : List Violation) : String :=
  (Json.Value.list (violations.map toJson)).compact

/-- Resolved records as JSON with one member a line. -/
def ResolvedViolation.renderJson (resolved : List ResolvedViolation) : String :=
  (Json.Value.list (resolved.map toJson)).pretty

/-- One line of a report: the place, the rule, and whatever else is known. -/
def ResolvedViolation.renderLine (resolved : ResolvedViolation) : String :=
  let violation := resolved.violation
  let line := (resolved.line.map toString).getD "?"
  let known := [violation.severity, violation.category].filter (· ≠ "")
  let reason := (resolved.error.map fun error => "(" ++ error ++ ")").toList
  String.intercalate " " ([violation.file ++ ":" ++ line, violation.rule] ++ known ++ reason)

/-- A report of resolved records, one a line. -/
def ResolvedViolation.renderText (resolved : List ResolvedViolation) : String :=
  String.join (resolved.map fun item => item.renderLine ++ "\n")

end FieldLine
