/-!
Failures that have failures behind them.
-/

namespace FieldLine

/-- The reasons of a failure, the outermost first. -/
abbrev Reasons := List String

/-- All reasons in one line. -/
def Reasons.render (reasons : Reasons) : String :=
  String.intercalate ": " reasons

end FieldLine
