import FieldLine.Config
import FieldLine.Toml.Document

/-!
The settings as a TOML document.  Settings that are missing keep their usual values and unknown
keys do not matter, but a document is taken as a whole or not at all.
-/

namespace FieldLine
namespace Config

/-! ## Reading -/

def lineOf? : Toml.Item → Option Nat
  | .value (.number (.integer value)) => if 0 ≤ value then some value.toNat else none
  | _ => none

def switchOf? : Toml.Item → Option Bool
  | .value (.boolean value) => some value
  | _ => none

def textOf? : Toml.Item → Option String
  | .value (.text text) => some text
  | _ => none

/-- The setting under a key, or its usual value if the key is missing. -/
def setting {α : Type} (table : Toml.Table) (key : String) (usual : α)
    (of? : Toml.Item → Option α) : Option α :=
  match table.item? key with
  | none => some usual
  | some item => of? item

def ofTable? (table : Toml.Table) : Option Config := do
  let usual : Config := {}
  let startLine ← setting table "default_start_line" usual.startLine lineOf?
  let normalize ← setting table "normalize_line_endings" usual.normalizeLineEndings switchOf?
  let format ← setting table "output_format" usual.outputFormat textOf?
  let fallback ← setting table "fallback_on_error" usual.fallback switchOf?
  return ⟨startLine, normalize, format, fallback⟩

def ofText? (text : String) : Option Config :=
  Toml.parse text >>= ofTable?

/-! ## Writing -/

def renderSwitch (value : Bool) : String :=
  if value then "true" else "false"

def renderLine (key value : String) : String :=
  key ++ " = " ++ value ++ "\n"

/-- The largest integer of a document. -/
def maxLine : Nat := 9223372036854775807

/-- The settings as a document, unless the line number is too large for one. -/
def toText? (config : Config) : Option String :=
  if config.startLine ≤ maxLine then
    some <|
      renderLine "default_start_line" (toString config.startLine) ++
      renderLine "normalize_line_endings" (renderSwitch config.normalizeLineEndings) ++
      renderLine "output_format" (Toml.Text.render config.outputFormat) ++
      renderLine "fallback_on_error" (renderSwitch config.fallback)
  else
    none

end Config
end FieldLine
