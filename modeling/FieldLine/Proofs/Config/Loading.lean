import FieldLine.Config.Storage
import FieldLine.Proofs.Config.Settings
import FieldLine.Proofs.Text.Encoding

/-!
# Loading settings

A file is loaded as a whole, with the settings that it gives and the usual ones for the others, or
ignored as a whole, with one note.
-/

namespace FieldLine
namespace Config

open Toml (IsBare Line Statement Value document keyLine statements?)

theorem ofFile_encode (path text : String) :
    ofFile path (.ok (Utf8.encode text)) =
      ((ofText? text).map (·, [])).getD ({}, [.configIgnored path]) := by
  rw [ofFile]
  simp only [Utf8.decode_encode, String.ofList_toList]
  rcases ofText? text with _ | config <;> rfl

end Config
end FieldLine
