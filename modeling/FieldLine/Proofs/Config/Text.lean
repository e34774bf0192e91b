import FieldLine.Proofs.Config.Settings

/-!
# Reading back written settings

Settings that can be written as a document are the ones that the document is read as.
-/

namespace FieldLine
namespace Config

open Toml (Line Statement Value)

theorem toList_renderLine (key value : String) :
    (renderLine key value).toList = Toml.keyLine key value.toList := by
  simp [renderLine, Toml.keyLine]

theorem denotes_startLine {n : Nat} (fits : n ≤ maxLine) :
    Toml.Denotes (toString n).toList (.number (.integer n)) := by
  rw [Nat.toString_eq_ofList_toDigits, String.toList_ofList]
  exact Toml.denotes_number fits

/-- The line of a setting. -/
def line (config : Config) (fits : config.startLine ≤ maxLine) : Setting → Line
  | .startLine => .assign (Setting.isBare_key .startLine) (denotes_startLine fits)
  | .normalizeLineEndings =>
      .assign (Setting.isBare_key .normalizeLineEndings)
        (Toml.denotes_switch config.normalizeLineEndings)
  | .outputFormat =>
      .assign (Setting.isBare_key .outputFormat) (Toml.denotes_text config.outputFormat)
  | .fallback => .assign (Setting.isBare_key .fallback) (Toml.denotes_switch config.fallback)

theorem toText?_eq_document {config : Config} (fits : config.startLine ≤ maxLine) :
    config.toText? =
      some (.ofList (Toml.document (Setting.all.map (config.line fits)) [])) := by
  rw [toText?, if_pos fits]
  refine congrArg some (String.toList_injective ?_)
  simp only [String.toList_append, String.toList_ofList, toList_renderLine, List.append_assoc]
  simp [Toml.document, Setting.all, line, Line.assign, Setting.key, renderSwitch]

/-- Settings are read from the document that they are written as. -/
theorem ofText?_toText? {config : Config} {text : String} (written : config.toText? = some text) :
    ofText? text = some config := by
  have fits : config.startLine ≤ maxLine := by
    by_contra tooLarge
    rw [toText?, if_neg tooLarge] at written
    cases written
  rw [toText?_eq_document fits] at written
  cases written
  let pairs := Setting.all.map fun setting => (setting.key, setting.value config)
  have distinct : (pairs.map Prod.fst).Nodup := by
    rw [List.map_map]
    exact Setting.nodup_keys
  exact ofText?_lines rfl distinct fun setting => .inl (List.mem_map_of_mem setting.mem_all)

end Config
end FieldLine
