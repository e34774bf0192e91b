import FieldLine.Config.Text
import FieldLine.Proofs.Toml.Lines

/-!
# Settings of a document

A setting is taken from a document if the document gives one value of the right kind to its key, and
is the usual one if the document does not mention its key.  Anything else makes the whole document
no settings.
-/

namespace FieldLine
namespace Config

open Toml (Draft Item Line Mention Statement Table Value mentionsOf statements?)

/-! ## Settings -/

inductive Setting where
  | startLine
  | normalizeLineEndings
  | outputFormat
  | fallback
deriving DecidableEq

namespace Setting

def key : Setting → String
  | startLine => "default_start_line"
  | normalizeLineEndings => "normalize_line_endings"
  | outputFormat => "output_format"
  | fallback => "fallback_on_error"

def all : List Setting :=
  [startLine, normalizeLineEndings, outputFormat, fallback]

theorem mem_all (setting : Setting) : setting ∈ all := by
  cases setting <;> decide

theorem nodup_keys : (all.map key).Nodup := by
  decide

theorem isBare_key (setting : Setting) : Toml.IsBare setting.key := by
  cases setting <;> exact ⟨by decide, List.all_eq_true.mp (by decide)⟩

/-- The value of a setting as a document gives it. -/
def value (config : Config) : Setting → Value
  | startLine => .number (.integer config.startLine)
  | normalizeLineEndings => .boolean config.normalizeLineEndings
  | outputFormat => .text config.outputFormat
  | fallback => .boolean config.fallback

def IsUsual (setting : Setting) (config : Config) : Prop :=
  setting.value config = setting.value {}

/-- What a table says about a setting. -/
def IsIn (setting : Setting) (config : Config) (table : Table) : Prop :=
  (table.item? setting.key = none ∧ setting.IsUsual config) ∨
    table.item? setting.key = some (.value (setting.value config))

/-- What the statements of a document say about a setting. -/
def IsStated (setting : Setting) (config : Config) (statements : List Statement) : Prop :=
  (mentionsOf setting.key statements = [] ∧ setting.IsUsual config) ∨
    mentionsOf setting.key statements = [⟨[setting.key], some (setting.value config)⟩]

end Setting

theorem lineOf?_eq_some_iff {item : Item} {line : Nat} :
    lineOf? item = some line ↔ item = .value (.number (.integer line)) := by
  constructor
  · intro reads
    unfold lineOf? at reads
    split at reads
    · split at reads
      · rename_i natural
        rw [← Option.some.inj reads, Int.toNat_of_nonneg natural]
      · cases reads
    · cases reads
  · rintro rfl
    simp [lineOf?]

theorem switchOf?_eq_some_iff {item : Item} {value : Bool} :
    switchOf? item = some value ↔ item = .value (.boolean value) := by
  constructor
  · intro reads
    unfold switchOf? at reads
    split at reads
    · rw [Option.some.inj reads]
    · cases reads
  · rintro rfl
    rfl

theorem textOf?_eq_some_iff {item : Item} {text : String} :
    textOf? item = some text ↔ item = .value (.text text) := by
  constructor
  · intro reads
    unfold textOf? at reads
    split at reads
    · rw [Option.some.inj reads]
    · cases reads
  · rintro rfl
    rfl

theorem setting_eq_some_iff {α : Type} {of? : Item → Option α} {toValue : α → Value}
    (reads : ∀ {item value}, of? item = some value ↔ item = .value (toValue value))
    {table : Table} {key : String} {usual value : α} :
    setting table key usual of? = some value ↔
      (table.item? key = none ∧ toValue value = toValue usual) ∨
        table.item? key = some (.value (toValue value)) := by
  have same : toValue value = toValue usual ↔ usual = value := by
    constructor
    · intro sameValue
      have readsUsual : of? (.value (toValue usual)) = some usual := reads.mpr rfl
      have readsValue : of? (.value (toValue usual)) = some value :=
        reads.mpr (congrArg Item.value sameValue.symm)
      exact Option.some.inj (readsUsual.symm.trans readsValue)
    · rintro rfl
      rfl
  rw [setting, same]
  rcases table.item? key with _ | item
  · simp
  · simp [reads]

/-- A table is read as some settings if it says this of each of them. -/
theorem ofTable?_eq_some_iff {table : Table} {config : Config} :
    ofTable? table = some config ↔ ∀ setting : Setting, setting.IsIn config table := by
  constructor
  · intro reads
    obtain ⟨startLine, readsLine, reads⟩ := Option.bind_eq_some_iff.mp reads
    obtain ⟨normalize, readsNormalize, reads⟩ := Option.bind_eq_some_iff.mp reads
    obtain ⟨format, readsFormat, reads⟩ := Option.bind_eq_some_iff.mp reads
    obtain ⟨fallback, readsFallback, reads⟩ := Option.bind_eq_some_iff.mp reads
    cases reads
    intro setting
    cases setting with
    | startLine => exact (setting_eq_some_iff lineOf?_eq_some_iff).mp readsLine
    | normalizeLineEndings => exact (setting_eq_some_iff switchOf?_eq_some_iff).mp readsNormalize
    | outputFormat => exact (setting_eq_some_iff textOf?_eq_some_iff).mp readsFormat
    | fallback => exact (setting_eq_some_iff switchOf?_eq_some_iff).mp readsFallback
  · intro isIn
    have readsLine := (setting_eq_some_iff lineOf?_eq_some_iff).mpr (isIn .startLine)
    have readsNormalize :=
      (setting_eq_some_iff switchOf?_eq_some_iff).mpr (isIn .normalizeLineEndings)
    have readsFormat := (setting_eq_some_iff textOf?_eq_some_iff).mpr (isIn .outputFormat)
    have readsFallback := (setting_eq_some_iff switchOf?_eq_some_iff).mpr (isIn .fallback)
    rw [ofTable?]
    simp only [Setting.key] at readsLine readsNormalize readsFormat readsFallback
    simp only [readsLine, readsNormalize, readsFormat, readsFallback, bind, Option.bind]
    rfl

/-! ## Documents -/

section

variable {text : String} {config : Config}

/-- What is read from a document leaves each setting as its mentions state it. -/
theorem isIn_iff_isStated {statements : List Statement} {last : Draft}
    (runs : statements.foldlM Draft.step {} = some last) (setting : Setting) :
    setting.IsIn config last.root ↔ setting.IsStated config statements := by
  rcases Toml.item?_of_run runs setting.key with ⟨noMention, isMissing⟩ |
    ⟨value, isMention, isValue⟩ | ⟨someMention, noValue, item, isItem, isTable⟩
  · rw [Setting.IsIn, Setting.IsStated, noMention, isMissing]
    simp
  · rw [Setting.IsIn, Setting.IsStated, isMention, isValue]
    simp
  · constructor
    · rintro (⟨isMissing, -⟩ | isValue)
      · rw [isItem] at isMissing
        cases isMissing
      · rw [isItem] at isValue
        exact absurd (Option.some.inj isValue) (isTable _)
    · rintro (⟨noMention, -⟩ | isMention)
      · exact absurd noMention someMention
      · have given := noValue _ (isMention ▸ List.mem_singleton_self _)
        cases given

/-- A text is read as some settings if it is a document that says this of each of them. -/
theorem ofText?_eq_some_iff :
    ofText? text = some config ↔
      Toml.parse text ≠ none ∧ ∃ statements, statements? text = some statements ∧
        ∀ setting : Setting, setting.IsStated config statements := by
  rw [ofText?, Toml.parse_eq]
  rcases found : statements? text with _ | statements
  · simp
  rcases runs : statements.foldlM Draft.step {} with _ | last
  · simp [runs]
  · simp [runs, ofTable?_eq_some_iff, isIn_iff_isStated runs]

/-- Lines with different keys are a document. -/
theorem parse_lines {lines : List Line} {pairs : List (String × Value)}
    (areLines : lines.map Line.statement = pairs.map Statement.assign)
    (distinct : (pairs.map Prod.fst).Nodup) :
    Toml.parse (.ofList (Toml.document lines [])) ≠ none := by
  obtain ⟨last, runs⟩ := Toml.foldlM_assign distinct ⟨.explicit, []⟩ fun _ _ => rfl
  rw [Toml.parse_eq, Toml.statements?_document, areLines]
  change ((pairs.map Statement.assign).foldlM Draft.step (.ofTable ⟨.explicit, []⟩)).map _ ≠ none
  rw [runs]
  exact nofun

/-- The values of the settings are taken from the lines that have their keys, wherever they stand
among the others. -/
theorem ofText?_lines {lines : List Line} {pairs : List (String × Value)}
    (areLines : lines.map Line.statement = pairs.map Statement.assign)
    (distinct : (pairs.map Prod.fst).Nodup)
    (states : ∀ setting : Setting,
      (setting.key, setting.value config) ∈ pairs ∨
        setting.key ∉ pairs.map Prod.fst ∧ setting.IsUsual config) :
    ofText? (.ofList (Toml.document lines [])) = some config := by
  rw [ofText?_eq_some_iff]
  refine ⟨parse_lines areLines distinct, _, Toml.statements?_document lines, ?_⟩
  intro setting
  rw [areLines]
  rcases states setting with member | ⟨absent, isUsual⟩
  · exact .inr (Toml.mentionsOf_assign_of_mem distinct member)
  · exact .inl ⟨Toml.mentionsOf_assign_eq_nil absent, isUsual⟩

end

end Config
end FieldLine
