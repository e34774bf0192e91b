import FieldLine.Proofs.Outline.Scanning
import FieldLine.Proofs.Yaml.Goals

/-!
# Events of printed outlines

The tokens of a node meet the first goal, which awaits a node, and leave the goals below it.
What they emit are the events of the node, with the lines on which it was printed.
-/

namespace FieldLine

open Yaml

namespace Outline

mutual

/-- A node as it stands in a text from a line on. -/
def source (line : Nat) : Outline → SourceNode
  | scalar word => .scalar line word.text .plain
  | sequence items => .sequence line (line + itemRows items) (itemSources line items)
  | mapping entries => .mapping line (line + entryRows entries) (entrySources line entries)

def itemSources (line : Nat) : List Outline → List SourceNode
  | [] => []
  | item :: later => item.source line :: itemSources (line + item.rows) later

def entrySources (line : Nat) : List (Label × Outline) → List (SourceNode × SourceNode)
  | [] => []
  | (label, value) :: later =>
      (.scalar line label.text .plain, value.source (line + value.drop)) ::
        entrySources (line + (value.drop + value.rows)) later

end

open Reader

/-- The tokens of a node are read as its events wherever a node is awaited. -/
def IsParsed (node : Outline) : Prop :=
  ∀ (mark : Mark) (outer : Nat) {goal : Goal} {later next : List Goal} (reader : Reader)
    (rest : List Token) (fault : Option Fault),
    Awaits true goal later next → reader.goals = goal :: later →
    run.go reader (node.tokens mark outer ++ rest) fault =
      run.go (reader.after next (node.source mark.line).events) rest fault

variable {later : List Goal} {reader : Reader}

theorem go_itemTokens {items : List Outline} (areParsed : ∀ item ∈ items, item.IsParsed)
    (mark : Mark) (outer : Nat) (goals : reader.goals = .blockItem :: later) (rest : List Token)
    (fault : Option Fault) :
    run.go reader (itemTokens mark outer items ++ rest) fault =
      run.go
        (reader.after (.blockItem :: later)
          (SourceNode.itemEvents (itemSources mark.line items))) rest fault := by
  induction items generalizing mark reader with
  | nil =>
      rw [itemTokens, itemSources, SourceNode.itemEvents, after_nil goals]
      rfl
  | cons item siblings inductionHypothesis =>
      rw [List.forall_mem_cons] at areParsed
      have dash :
          reader.meet ⟨mark.right 2, .blockEntry⟩ (.blockItem :: later) =
            .ok (reader.after (.blockItemNode :: later) []) :=
        rfl
      rw [itemTokens, List.cons_append, List.append_assoc, go_cons goals dash,
        areParsed.1 _ _ _ _ _ awaits_blockItemNode rfl,
        inductionHypothesis areParsed.2 _ rfl]
      simp only [after_after, List.nil_append]
      rfl

theorem go_entryTokens {entries : List (Label × Outline)}
    (areParsed : ∀ entry ∈ entries, entry.2.IsParsed) (mark : Mark) (outer : Nat)
    (goals : reader.goals = .blockKey :: later) (rest : List Token) (fault : Option Fault) :
    run.go reader (entryTokens mark outer entries ++ rest) fault =
      run.go
        (reader.after (.blockKey :: later)
          (SourceNode.entryEvents (entrySources mark.line entries))) rest fault := by
  induction entries generalizing mark reader with
  | nil =>
      rw [entryTokens, entrySources, SourceNode.entryEvents, after_nil goals]
      rfl
  | cons entry siblings inductionHypothesis =>
      obtain ⟨label, value⟩ := entry
      rw [List.forall_mem_cons] at areParsed
      have key :
          reader.meet ⟨mark, .key⟩ (.blockKey :: later) =
            .ok (reader.after (.blockKeyNode :: later) []) :=
        rfl
      have name (reader : Reader) :
          reader.meet ⟨mark, .scalar label.text .plain⟩ (.blockKeyNode :: later) =
            .ok (reader.after (.blockValue :: later)
              [⟨mark.line, .scalar label.text .plain⟩]) :=
        rfl
      have colon (reader : Reader) (mark : Mark) :
          reader.meet ⟨mark, .value⟩ (.blockValue :: later) =
            .ok (reader.after (.blockValueNode mark :: later) []) :=
        rfl
      rw [entryTokens, List.cons_append, List.cons_append, List.cons_append, List.append_assoc,
        go_cons goals key, go_cons rfl (name _), go_cons rfl (colon _ _),
        areParsed.1 _ _ _ _ _ (awaits_blockValueNode _) rfl,
        inductionHypothesis areParsed.2 _ rfl, valueMark_line]
      simp only [after_after, List.nil_append]
      rfl

theorem isParsed_scalar (word : Word) : (scalar word).IsParsed := by
  intro mark outer goal later next reader rest fault awaits goals
  rw [tokens, List.singleton_append, go_scalar awaits goals]
  rfl

/-! An empty collection is a flow collection. -/

theorem isParsed_noItem : (sequence []).IsParsed := by
  intro mark outer goal later next reader rest fault awaits goals
  exact go_empty .square awaits goals mark (mark.right 1)

theorem isParsed_noEntry : (mapping []).IsParsed := by
  intro mark outer goal later next reader rest fault awaits goals
  exact go_empty .curly awaits goals mark (mark.right 1)

/-! Any other collection is a block collection, which ends at a token of its own. -/

theorem isParsed_items {items : List Outline} (someItem : items ≠ [])
    (areParsed : ∀ item ∈ items, item.IsParsed) : (sequence items).IsParsed := by
  rintro mark outer goal later next reader rest fault ⟨indentless, awaits⟩ goals
  have opens :
      reader.node true indentless next ⟨mark, .blockSequenceStart⟩ =
        .ok (reader.after (.blockItem :: next) [⟨mark.line, .sequenceStart⟩]) :=
    rfl
  have ends (reader : Reader) (stop : Mark) :
      reader.meet ⟨stop, .blockEnd⟩ (.blockItem :: next) =
        .ok (reader.after next [⟨stop.line, .sequenceEnd⟩]) :=
    rfl
  rw [tokens, if_neg (by simpa using someItem), List.cons_append, List.append_assoc,
    go_cons goals ((awaits _ _ .blockSequence).trans opens),
    go_itemTokens areParsed mark outer rfl, List.singleton_append, go_cons rfl (ends _ _)]
  simp only [after_after]
  rfl

theorem colonMark_line (mark : Mark) (entries : List (Label × Outline)) :
    (colonMark mark entries).line = mark.line := by
  cases entries <;> rfl

theorem isParsed_entries {entries : List (Label × Outline)} (someEntry : entries ≠ [])
    (areParsed : ∀ entry ∈ entries, entry.2.IsParsed) : (mapping entries).IsParsed := by
  rintro mark outer goal later next reader rest fault ⟨indentless, awaits⟩ goals
  have opens :
      reader.node true indentless next ⟨colonMark mark entries, .blockMappingStart⟩ =
        .ok (reader.after (.blockKey :: next) [⟨mark.line, .mappingStart⟩]) := by
    rw [← colonMark_line mark entries]
    rfl
  have ends (reader : Reader) (stop : Mark) :
      reader.meet ⟨stop, .blockEnd⟩ (.blockKey :: next) =
        .ok (reader.after next [⟨stop.line, .mappingEnd⟩]) :=
    rfl
  rw [tokens, if_neg (by simpa using someEntry), List.cons_append, List.append_assoc,
    go_cons goals ((awaits _ _ .blockMapping).trans opens),
    go_entryTokens areParsed mark outer rfl, List.singleton_append, go_cons rfl (ends _ _)]
  simp only [after_after]
  rfl

theorem isParsed (node : Outline) : node.IsParsed := by
  induction node with
  | scalar word => exact isParsed_scalar word
  | sequence items inductionHypothesis =>
      by_cases noItem : items = []
      · subst noItem
        exact isParsed_noItem
      · exact isParsed_items noItem inductionHypothesis
  | mapping entries inductionHypothesis =>
      by_cases noEntry : entries = []
      · subst noEntry
        exact isParsed_noEntry
      · exact isParsed_entries noEntry inductionHypothesis

theorem events_mapping {entries : List (Label × Outline)} (someEntry : entries ≠ []) :
    Yaml.events ((mapping entries).text 0 ++ ['\n']) =
      .ok (⟨1, .documentStart⟩ :: (((mapping entries).source 1).events ++
        [⟨1 + entryRows entries, .documentEnd⟩])) := by
  let stop : Mark := ⟨1 + entryRows entries, 0⟩
  have isBlock : entries.isEmpty = false := by simpa using someEntry
  have first :
      (mapping entries).tokens ⟨1, 0⟩ 0 =
        ⟨colonMark ⟨1, 0⟩ entries, .blockMappingStart⟩ ::
          (entryTokens ⟨1, 0⟩ 0 entries ++ [⟨stop, .blockEnd⟩]) := by
    rw [tokens, isBlock, if_neg Bool.false_ne_true]
  rw [Yaml.events, ofText_mapping someEntry,
    run_document first .blockMapping
      (fun reader rest fault =>
        isParsed (mapping entries) ⟨1, 0⟩ 0 reader rest fault awaits_documentContent) stop,
    colonMark_line]

/-! ## Trees -/

mutual

/-- The tree of a node in a text from a line on. -/
def tree (line : Nat) : Outline → Node
  | scalar word => .scalar line word.text
  | sequence items => .sequence line (itemTrees line items)
  | mapping entries => .mapping line (entryTrees line entries)

def itemTrees (line : Nat) : List Outline → List Node
  | [] => []
  | item :: later => item.tree line :: itemTrees (line + item.rows) later

def entryTrees (line : Nat) : List (Label × Outline) → List (Node × Node)
  | [] => []
  | (label, value) :: later =>
      (.scalar line label.text, value.tree (line + value.drop)) ::
        entryTrees (line + (value.drop + value.rows)) later

end

theorem tree_line (node : Outline) (line : Nat) : (node.tree line).line = line := by
  cases node <;> rfl

theorem settle_word (word : Word) (line : Nat) (instead : Option Nat) :
    (SourceNode.scalar line word.text .plain).settle instead = .scalar line word.text := by
  simp [SourceNode.settle, Word.text, word.someChar]

theorem settleItems_itemSources {items : List Outline}
    (each : ∀ item ∈ items, ∀ (line : Nat) (instead : Option Nat),
      (item.source line).settle instead = item.tree line)
    (line before : Nat) :
    SourceNode.settleItems before (itemSources line items) = itemTrees line items := by
  induction items generalizing line before with
  | nil => rfl
  | cons item later inductionHypothesis =>
      rw [List.forall_mem_cons] at each
      rw [itemSources, SourceNode.settleItems, itemTrees, each.1, inductionHypothesis each.2]

theorem settleEntries_entrySources {entries : List (Label × Outline)}
    (each : ∀ entry ∈ entries, ∀ (line : Nat) (instead : Option Nat),
      (entry.2.source line).settle instead = entry.2.tree line)
    (line : Nat) :
    SourceNode.settleEntries (entrySources line entries) = entryTrees line entries := by
  induction entries generalizing line with
  | nil => rfl
  | cons entry later inductionHypothesis =>
      obtain ⟨label, value⟩ := entry
      rw [List.forall_mem_cons] at each
      rw [entrySources, SourceNode.settleEntries, entryTrees, each.1, inductionHypothesis each.2,
        settle_word]

/-- No node of an outline is missing, so every node keeps its own line. -/
theorem settle_source (node : Outline) (line : Nat) (instead : Option Nat) :
    (node.source line).settle instead = node.tree line := by
  induction node generalizing line instead with
  | scalar word => exact settle_word word line instead
  | sequence items inductionHypothesis =>
      rw [source, SourceNode.settle, settleItems_itemSources inductionHypothesis, tree]
  | mapping entries inductionHypothesis =>
      rw [source, SourceNode.settle, settleEntries_entrySources inductionHypothesis, tree]

/-- The events of a document are assembled to its tree. -/
theorem ofEvents_source (node : Outline) (line stop : Nat) :
    Assembly.ofEvents
        (⟨line, .documentStart⟩ :: ((node.source line).events ++ [⟨stop, .documentEnd⟩])) =
      .document line (some (node.tree line)) := by
  rw [Assembly.ofEvents_document, settle_source, tree_line]

end Outline
end FieldLine
