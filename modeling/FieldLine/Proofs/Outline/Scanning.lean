import FieldLine.Proofs.Outline.Layout
import FieldLine.Proofs.Yaml.BlockRounds

/-!
# Tokens of printed outlines

The tokens of a printed node, and the proof that they are read from its text.  The proof follows
the node: what is read of a child starts from the state that the dash or the key before it has
left, inside any blocks, and ends in the state at the token after the child.
-/

namespace FieldLine
namespace Outline

open Yaml Yaml.Lexer

/-! ## Tokens -/

def valueMark (mark : Mark) (label : Label) (value : Outline) : Mark :=
  if value.isInline then mark.right (label.chars.length + 2)
  else ⟨mark.line + 1, mark.column + 2⟩

/-- Where the first colon of a mapping stands. -/
def colonMark (mark : Mark) : List (Label × Outline) → Mark
  | [] => mark
  | (label, _) :: _ => mark.right label.chars.length

/-- The column of the token after a child, which is a sibling or stands outside. -/
def columnAfter {α : Type} (column outer : Nat) (later : List α) : Nat :=
  if later.isEmpty then outer else column

mutual

/-- The tokens of a node at a mark, when the next token is on the column `outer`. -/
def tokens (mark : Mark) (outer : Nat) : Outline → List Token
  | scalar word => [⟨mark, .scalar word.text .plain⟩]
  | sequence items =>
      if items.isEmpty then
        [⟨mark, .flowSequenceStart⟩, ⟨mark.right 1, .flowSequenceEnd⟩]
      else
        ⟨mark, .blockSequenceStart⟩ :: (itemTokens mark outer items ++
          [⟨⟨mark.line + itemRows items, outer⟩, .blockEnd⟩])
  | mapping entries =>
      if entries.isEmpty then
        [⟨mark, .flowMappingStart⟩, ⟨mark.right 1, .flowMappingEnd⟩]
      else
        ⟨colonMark mark entries, .blockMappingStart⟩ :: (entryTokens mark outer entries ++
          [⟨⟨mark.line + entryRows entries, outer⟩, .blockEnd⟩])

def itemTokens (mark : Mark) (outer : Nat) : List Outline → List Token
  | [] => []
  | item :: later =>
      ⟨mark.right 2, .blockEntry⟩ ::
        (item.tokens (mark.right 2) (columnAfter mark.column outer later) ++
          itemTokens ⟨mark.line + item.rows, mark.column⟩ outer later)

def entryTokens (mark : Mark) (outer : Nat) : List (Label × Outline) → List Token
  | [] => []
  | (label, value) :: later =>
      ⟨mark, .key⟩ :: ⟨mark, .scalar label.text .plain⟩ ::
        ⟨mark.right label.chars.length, .value⟩ ::
          (value.tokens (valueMark mark label value) (columnAfter mark.column outer later) ++
            entryTokens ⟨mark.line + (value.drop + value.rows), mark.column⟩ outer later)

end

/-! ## First characters -/

theorem beginsToken_word (word : Word) (rest : List Char) : BeginsToken (word.chars ++ rest) := by
  obtain ⟨chars, someChar, alphanumeric⟩ := word
  cases chars with
  | nil => exact absurd rfl someChar
  | cons c later => exact beginsToken_of_isAlphanum (alphanumeric c List.mem_cons_self) _

theorem beginsToken_itemText {items : List Outline} (someItem : items ≠ []) (column : Nat)
    (rest : List Char) : BeginsToken (itemText column items ++ rest) := by
  match items with
  | [] => exact absurd rfl someItem
  | [item] =>
      rw [itemText_singleton]
      exact ⟨rfl, by decide⟩
  | item :: next :: later =>
      rw [itemText_cons_cons]
      exact ⟨rfl, by decide⟩

theorem beginsToken_entryText {entries : List (Label × Outline)} (someEntry : entries ≠ [])
    (column : Nat) (rest : List Char) : BeginsToken (entryText column entries ++ rest) := by
  match entries with
  | [] => exact absurd rfl someEntry
  | [(label, value)] =>
      rw [entryText_singleton, List.append_assoc]
      exact beginsToken_word label.toWord _
  | (label, value) :: next :: later =>
      rw [entryText_cons_cons, List.append_assoc]
      exact beginsToken_word label.toWord _

theorem beginsToken_text (node : Outline) (column : Nat) (rest : List Char) :
    BeginsToken (node.text column ++ rest) := by
  cases node with
  | scalar word =>
      rw [text_scalar]
      exact beginsToken_word word rest
  | sequence items =>
      by_cases noItem : items = []
      · subst noItem
        exact ⟨rfl, by decide⟩
      · rw [text_sequence noItem]
        exact beginsToken_itemText noItem column rest
  | mapping entries =>
      by_cases noEntry : entries = []
      · subst noEntry
        exact ⟨rfl, by decide⟩
      · rw [text_mapping noEntry]
        exact beginsToken_entryText noEntry column rest

/-! ## Keys and their values -/

section Values

variable {mark : Mark} {label : Label} {value : Outline}

theorem valueMark_line : (valueMark mark label value).line = mark.line + value.drop := by
  unfold valueMark drop
  split <;> rfl

theorem valueMark_column : mark.column + 2 ≤ (valueMark mark label value).column := by
  unfold valueMark
  split
  · change mark.column + 2 ≤ mark.column + (label.chars.length + 2)
    omega
  · exact Nat.le_refl _

theorem text_valueMark :
    value.text (mark.column + 2) = value.text (valueMark mark label value).column := by
  unfold valueMark
  split
  · exact text_eq_of_isInline ‹_› _ _
  · rfl

theorem separates_gap (next : List Char) :
    Separates (mark.right (label.chars.length + 1)) next ((value.gap mark.column).chars ++ next)
      (valueMark mark label value) (!value.isInline) := by
  unfold gap valueMark
  cases value.isInline with
  | true => exact .space
  | false =>
      have below :
          (Mark.mk (mark.line + 1) (mark.column + 2)).line =
            (mark.right (label.chars.length + 1)).line + 1 :=
        rfl
      exact .line below

end Values

/-! ## Reading the tokens -/

/-- A block that is deeper than the next token ends before it. -/
theorem closed_block {stop : Mark} {next : List Char} {column : Nat} {levels : List Level}
    {tokens : List Token} {keyAllowed : Bool} {remnant : Remnant} (deeper : stop.column < column) :
    closed stop next (⟨column, true⟩ :: levels) tokens keyAllowed remnant =
      closed stop next levels (⟨stop, .blockEnd⟩ :: tokens) keyAllowed remnant := by
  rw [closed, closed, closeLevels_block deeper, List.append_assoc]
  rfl

/-- A node is read from its text as its tokens, wherever a node may start.  A collection that does
not stand on one line has to start where a key may. -/
def IsRead (node : Outline) : Prop :=
  ∀ (mark : Mark) (outer : Nat) (next : List Char) (earlier : List Token) (remnant : Remnant)
    {parent : Nat} {around levels : List Level} {keyAllowed : Bool},
    Beneath mark.column parent around levels → outer ≤ parent → BeginsToken next →
    (node.isInline = false → keyAllowed = true) →
    ∃ after : Remnant,
      (inBlock mark (node.text mark.column ++ '\n' :: (List.replicate outer ' ' ++ next)) levels
          earlier none keyAllowed remnant).Leads
        (closed ⟨mark.line + node.rows, outer⟩ next (⟨parent, true⟩ :: around)
          ((node.tokens mark outer).reverse ++ earlier) true after)

section Blocks

variable {mark : Mark} {outer : Nat} {around levels : List Level} {opening : Bool}

theorem leads_item {item : Outline} (isRead : item.IsRead)
    (opens : Opens mark.column levels around opening) (shallow : outer ≤ mark.column)
    {next : List Char} (begins : BeginsToken next) (earlier : List Token) (remnant : Remnant) :
    ∃ after : Remnant,
      (inBlock mark
          ('-' :: ' ' :: (item.text (mark.column + 2) ++
            '\n' :: (List.replicate outer ' ' ++ next)))
          levels earlier none true remnant).Leads
        (closed ⟨mark.line + item.rows, outer⟩ next (⟨mark.column, true⟩ :: around)
          ((item.tokens (mark.right 2) outer).reverse ++ ⟨mark.right 2, .blockEntry⟩ ::
            (opened opening mark .blockSequenceStart ++ earlier)) true after) := by
  have someChar :
      item.text (mark.column + 2) ++ '\n' :: (List.replicate outer ' ' ++ next) ≠ [] := by
    simp
  obtain ⟨deeper, entered, beneath, toItem⟩ :=
    leads_hyphen opens (beginsToken_text item _ _) someChar earlier remnant
  obtain ⟨after, toNext⟩ :=
    isRead (mark.right 2) outer next
      (⟨mark.right 2, .blockEntry⟩ :: (opened opening mark .blockSequenceStart ++ earlier))
      entered beneath shallow begins fun _ => rfl
  exact ⟨after, toItem.trans toNext⟩

theorem leads_entry {label : Label} {value : Outline} (isRead : value.IsRead)
    (opens : Opens mark.column levels around opening) (shallow : outer ≤ mark.column)
    {next : List Char} (begins : BeginsToken next) (earlier : List Token) (remnant : Remnant) :
    ∃ after : Remnant,
      (inBlock mark
          (label.chars ++ ':' :: ((value.gap mark.column).chars ++
            (value.text (mark.column + 2) ++ '\n' :: (List.replicate outer ' ' ++ next))))
          levels earlier none true remnant).Leads
        (closed ⟨mark.line + (value.drop + value.rows), outer⟩ next
          (⟨mark.column, true⟩ :: around)
          ((value.tokens (valueMark mark label value) outer).reverse ++
            ⟨mark.right label.chars.length, .value⟩ :: ⟨mark, .scalar label.text .plain⟩ ::
              ⟨mark, .key⟩ ::
                (opened opening (mark.right label.chars.length) .blockMappingStart ++ earlier))
          true after) := by
  have short : label.chars.length ≤ 1024 := Nat.le_trans label.short (by decide)
  have deep : mark.column < (valueMark mark label value).column :=
    Nat.lt_of_lt_of_le (Nat.lt_add_of_pos_right (by decide)) valueMark_column
  obtain ⟨entered, toValue⟩ :=
    leads_key opens label.someChar label.alphanumeric short (separates_gap _)
      (beginsToken_text value _ _) deep earlier remnant
  have allowed : value.isInline = false → (!value.isInline) = true := by simp
  obtain ⟨after, toNext⟩ :=
    isRead (valueMark mark label value) outer next _ entered
      (.inner (Nat.lt_succ_self mark.column) deep) shallow begins allowed
  rw [valueMark_line, Nat.add_assoc] at toNext
  rw [text_valueMark]
  exact ⟨after, toValue.trans toNext⟩

/-- The elements of a sequence are read up to the token after the last one. -/
theorem leads_items (mark : Mark) {items : List Outline} (someItem : items ≠ [])
    (areRead : ∀ item ∈ items, item.IsRead) (opens : Opens mark.column levels around opening)
    (shallow : outer ≤ mark.column) {next : List Char} (begins : BeginsToken next)
    (earlier : List Token) (remnant : Remnant) :
    ∃ after : Remnant,
      (inBlock mark
          (itemText mark.column items ++ '\n' :: (List.replicate outer ' ' ++ next))
          levels earlier none true remnant).Leads
        (closed ⟨mark.line + itemRows items, outer⟩ next (⟨mark.column, true⟩ :: around)
          ((itemTokens mark outer items).reverse ++
            (opened opening mark .blockSequenceStart ++ earlier)) true after) := by
  induction items generalizing mark levels opening earlier remnant with
  | nil => exact absurd rfl someItem
  | cons item later inductionHypothesis =>
      rw [List.forall_mem_cons] at areRead
      cases later with
      | nil =>
          obtain ⟨after, toNext⟩ :=
            leads_item areRead.1 opens shallow begins earlier remnant
          refine ⟨after, ?_⟩
          rw [itemText_singleton]
          simpa [itemTokens, itemRows, columnAfter] using toNext
      | cons sibling others =>
          -- No block ends before the next dash, and that dash opens none again.
          let below : Mark := ⟨mark.line + item.rows, mark.column⟩
          have begin := beginsToken_itemText (List.cons_ne_nil sibling others) mark.column
            ('\n' :: (List.replicate outer ' ' ++ next))
          obtain ⟨entered, toSibling⟩ :=
            leads_item areRead.1 opens (Nat.le_refl mark.column) begin earlier remnant
          obtain ⟨after, toNext⟩ :=
            inductionHypothesis below (List.cons_ne_nil sibling others) areRead.2 .again shallow
              ((item.tokens (mark.right 2) mark.column).reverse ++
                ⟨mark.right 2, .blockEntry⟩ ::
                  (opened opening mark .blockSequenceStart ++ earlier))
              entered
          have notDeeper : (Level.mk mark.column true).column ≤ below.column := Nat.le_refl _
          rw [closed_of_noEnd (closeLevels_of_le notDeeper below)] at toSibling
          rw [opened_again, List.nil_append] at toNext
          have leads := toSibling.trans toNext
          refine ⟨after, ?_⟩
          rw [itemText_cons_cons]
          simpa [below, itemTokens, itemRows, columnAfter, Nat.add_assoc] using leads

/-- The members of a mapping are read up to the token after the last one. -/
theorem leads_entries (mark : Mark) {entries : List (Label × Outline)} (someEntry : entries ≠ [])
    (areRead : ∀ entry ∈ entries, entry.2.IsRead)
    (opens : Opens mark.column levels around opening) (shallow : outer ≤ mark.column)
    {next : List Char} (begins : BeginsToken next) (earlier : List Token) (remnant : Remnant) :
    ∃ after : Remnant,
      (inBlock mark
          (entryText mark.column entries ++ '\n' :: (List.replicate outer ' ' ++ next))
          levels earlier none true remnant).Leads
        (closed ⟨mark.line + entryRows entries, outer⟩ next (⟨mark.column, true⟩ :: around)
          ((entryTokens mark outer entries).reverse ++
            (opened opening (colonMark mark entries) .blockMappingStart ++ earlier)) true
          after) := by
  induction entries generalizing mark levels opening earlier remnant with
  | nil => exact absurd rfl someEntry
  | cons entry later inductionHypothesis =>
      obtain ⟨label, value⟩ := entry
      rw [List.forall_mem_cons] at areRead
      have isRead : value.IsRead := areRead.1
      cases later with
      | nil =>
          obtain ⟨after, toNext⟩ := leads_entry isRead opens shallow begins earlier remnant
          refine ⟨after, ?_⟩
          rw [entryText_singleton]
          simpa [entryTokens, entryRows, columnAfter, colonMark] using toNext
      | cons sibling others =>
          let below : Mark := ⟨mark.line + (value.drop + value.rows), mark.column⟩
          have begin := beginsToken_entryText (List.cons_ne_nil sibling others) mark.column
            ('\n' :: (List.replicate outer ' ' ++ next))
          obtain ⟨entered, toSibling⟩ :=
            leads_entry isRead opens (Nat.le_refl mark.column) begin earlier remnant
          obtain ⟨after, toNext⟩ :=
            inductionHypothesis below (List.cons_ne_nil sibling others) areRead.2 .again shallow
              ((value.tokens (valueMark mark label value) mark.column).reverse ++
                ⟨mark.right label.chars.length, .value⟩ :: ⟨mark, .scalar label.text .plain⟩ ::
                  ⟨mark, .key⟩ ::
                    (opened opening (mark.right label.chars.length) .blockMappingStart ++
                      earlier))
              entered
          have notDeeper : (Level.mk mark.column true).column ≤ below.column := Nat.le_refl _
          rw [closed_of_noEnd (closeLevels_of_le notDeeper below)] at toSibling
          rw [opened_again, List.nil_append] at toNext
          have leads := toSibling.trans toNext
          refine ⟨after, ?_⟩
          rw [entryText_cons_cons]
          simpa [below, entryTokens, entryRows, columnAfter, colonMark, Nat.add_assoc] using leads

end Blocks

theorem isRead (node : Outline) : node.IsRead := by
  induction node with
  | scalar word =>
      intro mark outer next earlier remnant parent around levels keyAllowed beneath shallow begins
        _
      have below : (Mark.mk (mark.line + 1) outer).line = mark.line + 1 := rfl
      rw [text_scalar]
      exact leads_word beneath word.someChar word.alphanumeric begins below shallow
  | sequence items inductionHypothesis =>
      intro mark outer next earlier remnant parent around levels keyAllowed beneath shallow begins
        allowed
      by_cases noItem : items = []
      · subst noItem
        have below : (Mark.mk (mark.line + 1) outer).line = mark.line + 1 := rfl
        exact leads_empty .square beneath begins below shallow
      · have isBlock : items.isEmpty = false := by simpa using noItem
        obtain rfl : keyAllowed = true := allowed isBlock
        have deeper : outer < mark.column := Nat.lt_of_le_of_lt shallow beneath.parent_lt
        obtain ⟨after, leads⟩ :=
          leads_items mark noItem inductionHypothesis (.beneath beneath) (Nat.le_of_lt deeper)
            begins earlier remnant
        rw [closed_block deeper] at leads
        refine ⟨after, ?_⟩
        rw [text_sequence noItem, rows_sequence noItem]
        simpa [tokens, isBlock, opened] using leads
  | mapping entries inductionHypothesis =>
      intro mark outer next earlier remnant parent around levels keyAllowed beneath shallow begins
        allowed
      by_cases noEntry : entries = []
      · subst noEntry
        have below : (Mark.mk (mark.line + 1) outer).line = mark.line + 1 := rfl
        exact leads_empty .curly beneath begins below shallow
      · have isBlock : entries.isEmpty = false := by simpa using noEntry
        obtain rfl : keyAllowed = true := allowed isBlock
        have deeper : outer < mark.column := Nat.lt_of_le_of_lt shallow beneath.parent_lt
        obtain ⟨after, leads⟩ :=
          leads_entries mark noEntry inductionHypothesis (.beneath beneath) (Nat.le_of_lt deeper)
            begins earlier remnant
        rw [closed_block deeper] at leads
        refine ⟨after, ?_⟩
        rw [text_mapping noEntry, rows_mapping noEntry]
        simpa [tokens, isBlock, opened] using leads

/-- A mapping that is a whole text is read to the end. -/
theorem ofText_mapping {entries : List (Label × Outline)} (someEntry : entries ≠ []) :
    Tokens.ofText ((mapping entries).text 0 ++ ['\n']) =
      ⟨(mapping entries).tokens ⟨1, 0⟩ 0 ++ [⟨⟨1 + entryRows entries, 0⟩, .streamEnd⟩], none⟩ := by
  let text := entryText 0 entries ++ '\n' :: (List.replicate 0 ' ' ++ [])
  have noMore : BeginsToken [] := trivial
  obtain ⟨after, leads⟩ :=
    leads_entries ⟨1, 0⟩ someEntry (fun entry _ => isRead entry.2) .root (Nat.le_refl 0) noMore []
      ⟨true, false, none, text.length⟩
  have notDeeper : (Level.mk 0 true).column ≤ (Mark.mk (1 + entryRows entries) 0).column :=
    Nat.le_refl 0
  rw [closed_of_noEnd (closeLevels_of_le notDeeper _)] at leads
  have isBlock : entries.isEmpty = false := by simpa using someEntry
  have read := ofText_of_leads (beginsToken_entryText someEntry 0 _) leads
  rw [text_mapping someEntry]
  simpa [tokens, isBlock, opened] using read

end Outline
end FieldLine
