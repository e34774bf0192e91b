import FieldLine.Proofs.JsonDocument.Spelling
import FieldLine.Proofs.Yaml.FlowRounds

/-!
# Tokens of JSON

The tokens of a JSON value, and the proof that they are read from its text.  The proof follows the
value: a bracket or comma reads the white space before an element or member, and the value reads
the white space after itself, up to the next comma or the end of the collection.
-/

namespace FieldLine
namespace JsonSyntax
namespace Value

open Yaml Yaml.Lexer

/-! ## Tokens -/

/-- The comma at a mark, unless the last element or member stands before it. -/
def commaTokens {α : Type} (mark : Mark) (later : List α) : List Token :=
  if later.isEmpty then [] else [⟨mark, .flowEntry⟩]

mutual

/-- The tokens of a value at a mark. -/
def tokens (mark : Mark) : Value → List Token
  | literal word => [⟨mark, .scalar (.ofList word.chars) .plain⟩]
  | number numeral => [⟨mark, .scalar (.ofList numeral.chars) .plain⟩]
  | string glyphs => [⟨mark, .scalar (decoded glyphs) .doubleQuoted⟩]
  | hollow brackets inside =>
      [⟨mark, brackets.startKind⟩, ⟨(mark.right 1).past inside.unified, brackets.endKind⟩]
  | array elements => ⟨mark, .flowSequenceStart⟩ :: elementTokens (mark.right 1) elements
  | object members => ⟨mark, .flowMappingStart⟩ :: memberTokens (mark.right 1) members

/-- The tokens from the mark after a bracket or comma to the end of an array. -/
def elementTokens (mark : Mark) : List (Padded Value) → List Token
  | [] => [⟨mark, .flowSequenceEnd⟩]
  | ⟨before, value, after⟩ :: later =>
      let start := mark.past before.unified
      let stop := start.past (value.text Padding.unified ++ after.unified)
      value.tokens start ++
        (commaTokens stop later ++ elementTokens (stop.past (comma later)) later)

/-- The tokens from the mark after a bracket or comma to the end of an object. -/
def memberTokens (mark : Mark) : List (Member Value) → List Token
  | [] => [⟨mark, .flowMappingEnd⟩]
  | ⟨⟨beforeKey, key, afterKey⟩, ⟨before, value, after⟩⟩ :: later =>
      let keyMark := mark.past beforeKey.unified
      let colon := keyMark.past (quoted key ++ afterKey.unified)
      let start := (colon.right 1).past before.unified
      let stop := start.past (value.text Padding.unified ++ after.unified)
      ⟨keyMark, .key⟩ :: ⟨keyMark, .scalar (decoded key) .doubleQuoted⟩ :: ⟨colon, .value⟩ ::
        (value.tokens start ++
          (commaTokens stop later ++ memberTokens (stop.past (comma later)) later))

end

/-! ## Reading the tokens -/

/-- Tokens are read from a state on, and another token stands at the mark that is reached.  What has
been announced of pairs is still known there. -/
def Reaches (start : Lexer) (mark : Mark) (next : List Char) (tokens : List Token)
    (outer : List (Option Candidate)) (explicit : Bool) : Prop :=
  ∃ (kept : Option Candidate) (keyAllowed : Bool) (after : Remnant), Dispensable kept ∧
    (explicit = true → after.pairsExplicit = true) ∧
    start.Leads (flowing mark next tokens kept outer keyAllowed after)

section

variable {mark : Mark} {pad next : List Char} {earlier : List Token} {top : Option Candidate}
  {outer : List (Option Candidate)} {keyAllowed explicit : Bool} {remnant : Remnant}

theorem Reaches.of_leads {start middle : Lexer} (leads : start.Leads middle)
    (reaches : Reaches middle mark next earlier outer explicit) :
    Reaches start mark next earlier outer explicit := by
  obtain ⟨kept, keyAllowed, after, dispensable, stays, toEnd⟩ := reaches
  exact ⟨kept, keyAllowed, after, dispensable, stays, leads.trans toEnd⟩

/-- A value is read from its text as its tokens, with the white space after it.  Outside of all
collections only a collection is. -/
def IsRead (value : Value) : Prop :=
  ∀ (mark : Mark) (pad next : List Char) (earlier : List Token) {top : Option Candidate}
    {outer : List (Option Candidate)} {keyAllowed : Bool} {remnant : Remnant},
    (outer = [] → value.IsCollection) → outer.length + value.depth ≤ maxFlowDepth →
    (∀ c ∈ pad, isSpace c = true) → EndsValue next → Dispensable top →
    Reaches
      (flowing mark (value.text Padding.unified ++ (pad ++ next)) earlier top outer keyAllowed
        remnant)
      (mark.past (value.text Padding.unified ++ pad)) next ((value.tokens mark).reverse ++ earlier)
      outer remnant.pairsExplicit

/-- Inside a collection any value is read. -/
theorem IsRead.inside {value : Value} (isRead : value.IsRead)
    (room : outer.length + 1 + value.depth ≤ maxFlowDepth) (waiting : Option Candidate)
    (mark : Mark) (after : Padding) (earlier : List Token) (ends : EndsValue next)
    (dispensable : Dispensable top) :
    Reaches
      (flowing mark (value.text Padding.unified ++ (after.unified ++ next)) earlier top
        (waiting :: outer) keyAllowed remnant)
      (mark.past (value.text Padding.unified ++ after.unified)) next
      ((value.tokens mark).reverse ++ earlier) (waiting :: outer) remnant.pairsExplicit := by
  have inside : waiting :: outer = [] → value.IsCollection :=
    fun outside => absurd outside (List.cons_ne_nil waiting outer)
  exact isRead mark after.unified next earlier inside room after.isSpace_unified ends dispensable

/-! ## Bare words and strings -/

theorem isRead_bareWord {value : Value} {word : List Char} (bareWord : IsBareWord word)
    (notCollection : ¬value.IsCollection) (spelled : value.text Padding.unified = word)
    (isToken : ∀ mark : Mark, value.tokens mark = [⟨mark, .scalar (.ofList word) .plain⟩]) :
    value.IsRead := by
  intro mark pad next earlier top outer keyAllowed remnant root room blank ends dispensable
  have inside : outer ≠ [] := fun outside => notCollection (root outside)
  obtain ⟨kept, keyAllowed', after, dispensableKept, same, leads⟩ :=
    leads_bareWord inside dispensable bareWord blank ends
  rw [spelled, isToken]
  exact ⟨kept, keyAllowed', after, dispensableKept, same.trans, leads⟩

theorem past_quoted (mark : Mark) (glyphs : List Glyph) :
    mark.past (quoted glyphs) = mark.right ((glyphs.flatMap Glyph.chars).length + 2) := by
  rw [Mark.past_eq_right fun c member => (isSolid_quoted glyphs c member).1]
  simp [quoted]

theorem quoted_append (glyphs : List Glyph) (rest : List Char) :
    quoted glyphs ++ rest = '"' :: (glyphs.flatMap Glyph.chars ++ '"' :: rest) := by
  simp [quoted]

/-- A string or key is read, and a colon may come right after it. -/
theorem leads_string {glyphs : List Glyph} (single : ∀ glyph ∈ glyphs, ¬glyph.IsPair)
    (inside : outer ≠ []) (blank : ∀ c ∈ pad, isSpace c = true) (follows : FollowsQuoted next) :
    ∃ after : Remnant, after.pairsExplicit = remnant.pairsExplicit ∧
      after.adjacentValue = some next.length ∧
      (flowing mark (quoted glyphs ++ (pad ++ next)) earlier top outer keyAllowed remnant).Leads
        (flowing (mark.past (quoted glyphs ++ pad)) next
          (⟨mark, .scalar (decoded glyphs) .doubleQuoted⟩ :: earlier)
          (suggested mark (quoted glyphs ++ (pad ++ next)) earlier top keyAllowed remnant) outer
          false after) := by
  have written : ∀ glyph ∈ glyphs, Quoted.IsWritten glyph.char glyph.chars :=
    fun glyph member => Glyph.isWritten (single glyph member)
  rw [Mark.past_append, past_quoted, quoted_append]
  exact leads_quoted inside written blank follows

theorem isRead_string {glyphs : List Glyph} (single : ∀ glyph ∈ glyphs, ¬glyph.IsPair) :
    (string glyphs).IsRead := by
  intro mark pad next earlier top outer keyAllowed remnant root room blank ends dispensable
  have inside : outer ≠ [] := fun outside => nomatch root outside
  obtain ⟨after, same, -, leads⟩ := leads_string single inside blank (.inl ends)
  exact ⟨_, false, after, dispensable_suggested dispensable, same.trans, leads⟩

/-! ## Brackets and commas -/

/-- From what stands before a text, a bracket or a comma, the first token of the text is reached,
which may start a key.  White space may come before it. -/
def Brings (prior : List Char → Lexer) (mark : Mark) (earlier : List Token)
    (outer : List (Option Candidate)) (explicit : Bool) : Prop :=
  ∀ pad next : List Char, (∀ c ∈ pad, isSpace c = true) → BeginsToken next →
    ∃ (waiting : Option Candidate) (entered : Remnant), Dispensable waiting ∧
      (explicit = true → entered.pairsExplicit = true) ∧
      (prior (pad ++ next)).Leads
        (flowing (mark.past pad) next earlier none (waiting :: outer) true entered)

theorem brings_opening (brackets : Brackets) (mark : Mark) (earlier : List Token)
    (keyAllowed : Bool) (remnant : Remnant) (room : outer.length < maxFlowDepth)
    (dispensable : Dispensable top) :
    Brings (fun text => flowing mark (brackets.left :: text) earlier top outer keyAllowed remnant)
      (mark.right 1) (⟨mark, brackets.startKind⟩ :: earlier) outer
      (brackets.announces remnant.pairsExplicit) := by
  intro pad next blank begins
  obtain ⟨waiting, entered, dispensableWaiting, announced, leads⟩ :=
    leads_opening brackets room dispensable blank begins
  exact ⟨waiting, entered, dispensableWaiting, announced.trans, leads⟩

theorem brings_comma {waiting : Option Candidate} (mark : Mark) (earlier : List Token)
    (keyAllowed : Bool) (dispensable : Dispensable top) (dispensableWaiting : Dispensable waiting)
    (stays : explicit = true → remnant.pairsExplicit = true) :
    Brings
      (fun text => flowing mark (',' :: text) earlier top (waiting :: outer) keyAllowed remnant)
      (mark.right 1) (⟨mark, .flowEntry⟩ :: earlier) outer explicit := by
  intro pad next blank begins
  obtain ⟨after, same, leads⟩ :=
    leads_comma (List.cons_ne_nil waiting outer) dispensable blank begins
  exact ⟨waiting, after, dispensableWaiting, fun isExplicit => same.trans (stays isExplicit), leads⟩

theorem reaches_closing (brackets : Brackets) {below : Option Candidate}
    (dispensable : Dispensable top) (dispensableBelow : Dispensable below)
    (stays : explicit = true → remnant.pairsExplicit = true) (blank : ∀ c ∈ pad, isSpace c = true)
    (ends : EndsValue next) :
    Reaches
      (flowing mark (brackets.right :: (pad ++ next)) earlier top (below :: outer) keyAllowed
        remnant)
      (mark.past (brackets.right :: pad)) next (⟨mark, brackets.endKind⟩ :: earlier) outer
      explicit := by
  obtain ⟨kept, keyAllowed', after, dispensableKept, same, closes⟩ :=
    leads_closing brackets dispensable dispensableBelow blank ends.beginsToken
  rw [Mark.past_cons brackets.right_ne_break]
  exact ⟨kept, keyAllowed', after, dispensableKept,
    fun isExplicit => same.trans (stays isExplicit), closes⟩

/-- After a bracket or comma, a collection may end. -/
theorem reaches_closing_of_brings (brackets : Brackets) {prior : List Char → Lexer}
    (brings : Brings prior mark earlier outer explicit) {inside : List Char}
    (blankInside : ∀ c ∈ inside, isSpace c = true) (blank : ∀ c ∈ pad, isSpace c = true)
    (ends : EndsValue next) :
    Reaches (prior (inside ++ brackets.right :: (pad ++ next)))
      (mark.past (inside ++ brackets.right :: pad)) next
      (⟨mark.past inside, brackets.endKind⟩ :: earlier) outer explicit := by
  obtain ⟨waiting, entered, dispensable, stays, opens⟩ :=
    brings inside (brackets.right :: (pad ++ next)) blankInside (brackets.beginsToken_right _)
  rw [Mark.past_append]
  exact .of_leads opens (reaches_closing brackets dispensable_none dispensable stays blank ends)

end

/-! ## Lists of elements and members -/

section

variable {α : Type} {pad next : List Char} {outer : List (Option Candidate)} {explicit : Bool}

/-- The rest of a collection is read wherever an element or member may start. -/
def IsReadRest (outer : List (Option Candidate)) (explicit : Bool) (pad next : List Char)
    (text : List Char) (tokens : Mark → List Token) : Prop :=
  ∀ (prior : List Char → Lexer) (mark : Mark) (earlier : List Token),
    Brings prior mark earlier outer explicit →
    Reaches (prior (text ++ (pad ++ next))) (mark.past (text ++ pad)) next
      ((tokens mark).reverse ++ earlier) outer explicit

/-- After an element or member, its collection ends or goes on after a comma. -/
theorem reaches_rest (brackets : Brackets) (text : List α → List Char)
    (tokens : Mark → List α → List Token) (blank : ∀ c ∈ pad, isSpace c = true)
    (ends : EndsValue next) (endText : text [] = [brackets.right])
    (endToken : ∀ mark : Mark, tokens mark [] = [⟨mark, brackets.endKind⟩]) {later : List α}
    (isRead : IsReadRest outer explicit pad next (text later) (tokens · later)) {mark : Mark}
    {earlier : List Token} {top waiting : Option Candidate} {keyAllowed : Bool}
    {remnant : Remnant} (dispensable : Dispensable top) (dispensableWaiting : Dispensable waiting)
    (stays : explicit = true → remnant.pairsExplicit = true) :
    Reaches
      (flowing mark (comma later ++ (text later ++ (pad ++ next))) earlier top (waiting :: outer)
        keyAllowed remnant)
      (mark.past (comma later ++ (text later ++ pad))) next
      ((commaTokens mark later ++ tokens (mark.past (comma later)) later).reverse ++ earlier)
      outer explicit := by
  cases later with
  | nil =>
      change Reaches (flowing _ (text [] ++ (pad ++ next)) _ _ _ _ _) (mark.past (text [] ++ pad)) _
        ((tokens mark []).reverse ++ earlier) _ _
      rw [endText, endToken]
      exact reaches_closing brackets dispensable dispensableWaiting stays blank ends
  | cons first others =>
      have reaches :=
        isRead _ _ _ (brings_comma mark earlier keyAllowed dispensable dispensableWaiting stays)
      have tokensAfter :
          (commaTokens mark (first :: others) ++
              tokens (mark.past (comma (first :: others))) (first :: others)).reverse ++ earlier =
            (tokens (mark.right 1) (first :: others)).reverse ++ ⟨mark, .flowEntry⟩ :: earlier := by
        rw [List.reverse_append, List.append_assoc]
        rfl
      rw [tokensAfter]
      exact reaches

/-! ## Arrays -/

theorem reaches_elements {elements : List (Padded Value)}
    (areRead : ∀ element ∈ elements, element.inner.IsRead)
    (room : outer.length + 1 + elementDepth elements ≤ maxFlowDepth)
    (blank : ∀ c ∈ pad, isSpace c = true) (ends : EndsValue next) :
    IsReadRest outer explicit pad next (elementText Padding.unified elements)
      (elementTokens · elements) := by
  induction elements with
  | nil =>
      intro prior mark earlier brings
      exact reaches_closing_of_brings .square brings (List.forall_mem_nil _) blank ends
  | cons element later inductionHypothesis =>
      intro prior mark earlier brings
      obtain ⟨before, value, after⟩ := element
      rw [List.forall_mem_cons] at areRead
      have deeper : outer.length + 1 + max value.depth (elementDepth later) ≤ maxFlowDepth := room
      have valueRoom : outer.length + 1 + value.depth ≤ maxFlowDepth := by omega
      have laterRoom : outer.length + 1 + elementDepth later ≤ maxFlowDepth := by omega
      let others := comma later ++ (elementText Padding.unified later ++ (pad ++ next))
      obtain ⟨waiting, entered, dispensableWaiting, stays, toValue⟩ :=
        brings before.unified (value.text Padding.unified ++ (after.unified ++ others))
          before.isSpace_unified (value.beginsToken_text _ _)
      obtain ⟨kept, keyAllowed, left, dispensable, staysLeft, toOthers⟩ :=
        areRead.1.inside valueRoom waiting (mark.past before.unified) after earlier
          (endsValue_elementText later (pad ++ next)) dispensable_none
      have reaches :=
        Reaches.of_leads (toValue.trans toOthers) <|
          reaches_rest .square (elementText Padding.unified) elementTokens blank ends rfl
            (fun _ => rfl) (inductionHypothesis areRead.2 laterRoom) dispensable dispensableWaiting
            (staysLeft ∘ stays)
      simp only [elementText, elementTokens, List.append_assoc, List.reverse_append,
        Mark.past_append] at reaches ⊢
      exact reaches

/-! ## Objects -/

/-- White space keeps a colon from starting a value only if that value is a literal or number. -/
theorem isBare_of_hinders {value : Value} {before : Padding} {rest : List Char}
    (hinders : Hinders before.unified (value.text Padding.unified ++ rest)) :
    value.IsBare ∧ before.IsTabs := by
  obtain ⟨⟨someChar, tabs⟩, named⟩ := hinders
  refine ⟨?_, Padding.isTabs_of_unified someChar tabs⟩
  cases value with
  | literal word => exact .literal word
  | number numeral => exact .number numeral
  | string glyphs => cases named
  | hollow brackets inside => cases brackets <;> cases named
  | array elements => cases named
  | object members => cases named

/-- A key is read with its colon, up to the value. -/
theorem leads_key {waiting : Option Candidate} {mark : Mark} {earlier : List Token}
    {remnant : Remnant} {key : List Glyph} (single : ∀ glyph ∈ key, ¬glyph.IsPair)
    (afterKey : Padding) {before : Padding} {value : Value}
    (free : value.IsBare → ¬before.IsTabs) (isExplicit : remnant.pairsExplicit = true)
    (rest : List Char) :
    ∃ after : Remnant, after.pairsExplicit = true ∧
      (flowing mark (quoted key ++ (afterKey.unified ++ ':' :: (before.unified ++
          (value.text Padding.unified ++ rest)))) earlier none (waiting :: outer) true
          remnant).Leads
        (flowing (((mark.past (quoted key ++ afterKey.unified)).right 1).past before.unified)
          (value.text Padding.unified ++ rest)
          (⟨mark.past (quoted key ++ afterKey.unified), .value⟩ ::
            ⟨mark, .scalar (decoded key) .doubleQuoted⟩ :: ⟨mark, .key⟩ :: earlier)
          none (waiting :: outer) false after) := by
  let valueText := value.text Padding.unified ++ rest
  let colon := mark.past (quoted key ++ afterKey.unified)
  let keyText := quoted key ++ (afterKey.unified ++ ':' :: (before.unified ++ valueText))
  -- A key may start here, so the colon finds the string as its candidate, wherever that ends.
  let candidate : Candidate :=
    ⟨⟨mark.line, mark.column, keyText.length, remnant.fresh⟩, earlier.length, false⟩
  have inside : waiting :: outer ≠ [] := List.cons_ne_nil _ _
  obtain ⟨read, same, adjacent, toColon⟩ :=
    leads_string single inside afterKey.isSpace_unified (.inr ⟨before.unified ++ valueText, rfl⟩)
  obtain ⟨after, stays, toValue⟩ :
      ∃ after : Remnant, after.pairsExplicit = true ∧
        (flowing colon (':' :: (before.unified ++ valueText))
          (⟨mark, .scalar (decoded key) .doubleQuoted⟩ :: earlier) (some candidate)
          (waiting :: outer) false read).Leads _ :=
    leads_colon_flowing inside (same.trans isExplicit) adjacent rfl before.isSpace_unified
      (value.beginsToken_text _ rest) fun hinders =>
        free (isBare_of_hinders hinders).1 (isBare_of_hinders hinders).2
  exact ⟨after, stays, toColon.trans toValue⟩

theorem reaches_members {members : List (Member Value)}
    (single : ∀ member ∈ members, ∀ glyph ∈ member.key.inner, ¬glyph.IsPair)
    (free : ∀ member ∈ members, member.value.inner.IsBare → ¬member.value.before.IsTabs)
    (areRead : ∀ member ∈ members, member.value.inner.IsRead)
    (room : outer.length + 1 + memberDepth members ≤ maxFlowDepth)
    (blank : ∀ c ∈ pad, isSpace c = true) (ends : EndsValue next) :
    IsReadRest outer true pad next (memberText Padding.unified members)
      (memberTokens · members) := by
  induction members with
  | nil =>
      intro prior mark earlier brings
      exact reaches_closing_of_brings .curly brings (List.forall_mem_nil _) blank ends
  | cons member later inductionHypothesis =>
      intro prior mark earlier brings
      obtain ⟨⟨beforeKey, key, afterKey⟩, ⟨before, value, after⟩⟩ := member
      rw [List.forall_mem_cons] at single free areRead
      have deeper : outer.length + 1 + max value.depth (memberDepth later) ≤ maxFlowDepth := room
      have valueRoom : outer.length + 1 + value.depth ≤ maxFlowDepth := by omega
      have laterRoom : outer.length + 1 + memberDepth later ≤ maxFlowDepth := by omega
      let keyMark := mark.past beforeKey.unified
      let colon := keyMark.past (quoted key ++ afterKey.unified)
      let start := (colon.right 1).past before.unified
      let others := comma later ++ (memberText Padding.unified later ++ (pad ++ next))
      let valueText := value.text Padding.unified ++ (after.unified ++ others)
      obtain ⟨waiting, entered, dispensableWaiting, stays, toKey⟩ :=
        brings beforeKey.unified
          (quoted key ++ (afterKey.unified ++ ':' :: (before.unified ++ valueText)))
          beforeKey.isSpace_unified ⟨rfl, by decide⟩
      obtain ⟨read, isExplicit, toValue⟩ :=
        leads_key single.1 afterKey free.1 (stays rfl) (after.unified ++ others)
      obtain ⟨kept, keyAllowed, left, dispensable, staysLeft, toOthers⟩ :=
        areRead.1.inside valueRoom waiting start after
          (⟨colon, .value⟩ :: ⟨keyMark, .scalar (decoded key) .doubleQuoted⟩ :: ⟨keyMark, .key⟩ ::
            earlier)
          (endsValue_memberText later (pad ++ next)) dispensable_none
      have reaches :=
        Reaches.of_leads ((toKey.trans toValue).trans toOthers) <|
          reaches_rest .curly (memberText Padding.unified) memberTokens blank ends rfl
            (fun _ => rfl) (inductionHypothesis single.2 free.2 areRead.2 laterRoom) dispensable
            dispensableWaiting fun _ => staysLeft isExplicit
      have notBreak : ':' ≠ '\n' := by decide
      simp only [keyMark, colon, start, others, valueText, memberText, memberTokens,
        List.append_assoc, List.cons_append, List.nil_append, List.reverse_append,
        List.reverse_cons, Mark.past_append, Mark.past_cons notBreak] at reaches ⊢
      exact reaches

end

/-! ## All values -/

/-- A value is read if what stands in its brackets is. -/
theorem isRead_collection (brackets : Brackets) {value : Value} {text : List Char}
    (inside : Mark → List Token) (nested : value.depth ≠ 0)
    (spelled : value.text Padding.unified = brackets.left :: text)
    (areTokens : ∀ mark : Mark,
      value.tokens mark = ⟨mark, brackets.startKind⟩ :: inside (mark.right 1))
    (isReadRest : ∀ {pad next : List Char} {outer : List (Option Candidate)} (explicit : Bool),
      outer.length + value.depth ≤ maxFlowDepth → (∀ c ∈ pad, isSpace c = true) →
      EndsValue next → IsReadRest outer (brackets.announces explicit) pad next text inside) :
    value.IsRead := by
  intro mark pad next earlier top outer keyAllowed remnant root room blank ends dispensable
  have notFull : outer.length < maxFlowDepth := by omega
  obtain ⟨kept, keyAllowed', after, dispensableKept, stays, leads⟩ :=
    isReadRest remnant.pairsExplicit room blank ends _ _ _
      (brings_opening brackets mark earlier keyAllowed remnant notFull dispensable)
  refine ⟨kept, keyAllowed', after, dispensableKept, stays ∘ brackets.announces_of_explicit, ?_⟩
  rw [spelled, areTokens, List.cons_append, List.cons_append,
    Mark.past_cons brackets.left_ne_break, List.reverse_cons, List.append_assoc]
  exact leads

theorem isRead_hollow (brackets : Brackets) (inside : Padding) :
    (hollow brackets inside).IsRead := by
  refine isRead_collection brackets
    (fun mark => [⟨mark.past inside.unified, brackets.endKind⟩]) (Nat.succ_ne_zero 0) rfl
    (fun _ => rfl) ?_
  intro pad next outer explicit room blank ends prior mark earlier brings
  have reaches := reaches_closing_of_brings brackets brings inside.isSpace_unified blank ends
  rw [List.append_assoc, List.append_assoc]
  exact reaches

theorem isRead {value : Value} (portable : value.IsPortable) : value.IsRead := by
  induction value with
  | literal word => exact isRead_bareWord (isBareWord_literal word) nofun rfl fun _ => rfl
  | number numeral => exact isRead_bareWord (isBareWord_number numeral) nofun rfl fun _ => rfl
  | string glyphs =>
      cases portable with
      | string single => exact isRead_string single
  | hollow brackets inside => exact isRead_hollow brackets inside
  | array elements inductionHypothesis =>
      cases portable with
      | array arePortable =>
          refine isRead_collection .square (elementTokens · elements) (Nat.succ_ne_zero _) rfl
            (fun _ => rfl) ?_
          intro pad next outer explicit room blank ends
          have areRead : ∀ element ∈ elements, element.inner.IsRead :=
            fun element member => inductionHypothesis element member (arePortable element member)
          have inside : outer.length + 1 + elementDepth elements ≤ maxFlowDepth := by
            have whole : outer.length + (elementDepth elements + 1) ≤ maxFlowDepth := room
            omega
          exact reaches_elements areRead inside blank ends
  | object members inductionHypothesis =>
      cases portable with
      | object single free arePortable =>
          refine isRead_collection .curly (memberTokens · members) (Nat.succ_ne_zero _) rfl
            (fun _ => rfl) ?_
          intro pad next outer explicit room blank ends
          have areRead : ∀ member ∈ members, member.value.inner.IsRead :=
            fun member isMember => inductionHypothesis member isMember (arePortable member isMember)
          have inside : outer.length + 1 + memberDepth members ≤ maxFlowDepth := by
            have whole : outer.length + (memberDepth members + 1) ≤ maxFlowDepth := room
            omega
          exact reaches_members single free areRead inside blank ends

end Value
end JsonSyntax

namespace JsonText

open JsonSyntax Yaml

/-- A text is read as the tokens of its value, up to the end of the stream. -/
theorem ofText_text (document : JsonText) (isCollection : document.inner.IsCollection)
    (shallow : document.inner.depth ≤ Lexer.maxFlowDepth) (portable : document.inner.IsPortable) :
    ∃ last : Mark, Tokens.ofText (document.text Padding.unified) =
      ⟨document.inner.tokens ((Mark.mk 1 0).past document.before.unified) ++ [⟨last, .streamEnd⟩],
        none⟩ := by
  let start := (Mark.mk 1 0).past document.before.unified
  obtain ⟨last, reads⟩ :
      ∃ last : Mark, Tokens.ofText (document.text Padding.unified) =
        ⟨(⟨last, .streamEnd⟩ :: (document.inner.tokens start).reverse).reverse, none⟩ := by
    refine Lexer.ofText_of_leads_flowing document.before.isSpace_unified
      (document.inner.beginsToken_text _ _) ?_
    intro top keyAllowed remnant dispensable
    have outermost : ([] : List (Option Candidate)).length + document.inner.depth ≤
        Lexer.maxFlowDepth := by
      rwa [List.length_nil, Nat.zero_add]
    obtain ⟨kept, keyAllowed', after, dispensableKept, -, leads⟩ :=
      Value.isRead portable start document.after.unified [] [] (fun _ => isCollection) outermost
        document.after.isSpace_unified .textEnd dispensable
    rw [List.append_nil, List.append_nil] at leads
    exact ⟨_, kept, keyAllowed', after, dispensableKept, leads⟩
  refine ⟨last, reads.trans ?_⟩
  rw [List.reverse_cons, List.reverse_reverse]

end JsonText
end FieldLine
