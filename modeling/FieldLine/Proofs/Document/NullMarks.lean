import FieldLine.Document.Assembly
import FieldLine.Proofs.Path.Spelling
import FieldLine.Proofs.Walk.Steps
import Mathlib.Data.List.Forall2

/-!
# Marks of missing nodes do not show

The stream marks a missing node at the next token, which may be anywhere later.  Such a mark
survives in the tree only where a walk by names that are not empty cannot reach: in a missing
key, in what belongs to it, and in a root that is missing.  Two streams that differ in these
marks alone therefore give the same walks, and the line of a walk is the start line or the mark
of something that is written.
-/

namespace FieldLine

/-! ## Nodes that walks cannot tell apart -/

/-- Both keys are scalars with empty text, which no name of a path matches. -/
def Node.BothBlank (left right : Node) : Prop :=
  left.text? = some "" ∧ right.text? = some ""

mutual

/-- Two nodes that agree in all that walks by names that are not empty can reach, with lines that
are all `genuine`. -/
inductive Node.Alike (genuine : Nat → Prop) : Node → Node → Prop where
  | scalar {line : Nat} {text : String} :
      genuine line → Node.Alike genuine (.scalar line text) (.scalar line text)
  | sequence {line : Nat} {items others : List Node} :
      genuine line → List.Forall₂ (Node.Alike genuine) items others →
      Node.Alike genuine (.sequence line items) (.sequence line others)
  | mapping {line : Nat} {entries others : List (Node × Node)} :
      genuine line → List.Forall₂ (Node.AlikeEntry genuine) entries others →
      Node.Alike genuine (.mapping line entries) (.mapping line others)

/-- Entries agree, or no name matches either of their keys. -/
inductive Node.AlikeEntry (genuine : Nat → Prop) : Node × Node → Node × Node → Prop where
  | blank {left right : Node × Node} :
      Node.BothBlank left.1 right.1 → Node.AlikeEntry genuine left right
  | named {left right : Node × Node} :
      Node.Alike genuine left.1 right.1 → Node.Alike genuine left.2 right.2 →
      Node.AlikeEntry genuine left right

end

namespace Node

variable {genuine : Nat → Prop}

/-- Nodes in a place where a missing one may keep its mark. -/
def Indistinct (genuine : Nat → Prop) (left right : Node) : Prop :=
  BothBlank left right ∨ Alike genuine left right

/-- For an entry to agree, its values only matter where a name may match its keys. -/
theorem AlikeEntry.of_keys {key other value otherValue : Node}
    (keys : Indistinct genuine key other)
    (values : Alike genuine key other → Alike genuine value otherValue) :
    AlikeEntry genuine (key, value) (other, otherValue) := by
  rcases keys with blank | named
  · exact .blank blank
  · exact .named named (values named)

theorem Alike.line_eq {left right : Node} (alike : Alike genuine left right) :
    left.line = right.line := by
  cases alike <;> rfl

theorem Alike.genuine_line {left right : Node} (alike : Alike genuine left right) :
    genuine left.line := by
  cases alike <;> assumption

/-- The line of a key may be a mark itself, but then no name matches the key. -/
theorem AlikeEntry.missing_value {key other : Node} (keys : Indistinct genuine key other) :
    AlikeEntry genuine (key, .scalar key.line "") (other, .scalar other.line "") :=
  .of_keys keys fun named => named.line_eq ▸ .scalar named.genuine_line

theorem Alike.text?_eq {left right : Node} (alike : Alike genuine left right) :
    left.text? = right.text? := by
  cases alike <;> rfl

theorem Alike.pair? {left right : Node} {name : String}
    (alike : Alike genuine left right) (named : name ≠ "") :
    Option.Rel
      (fun pair other => Alike genuine pair.1 other.1 ∧ Alike genuine pair.2 other.2)
      (left.pair? name) (right.pair? name) := by
  cases alike with
  | scalar => exact .none
  | sequence => exact .none
  | mapping _ alikeEntries =>
      unfold Node.pair?
      induction alikeEntries with
      | nil => exact .none
      | @cons entry other entries others alikeEntry _ inductionHypothesis =>
          cases alikeEntry with
          | blank blank =>
              -- The name matches neither key, so both searches go on behind these entries.
              have skipped : ("" == name) = false := by
                simpa using Ne.symm named
              simpa [List.find?_cons, blank.1, blank.2, skipped] using inductionHypothesis
          | named alikeKey alikeValue =>
              have sameText := alikeKey.text?_eq
              by_cases found : other.1.text? = some name
              · simpa [List.find?_cons, sameText, found] using
                  Option.Rel.some ⟨alikeKey, alikeValue⟩
              · simpa [List.find?_cons, sameText, found] using inductionHypothesis

theorem pair?_of_blank {node : Node} (blank : node.text? = some "") (name : String) :
    node.pair? name = none := by
  cases node with
  | scalar => rfl
  | document => simp [Node.text?] at blank
  | mapping => simp [Node.text?] at blank
  | sequence => simp [Node.text?] at blank

theorem Alike.item? {left right : Node} (alike : Alike genuine left right) (index : Nat) :
    Option.Rel (Alike genuine) (left.item? index) (right.item? index) := by
  cases alike with
  | scalar => exact .none
  | mapping => exact .none
  | sequence _ alikeItems =>
      unfold Node.item?
      induction alikeItems generalizing index with
      | nil => exact .none
      | cons alikeItem _ inductionHypothesis =>
          cases index with
          | zero => exact .some alikeItem
          | succ index => simpa using inductionHypothesis index

end Node

namespace Walk

def Named (steps : List Step) : Prop :=
  ∀ step ∈ steps, step.name ≠ ""

theorem Named.tail {step : Step} {later : List Step} (named : Named (step :: later)) :
    Named later :=
  fun other member => named other (List.mem_cons_of_mem step member)

variable {genuine : Nat → Prop}

/-- Walks end alike: on the same line and equally far, and the line is one reached before or a
genuine one. -/
def SameEnd (genuine : Nat → Prop) (reached : Nat) (walk other : Walk) : Prop :=
  walk = other ∧ (walk.line = reached ∨ genuine walk.line)

/-- Once a walk is on a genuine line, it does not matter on which line it was before. -/
theorem SameEnd.of_genuine {reached before : Nat} {walk other : Walk}
    (same : SameEnd genuine reached walk other) (isGenuine : genuine reached) :
    SameEnd genuine before walk other := by
  refine ⟨same.1, ?_⟩
  rcases same.2 with stays | moved
  · exact Or.inr (stays ▸ isGenuine)
  · exact Or.inr moved

variable {left right entered : Node} {step : Step} {line last kept : Nat} {note : Note}

theorem Enters.alike (enters : Enters left step last entered)
    (alike : Node.Alike genuine left right) (named : step.name ≠ "") :
    ∃ other : Node,
      Enters right step last other ∧ Node.Alike genuine entered other ∧ genuine last := by
  have pairs := alike.pair? named
  cases enters with
  | @key name key value found =>
      change Option.Rel _ (left.pair? name) (right.pair? name) at pairs
      rw [found] at pairs
      generalize otherFound : right.pair? name = other at pairs
      cases pairs with
      | some related =>
          have genuineKey := related.1.genuine_line
          rw [related.1.line_eq] at genuineKey ⊢
          exact ⟨_, .key otherFound, related.2, genuineKey⟩
  | @element name index key value item found present =>
      change Option.Rel _ (left.pair? name) (right.pair? name) at pairs
      rw [found] at pairs
      generalize otherFound : right.pair? name = other at pairs
      cases pairs with
      | @some _ otherPair related =>
          have items := related.2.item? index
          rw [present] at items
          generalize otherPresent : otherPair.2.item? index = other at items
          cases items with
          | some alikeItem =>
              have genuineItem := alikeItem.genuine_line
              rw [alikeItem.line_eq] at genuineItem ⊢
              exact ⟨_, .element otherFound otherPresent, alikeItem, genuineItem⟩

theorem Misses.alike (misses : Misses left line step kept note)
    (alike : Node.Alike genuine left right) (named : step.name ≠ "") :
    ∃ other : Note, Misses right line step kept other ∧ (kept = line ∨ genuine kept) := by
  have pairs := alike.pair? named
  cases misses with
  | key missing =>
      rw [missing] at pairs
      generalize otherMissing : right.pair? step.name = other at pairs
      cases pairs with
      | none => exact ⟨_, .key otherMissing, .inl rfl⟩
  | @element name index key value found missing =>
      change Option.Rel _ (left.pair? name) (right.pair? name) at pairs
      rw [found] at pairs
      generalize otherFound : right.pair? name = other at pairs
      cases pairs with
      | @some _ otherPair related =>
          have items := related.2.item? index
          rw [missing] at items
          generalize otherMissing : otherPair.2.item? index = other at items
          cases items with
          | none =>
              have genuineValue := related.2.genuine_line
              rw [related.2.line_eq] at genuineValue ⊢
              exact ⟨_, .element otherFound otherMissing, .inr genuineValue⟩

theorem descend_alike {steps : List Step} (named : Named steps)
    (alike : Node.Alike genuine left right) (line : Nat) :
    SameEnd genuine line (descend left line steps).1 (descend right line steps).1 := by
  induction steps generalizing left right line with
  | nil => exact ⟨rfl, .inl rfl⟩
  | cons step later inductionHypothesis =>
      have stepNamed := named step List.mem_cons_self
      rcases enters_or_misses left line step with ⟨last, entered, enters⟩ | ⟨kept, note, misses⟩
      · obtain ⟨other, otherEnters, alikeEntered, genuineLast⟩ := enters.alike alike stepNamed
        by_cases ends : later = []
        · subst ends
          rw [descend_last enters, descend_last otherEnters]
          exact ⟨rfl, .inr genuineLast⟩
        · rw [descend_onward enters ends, descend_onward otherEnters ends,
            ← alikeEntered.line_eq]
          -- The walk goes on from a genuine line, so it does not matter where it came from.
          exact (inductionHypothesis named.tail alikeEntered entered.line).of_genuine
            alikeEntered.genuine_line
      · obtain ⟨other, otherMisses, genuineKept⟩ := misses.alike alike stepNamed
        rw [descend_of_misses misses, descend_of_misses otherMisses]
        exact ⟨rfl, genuineKept⟩

/-- Walks by names in documents with indistinct roots end alike. -/
theorem follow_indistinct {steps : List Step} (named : Named steps) {left right : Option Node}
    (roots : Option.Rel (Node.Indistinct genuine) left right)
    (leftLine rightLine start : Nat) :
    SameEnd genuine start (follow (.document leftLine left) steps start).1
      (follow (.document rightLine right) steps start).1 := by
  cases roots with
  | none => exact ⟨rfl, Or.inl rfl⟩
  | @some root other related =>
      change
        SameEnd genuine start (descend root start steps).1 (descend other start steps).1
      rcases related with ⟨blank, otherBlank⟩ | alike
      · cases steps with
        | nil => exact ⟨rfl, Or.inl rfl⟩
        | cons step later =>
            have misses : Misses root start step start _ :=
              .key (Node.pair?_of_blank blank step.name)
            have otherMisses : Misses other start step start _ :=
              .key (Node.pair?_of_blank otherBlank step.name)
            rw [descend_of_misses misses, descend_of_misses otherMisses]
            exact ⟨rfl, .inl rfl⟩
      · exact descend_alike named alike start

end Walk

/-! ## Assemblies that stay alike -/

/-- Events of one kind on one genuine line, or both of a missing node. -/
def Event.Alike (genuine : Nat → Prop) (left right : Event) : Prop :=
  left.kind = right.kind ∧
    (left.isImplicitNull = true ∨ left.line = right.line ∧ genuine left.line)

inductive OpenNode.Alike (genuine : Nat → Prop) : OpenNode → OpenNode → Prop where
  | mapping {line : Nat} {entries others : List (Node × Node)} {key other : Option Node} :
      genuine line → List.Forall₂ (Node.AlikeEntry genuine) entries others →
      Option.Rel (Node.Indistinct genuine) key other →
      OpenNode.Alike genuine (.mapping line entries key) (.mapping line others other)
  | sequence {line : Nat} {items others : List Node} :
      genuine line → List.Forall₂ (Node.Alike genuine) items others →
      OpenNode.Alike genuine (.sequence line items) (.sequence line others)

namespace Assembly

variable {genuine : Nat → Prop}

structure Alike (genuine : Nat → Prop) (left right : Assembly) : Prop where
  pending : List.Forall₂ (OpenNode.Alike genuine) left.pending right.pending
  root : Option.Rel (Node.Indistinct genuine) left.root right.root

/-- A node attached outside all containers becomes the root unless there is one. -/
theorem root_orElse {root other : Option Node} {node second : Node}
    (roots : Option.Rel (Node.Indistinct genuine) root other)
    (nodes : Node.Indistinct genuine node second) :
    Option.Rel (Node.Indistinct genuine) (root <|> some node) (other <|> some second) := by
  cases roots with
  | none => exact .some nodes
  | some related => exact .some related

theorem Alike.attach {left right : Assembly} (alike : Alike genuine left right)
    {node other : Node} (nodes : Node.Alike genuine node other) :
    Alike genuine (left.attach node) (right.attach other) := by
  obtain ⟨leftPending, leftRoot⟩ := left
  obtain ⟨rightPending, rightRoot⟩ := right
  obtain ⟨pending, root⟩ := alike
  cases pending with
  | nil => exact ⟨.nil, root_orElse root (Or.inr nodes)⟩
  | cons container outer =>
      cases container with
      | sequence isGenuine items =>
          exact ⟨.cons (.sequence isGenuine (.cons nodes items)) outer, root⟩
      | mapping isGenuine entries key =>
          cases key with
          | none =>
              exact
                ⟨.cons (.mapping isGenuine entries (.some (Or.inr nodes))) outer, root⟩
          | some keys =>
              have entry := Node.AlikeEntry.of_keys keys fun _ => nodes
              exact ⟨.cons (.mapping isGenuine (.cons entry entries) .none) outer, root⟩

/-- Attaching missing nodes keeps assemblies alike, wherever they are marked. -/
theorem Alike.attach_null {left right : Assembly} (alike : Alike genuine left right)
    (mark otherMark : Nat) :
    Alike genuine (left.attach (.scalar (left.nullLine mark) ""))
      (right.attach (.scalar (right.nullLine otherMark) "")) := by
  obtain ⟨leftPending, leftRoot⟩ := left
  obtain ⟨rightPending, rightRoot⟩ := right
  obtain ⟨pending, root⟩ := alike
  have blank : ∀ line otherLine : Nat,
      Node.BothBlank (.scalar line "") (.scalar otherLine "") :=
    fun line otherLine => ⟨rfl, rfl⟩
  cases pending with
  | nil => exact ⟨.nil, root_orElse root (Or.inl (blank _ _))⟩
  | cons container outer =>
      cases container with
      | sequence isGenuine items =>
          cases items with
          | nil =>
              exact ⟨.cons (.sequence isGenuine (.cons (.scalar isGenuine) .nil)) outer, root⟩
          | cons item earlier =>
              simp only [nullLine, Assembly.attach]
              rw [← item.line_eq]
              exact
                ⟨.cons (.sequence isGenuine
                  (.cons (.scalar item.genuine_line) (.cons item earlier))) outer, root⟩
      | mapping isGenuine entries key =>
          cases key with
          | none =>
              exact
                ⟨.cons (.mapping isGenuine entries (.some (Or.inl (blank _ _)))) outer, root⟩
          | some keys =>
              have entry := Node.AlikeEntry.missing_value keys
              exact ⟨.cons (.mapping isGenuine (.cons entry entries) .none) outer, root⟩

/-- Closing keeps assemblies alike, also where a key is left without a value. -/
theorem Alike.close {left right : Assembly} (alike : Alike genuine left right) :
    Alike genuine left.close right.close := by
  obtain ⟨leftPending, leftRoot⟩ := left
  obtain ⟨rightPending, rightRoot⟩ := right
  obtain ⟨pending, root⟩ := alike
  cases pending with
  | nil => exact ⟨.nil, root⟩
  | cons container outer =>
      have around : Alike genuine ⟨_, leftRoot⟩ ⟨_, rightRoot⟩ := ⟨outer, root⟩
      cases container with
      | sequence isGenuine items =>
          exact around.attach (.sequence isGenuine (List.rel_reverse items))
      | mapping isGenuine entries key =>
          cases key with
          | none => exact around.attach (.mapping isGenuine (List.rel_reverse entries))
          | some keys =>
              have entry := Node.AlikeEntry.missing_value keys
              exact around.attach
                (.mapping isGenuine (List.rel_reverse (.cons entry entries)))

theorem Alike.feed {left right : Assembly} (alike : Alike genuine left right)
    {event other : Event} (events : Event.Alike genuine event other) :
    Alike genuine (left.feed event) (right.feed other) := by
  obtain ⟨line, kind⟩ := event
  obtain ⟨otherLine, otherKind⟩ := other
  obtain ⟨rfl, marks⟩ : kind = otherKind ∧ _ := events
  by_cases missing : (Event.mk line kind).isImplicitNull = true
  · have isNull : kind = .scalar "" .plain := by
      simpa [Event.isImplicitNull] using missing
    subst isNull
    have otherMissing : (Event.mk otherLine (.scalar "" .plain)).isImplicitNull = true := rfl
    simp only [Assembly.feed, missing, otherMissing, if_true]
    exact alike.attach_null line otherLine
  · obtain ⟨rfl, isGenuine⟩ := marks.resolve_left missing
    cases kind with
    | scalar text style =>
        simp only [Assembly.feed, missing]
        exact alike.attach (.scalar isGenuine)
    | «alias» => exact alike.attach (.scalar isGenuine)
    | sequenceStart => exact ⟨.cons (.sequence isGenuine .nil) alike.pending, alike.root⟩
    | mappingStart => exact ⟨.cons (.mapping isGenuine .nil .none) alike.pending, alike.root⟩
    | sequenceEnd => exact alike.close
    | mappingEnd => exact alike.close
    | streamStart => exact alike
    | streamEnd => exact alike
    | documentStart => exact alike
    | documentEnd => exact alike

theorem Alike.foldl_feed {left right : Assembly} (alike : Alike genuine left right)
    {events others : List Event} (streams : List.Forall₂ (Event.Alike genuine) events others) :
    Alike genuine (events.foldl Assembly.feed left) (others.foldl Assembly.feed right) := by
  induction streams generalizing left right with
  | nil => exact alike
  | cons event _ inductionHypothesis => exact inductionHypothesis (alike.feed event)

end Assembly

/-! ## Answers -/

/-- Two events that differ at most in the mark of a missing node. -/
def Event.SameButNullMark (left right : Event) : Prop :=
  left.kind = right.kind ∧ (left.isImplicitNull = true ∨ left.line = right.line)

/-- A line that marks something written. -/
def Event.MarksWritten (events : List Event) (line : Nat) : Prop :=
  ∃ event ∈ events, event.isImplicitNull = false ∧ event.line = line

theorem Event.alike_of_sameButNullMark {events all others : List Event}
    (within : ∀ event ∈ events, event ∈ all)
    (streams : List.Forall₂ Event.SameButNullMark events others) :
    List.Forall₂ (Event.Alike (Event.MarksWritten all)) events others := by
  induction streams with
  | nil => exact .nil
  | @cons event other later others same _ inductionHypothesis =>
      have first : Event.Alike (Event.MarksWritten all) event other := by
        refine ⟨same.1, ?_⟩
        by_cases missing : event.isImplicitNull = true
        · exact Or.inl missing
        · exact Or.inr
            ⟨same.2.resolve_left missing, event, within event List.mem_cons_self,
              by simpa using missing, rfl⟩
      exact .cons first <|
        inductionHypothesis fun later member => within later (List.mem_cons_of_mem event member)

theorem Walk.follow_sameEnd {events others : List Event} {steps : List Step}
    (named : Named steps) (streams : List.Forall₂ Event.SameButNullMark events others)
    (start : Nat) :
    SameEnd (Event.MarksWritten events) start
      (follow (Assembly.ofEvents events) steps start).1
      (follow (Assembly.ofEvents others) steps start).1 := by
  have empty : Assembly.Alike (Event.MarksWritten events) {} {} := ⟨.nil, .none⟩
  have alikeEvents :=
    Event.alike_of_sameButNullMark (fun _ member => member) streams
  exact follow_indistinct named (empty.foldl_feed alikeEvents).root _ _ start

namespace Walk

/-- The line of a walk is the start line or marks something written, and marks of missing nodes
change neither the line nor how far the walk comes.  This is so for all steps with names, and
every path that is read has such steps. -/
theorem follow_ofEvents_written :
    (∀ (path : String) (steps : List Step), Path.parse path = .ok steps → Named steps) ∧
      ∀ (events : List Event) (steps : List Step), Named steps → ∀ start : Nat,
        let walk := (follow (Assembly.ofEvents events) steps start).1
        (walk.line = start ∨ Event.MarksWritten events walk.line) ∧
          ∀ others : List Event, List.Forall₂ Event.SameButNullMark events others →
            (follow (Assembly.ofEvents others) steps start).1 = walk := by
  refine ⟨fun path steps => Path.name_ne_of_parse, ?_⟩
  intro events steps named start walk
  have reflexive : List.Forall₂ Event.SameButNullMark events events :=
    List.forall₂_same.mpr fun event _ => ⟨rfl, Or.inr rfl⟩
  constructor
  · exact (follow_sameEnd named reflexive start).2
  · intro others streams
    exact (follow_sameEnd named streams start).1.symm

/-- Below a missing value, marked on line 9 or on line 7, a walk stays on the line of its key. -/
theorem follow_ofEvents_written_missing_value :
    let before : List Event := [⟨1, .mappingStart⟩, ⟨1, .scalar "a" .plain⟩]
    let events := before ++ [⟨9, .scalar "" .plain⟩, ⟨9, .mappingEnd⟩]
    let others := before ++ [⟨7, .scalar "" .plain⟩, ⟨9, .mappingEnd⟩]
    let steps : List Step := [.key "a", .key "b"]
    Named steps ∧ List.Forall₂ Event.SameButNullMark events others ∧
      (follow (Assembly.ofEvents events) steps 5).1 = ⟨1, .fallenBack⟩ ∧
      (follow (Assembly.ofEvents others) steps 5).1 =
        (follow (Assembly.ofEvents events) steps 5).1 := by
  intro before events others steps
  have named : Named steps := by
    intro step member
    rcases List.mem_pair.mp member with rfl | rfl <;> decide
  have streams : List.Forall₂ Event.SameButNullMark events others :=
    .cons ⟨rfl, Or.inr rfl⟩ <|
      .cons ⟨rfl, Or.inr rfl⟩ <|
        .cons ⟨rfl, Or.inl rfl⟩ <|
          .cons ⟨rfl, Or.inr rfl⟩ .nil
  exact
    ⟨named, streams, rfl, (follow_ofEvents_written.2 events steps named 5).2 others streams⟩

end Walk
end FieldLine
