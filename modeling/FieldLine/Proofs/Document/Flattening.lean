import FieldLine.Document.Assembly

/-!
# Flattening and building are inverse

A text writes its nodes one inside the other, and its events are these nodes flattened.  This
module describes the nodes of a text as trees with marks, flattens them into events, and shows
that building a document from the events gives the same tree back: same shape, same order, same
texts, and the line of every node that is written.  A node that is missing in the text takes the
line of its key or of what precedes it.
-/

namespace FieldLine

/-- A node as a text writes it.  The marks are lines: that of the node's own first token and, for
a collection, also that of the token that ends it. -/
inductive SourceNode where
  | scalar (mark : Nat) (text : String) (style : ScalarStyle)
  | alias (mark : Nat)
  | sequence (mark stop : Nat) (items : List SourceNode)
  | mapping (mark stop : Nat) (entries : List (SourceNode × SourceNode))

namespace SourceNode

/-! ## Events and trees of a node -/

mutual

/-- The events of a node, in the order of the text. -/
def events : SourceNode → List Event
  | scalar mark text style => [⟨mark, .scalar text style⟩]
  | .alias mark => [⟨mark, .alias⟩]
  | sequence mark stop items =>
      ⟨mark, .sequenceStart⟩ :: (itemEvents items ++ [⟨stop, .sequenceEnd⟩])
  | mapping mark stop entries =>
      ⟨mark, .mappingStart⟩ :: (entryEvents entries ++ [⟨stop, .mappingEnd⟩])

def itemEvents : List SourceNode → List Event
  | [] => []
  | item :: later => item.events ++ itemEvents later

def entryEvents : List (SourceNode × SourceNode) → List Event
  | [] => []
  | (key, value) :: later => key.events ++ value.events ++ entryEvents later

end

mutual

/-- The tree of a node.  A node that is missing, which is an empty plain scalar, takes the line
`instead` if there is one. -/
def settle (instead : Option Nat) : SourceNode → Node
  | scalar mark text style =>
      .scalar (if text = "" ∧ style = .plain then instead.getD mark else mark) text
  | .alias mark => .scalar mark ""
  | sequence mark _ items => .sequence mark (settleItems mark items)
  | mapping mark _ entries => .mapping mark (settleEntries entries)

/-- The trees of elements that follow one on the line `before`, or a sequence that starts
there. -/
def settleItems (before : Nat) : List SourceNode → List Node
  | [] => []
  | item :: later =>
      item.settle (some before) :: settleItems (item.settle (some before)).line later

/-- The trees of entries.  A missing value is on the line of its key. -/
def settleEntries : List (SourceNode × SourceNode) → List (Node × Node)
  | [] => []
  | (key, value) :: later =>
      (key.settle none, value.settle (some (key.settle none).line)) :: settleEntries later

end

end SourceNode

namespace Assembly

/-! ## One node on any stack -/

/-- The line that a missing node takes in the innermost open container. -/
def instead (assembly : Assembly) : Option Nat :=
  match assembly.pending with
  | .mapping _ _ (some key) :: _ => some key.line
  | .sequence line items :: _ => some ((items.head?.map Node.line).getD line)
  | _ => none

theorem nullLine_eq_instead (assembly : Assembly) (marked : Nat) :
    assembly.nullLine marked = assembly.instead.getD marked := by
  obtain ⟨pending, root⟩ := assembly
  cases pending with
  | nil => rfl
  | cons container outer =>
      cases container with
      | mapping line entries key => cases key <;> rfl
      | sequence line items => cases items <;> rfl

theorem feed_scalar
    (assembly : Assembly) (mark : Nat) (text : String) (style : ScalarStyle) :
    assembly.feed ⟨mark, .scalar text style⟩ =
      assembly.attach ((SourceNode.scalar mark text style).settle assembly.instead) := by
  by_cases missing : text = "" ∧ style = .plain
  · obtain ⟨rfl, rfl⟩ := missing
    have isNull : (Event.mk mark (.scalar "" .plain)).isImplicitNull = true := rfl
    simp [feed, SourceNode.settle, isNull, nullLine_eq_instead]
  · have notNull : (Event.mk mark (.scalar text style)).isImplicitNull = false := by
      simpa [Event.isImplicitNull] using missing
    simp [feed, SourceNode.settle, notNull, missing]

mutual

/-- Feeding the events of a node attaches its tree, whatever is open around it. -/
theorem foldl_feed_events :
    ∀ (node : SourceNode) (assembly : Assembly),
      node.events.foldl feed assembly =
        assembly.attach (node.settle assembly.instead)
  -- The open containers stay arbitrary: each child meets those of its parent and of what is
  -- already there, and a key may itself be a collection.
  | .scalar mark text style, assembly =>
      feed_scalar assembly mark text style
  | .alias mark, assembly => rfl
  | .sequence mark stop items, ⟨pending, root⟩ => by
      have children :=
        foldl_feed_itemEvents items mark [] pending root
      rw [SourceNode.events, List.foldl_cons, List.foldl_append]
      change
        List.foldl feed
            ((SourceNode.itemEvents items).foldl feed
              ⟨.sequence mark [] :: pending, root⟩) [⟨stop, .sequenceEnd⟩] = _
      rw [children]
      simp [feed, close, SourceNode.settle]
  | .mapping mark stop entries, ⟨pending, root⟩ => by
      have children :=
        foldl_feed_entryEvents entries mark [] pending root
      rw [SourceNode.events, List.foldl_cons, List.foldl_append]
      change
        List.foldl feed
            ((SourceNode.entryEvents entries).foldl feed
              ⟨.mapping mark [] none :: pending, root⟩) [⟨stop, .mappingEnd⟩] = _
      rw [children]
      simp [feed, close, SourceNode.settle]

theorem foldl_feed_itemEvents :
    ∀ (items : List SourceNode) (line : Nat) (done : List Node)
      (outer : List OpenNode) (root : Option Node),
      (SourceNode.itemEvents items).foldl feed ⟨.sequence line done :: outer, root⟩ =
        ⟨.sequence line
          ((SourceNode.settleItems ((done.head?.map Node.line).getD line) items).reverse ++
            done) :: outer, root⟩
  | [], line, done, outer, root => rfl
  | item :: later, line, done, outer, root => by
      rw [SourceNode.itemEvents, List.foldl_append, foldl_feed_events item]
      simp only [attach, instead]
      rw [foldl_feed_itemEvents later]
      simp [SourceNode.settleItems]

theorem foldl_feed_entryEvents :
    ∀ (entries : List (SourceNode × SourceNode)) (line : Nat) (done : List (Node × Node))
      (outer : List OpenNode) (root : Option Node),
      (SourceNode.entryEvents entries).foldl feed ⟨.mapping line done none :: outer, root⟩ =
        ⟨.mapping line ((SourceNode.settleEntries entries).reverse ++ done) none :: outer,
          root⟩
  | [], line, done, outer, root => rfl
  | (key, value) :: later, line, done, outer, root => by
      rw [SourceNode.entryEvents, List.foldl_append, List.foldl_append,
        foldl_feed_events key]
      simp only [attach, instead]
      rw [foldl_feed_events value]
      simp only [attach, instead]
      rw [foldl_feed_entryEvents later]
      simp [SourceNode.settleEntries]

end

/-! ## Closing containers -/

/-- The innermost container exists and can be closed as it is: no key waits for its value. -/
def Closable (assembly : Assembly) : Prop :=
  match assembly.pending with
  | .mapping _ _ none :: _ => True
  | .sequence _ _ :: _ => True
  | _ => False

/-- Whenever an event ends a collection during a run, the innermost container can be closed. -/
def ClosesWell : Assembly → List Event → Prop
  | _, [] => True
  | assembly, event :: later =>
      (event.kind = .sequenceEnd ∨ event.kind = .mappingEnd → assembly.Closable) ∧
        ClosesWell (assembly.feed event) later

theorem closesWell_append (assembly : Assembly) (first second : List Event) :
    ClosesWell assembly (first ++ second) ↔
      ClosesWell assembly first ∧ ClosesWell (first.foldl feed assembly) second := by
  induction first generalizing assembly with
  | nil => simp [ClosesWell]
  | cons event later inductionHypothesis =>
      rw [List.cons_append, ClosesWell, ClosesWell, List.foldl_cons,
        inductionHypothesis, and_assoc]

theorem closesWell_singleton
    (assembly : Assembly) (event : Event)
    (notSequenceEnd : event.kind ≠ .sequenceEnd) (notMappingEnd : event.kind ≠ .mappingEnd) :
    ClosesWell assembly [event] := by
  simp [ClosesWell, notSequenceEnd, notMappingEnd]

mutual

/-- The events of a node close only what they opened, whatever is open around it. -/
theorem closesWell_events :
    ∀ (node : SourceNode) (assembly : Assembly), ClosesWell assembly node.events
  | .scalar mark text style, assembly =>
      closesWell_singleton assembly ⟨mark, .scalar text style⟩ nofun nofun
  | .alias mark, assembly =>
      closesWell_singleton assembly ⟨mark, .alias⟩ nofun nofun
  | .sequence mark stop items, ⟨pending, root⟩ => by
      have opened := closesWell_singleton ⟨pending, root⟩ ⟨mark, .sequenceStart⟩ nofun nofun
      have children := closesWell_itemEvents items mark [] pending root
      rw [SourceNode.events, ← List.singleton_append, closesWell_append, closesWell_append]
      refine ⟨opened, children, ?_⟩
      change
        ClosesWell
          ((SourceNode.itemEvents items).foldl feed ⟨.sequence mark [] :: pending, root⟩) _
      rw [foldl_feed_itemEvents]
      simp [ClosesWell, Closable]
  | .mapping mark stop entries, ⟨pending, root⟩ => by
      have opened := closesWell_singleton ⟨pending, root⟩ ⟨mark, .mappingStart⟩ nofun nofun
      have children := closesWell_entryEvents entries mark [] pending root
      rw [SourceNode.events, ← List.singleton_append, closesWell_append, closesWell_append]
      refine ⟨opened, children, ?_⟩
      change
        ClosesWell
          ((SourceNode.entryEvents entries).foldl feed
            ⟨.mapping mark [] none :: pending, root⟩) _
      rw [foldl_feed_entryEvents]
      simp [ClosesWell, Closable]

theorem closesWell_itemEvents :
    ∀ (items : List SourceNode) (line : Nat) (done : List Node)
      (outer : List OpenNode) (root : Option Node),
      ClosesWell ⟨.sequence line done :: outer, root⟩ (SourceNode.itemEvents items)
  | [], line, done, outer, root => trivial
  | item :: later, line, done, outer, root => by
      rw [SourceNode.itemEvents, closesWell_append, foldl_feed_events item]
      exact ⟨closesWell_events item _, closesWell_itemEvents later line _ outer root⟩

theorem closesWell_entryEvents :
    ∀ (entries : List (SourceNode × SourceNode)) (line : Nat) (done : List (Node × Node))
      (outer : List OpenNode) (root : Option Node),
      ClosesWell ⟨.mapping line done none :: outer, root⟩ (SourceNode.entryEvents entries)
  | [], line, done, outer, root => trivial
  | (key, value) :: later, line, done, outer, root => by
      rw [SourceNode.entryEvents, closesWell_append, closesWell_append, List.foldl_append,
        foldl_feed_events key, foldl_feed_events value]
      exact ⟨⟨closesWell_events key _, closesWell_events value _⟩,
        closesWell_entryEvents later line _ outer root⟩

end

end Assembly

/-! ## Documents and streams -/

/-- An event that bounds a stream or a document. -/
def Event.IsBound (event : Event) : Prop :=
  event.kind = .streamStart ∨ event.kind = .streamEnd ∨
    event.kind = .documentStart ∨ event.kind = .documentEnd

/-- A document of a stream: its root and the bounds around it. -/
structure SourceDocument where
  opening : List Event
  root : SourceNode
  closing : List Event
  opening_bounds : ∀ event ∈ opening, event.IsBound
  closing_bounds : ∀ event ∈ closing, event.IsBound

def SourceDocument.events (document : SourceDocument) : List Event :=
  document.opening ++ document.root.events ++ document.closing

namespace Assembly

/-- Bounds leave an assembly as it is and close nothing. -/
theorem foldl_feed_bounds (assembly : Assembly) {events : List Event}
    (bounds : ∀ event ∈ events, event.IsBound) :
    events.foldl feed assembly = assembly ∧ ClosesWell assembly events := by
  induction events with
  | nil => exact ⟨rfl, trivial⟩
  | cons event later inductionHypothesis =>
      have unchanged : assembly.feed event = assembly := by
        rcases bounds event List.mem_cons_self with kind | kind | kind | kind <;>
          simp [feed, kind]
      have noEnd : ¬ (event.kind = .sequenceEnd ∨ event.kind = .mappingEnd) := by
        rcases bounds event List.mem_cons_self with kind | kind | kind | kind <;>
          simp [kind]
      have rest :=
        inductionHypothesis fun other member => bounds other (List.mem_cons_of_mem event member)
      rw [List.foldl_cons, ClosesWell, unchanged]
      exact ⟨rest.1, fun ends => absurd ends noEnd, rest.2⟩

theorem foldl_feed_document (document : SourceDocument) (assembly : Assembly) :
    document.events.foldl feed assembly =
      assembly.attach (document.root.settle assembly.instead) := by
  rw [SourceDocument.events, List.foldl_append, List.foldl_append,
    (foldl_feed_bounds assembly document.opening_bounds).1, foldl_feed_events,
    (foldl_feed_bounds _ document.closing_bounds).1]

/-- The events of a document give the tree of its root. -/
theorem ofEvents_document (node : SourceNode) (line stop : Nat) :
    ofEvents (⟨line, .documentStart⟩ :: (node.events ++ [⟨stop, .documentEnd⟩])) =
      .document (node.settle none).line (some (node.settle none)) := by
  let document : SourceDocument :=
    ⟨[⟨line, .documentStart⟩], node, [⟨stop, .documentEnd⟩], by simp [Event.IsBound],
      by simp [Event.IsBound]⟩
  have built : document.events.foldl feed {} = ⟨[], some (node.settle none)⟩ :=
    foldl_feed_document document {}
  change (document.events.foldl feed {}).finish = _
  rw [built]
  rfl

theorem closesWell_document (document : SourceDocument) (assembly : Assembly) :
    ClosesWell assembly document.events := by
  rw [SourceDocument.events, closesWell_append, closesWell_append]
  exact
    ⟨⟨(foldl_feed_bounds assembly document.opening_bounds).2,
        closesWell_events document.root _⟩,
      (foldl_feed_bounds _ document.closing_bounds).2⟩

/-- Once the root is there, further documents change nothing. -/
theorem foldl_feed_documents_of_root (documents : List SourceDocument) (root : Node) :
    (documents.flatMap SourceDocument.events).foldl feed ⟨[], some root⟩ = ⟨[], some root⟩ ∧
      ClosesWell ⟨[], some root⟩ (documents.flatMap SourceDocument.events) := by
  induction documents with
  | nil => exact ⟨rfl, trivial⟩
  | cons document later inductionHypothesis =>
      have same : document.events.foldl feed ⟨[], some root⟩ = ⟨[], some root⟩ :=
        foldl_feed_document document _
      rw [List.flatMap_cons, List.foldl_append, closesWell_append, same]
      exact ⟨inductionHypothesis.1, closesWell_document document _, inductionHypothesis.2⟩

/-- Building inverts flattening.  The events of a document leave nothing open and give the tree
of its root, the events of further documents do not change that, and through the whole stream
no container is missing and no key is without a value when a collection ends. -/
theorem ofEvents_stream (document : SourceDocument) (later : List SourceDocument) :
    let stream := document.events ++ later.flatMap SourceDocument.events
    (document.events.foldl feed {}).pending = [] ∧
      ofEvents document.events =
        .document (document.root.settle none).line (some (document.root.settle none)) ∧
      stream.foldl feed {} = document.events.foldl feed {} ∧
      ofEvents stream = ofEvents document.events ∧
      ClosesWell {} stream := by
  intro stream
  have built : document.events.foldl feed {} = ⟨[], some (document.root.settle none)⟩ :=
    foldl_feed_document document {}
  have unchanged := foldl_feed_documents_of_root later (document.root.settle none)
  have streamBuilt : stream.foldl feed {} = document.events.foldl feed {} := by
    rw [List.foldl_append, built, unchanged.1]
  refine ⟨?_, ?_, streamBuilt, ?_, ?_⟩
  · rw [built]
  · rw [ofEvents, built]
    rfl
  · rw [ofEvents, streamBuilt, ← ofEvents]
  · rw [closesWell_append, built]
    exact ⟨closesWell_document document {}, unchanged.2⟩

end Assembly
end FieldLine
