import FieldLine.Document.Assembly
import FieldLine.Proofs.Walk.Start

/-!
# Documents that are moved down

When lines are put before a text, the marks of all its events grow by their number.  So do the
lines of all nodes that are built from the events, also where a line is taken from another node,
and the line of a walk, unless nothing matches and the walk keeps the line that it starts from.
-/

namespace FieldLine

def Event.moveDown (distance : Nat) (event : Event) : Event :=
  { event with line := event.line + distance }

namespace Node

/-! ## Trees -/

mutual

/-- A tree with all its nodes moved down. -/
def moveDown (distance : Nat) : Node → Node
  | document line none => document (line + distance) none
  | document line (some content) =>
      document (line + distance) (some (content.moveDown distance))
  | mapping line entries => mapping (line + distance) (moveEntries distance entries)
  | sequence line items => sequence (line + distance) (moveItems distance items)
  | scalar line text => scalar (line + distance) text

def moveItems (distance : Nat) : List Node → List Node
  | [] => []
  | item :: later => item.moveDown distance :: moveItems distance later

def moveEntries (distance : Nat) : List (Node × Node) → List (Node × Node)
  | [] => []
  | (key, value) :: later =>
      (key.moveDown distance, value.moveDown distance) :: moveEntries distance later

end

variable {distance : Nat}

def movePair (distance : Nat) (pair : Node × Node) : Node × Node :=
  (pair.1.moveDown distance, pair.2.moveDown distance)

theorem moveItems_eq_map (items : List Node) :
    moveItems distance items = items.map (moveDown distance) := by
  induction items with
  | nil => rfl
  | cons item later inductionHypothesis => rw [moveItems, inductionHypothesis, List.map_cons]

theorem moveEntries_eq_map (entries : List (Node × Node)) :
    moveEntries distance entries = entries.map (movePair distance) := by
  induction entries with
  | nil => rfl
  | cons entry later inductionHypothesis =>
      rw [moveEntries, inductionHypothesis, List.map_cons]
      rfl

@[simp]
theorem line_moveDown (node : Node) : (node.moveDown distance).line = node.line + distance := by
  cases node with
  | document line content => cases content <;> rfl
  | mapping => rfl
  | sequence => rfl
  | scalar => rfl

theorem text?_moveDown (node : Node) : (node.moveDown distance).text? = node.text? := by
  cases node with
  | document line content => cases content <;> rfl
  | mapping => rfl
  | sequence => rfl
  | scalar => rfl

theorem pair?_moveDown (distance : Nat) (node : Node) (name : String) :
    (node.moveDown distance).pair? name = (node.pair? name).map (movePair distance) := by
  cases node with
  | document line content => cases content <;> rfl
  | sequence => rfl
  | scalar => rfl
  | mapping line entries =>
      have sameTest :
          (fun entry => entry.1.text? == some name) ∘ movePair distance =
            fun entry : Node × Node => entry.1.text? == some name := by
        funext entry
        exact congrArg (· == some name) (text?_moveDown entry.1)
      rw [moveDown, pair?, pair?, moveEntries_eq_map, List.find?_map, sameTest]

theorem item?_moveDown (distance : Nat) (node : Node) (index : Nat) :
    (node.moveDown distance).item? index = (node.item? index).map (moveDown distance) := by
  cases node with
  | document line content => cases content <;> rfl
  | mapping => rfl
  | scalar => rfl
  | sequence line items => rw [moveDown, item?, item?, moveItems_eq_map, List.getElem?_map]

end Node

/-! ## Assemblies -/

def OpenNode.moveDown (distance : Nat) : OpenNode → OpenNode
  | mapping line entries key =>
      mapping (line + distance) (entries.map (Node.movePair distance))
        (key.map (Node.moveDown distance))
  | sequence line items => sequence (line + distance) (items.map (Node.moveDown distance))

namespace Assembly

variable {distance : Nat}

def moveDown (distance : Nat) (assembly : Assembly) : Assembly where
  pending := assembly.pending.map (OpenNode.moveDown distance)
  root := assembly.root.map (Node.moveDown distance)

theorem attach_moveDown (assembly : Assembly) (node : Node) :
    (assembly.moveDown distance).attach (node.moveDown distance) =
      (assembly.attach node).moveDown distance := by
  obtain ⟨pending, root⟩ := assembly
  rcases pending with _ | ⟨container, outer⟩
  · cases root <;> rfl
  · rcases container with ⟨line, entries, key⟩ | ⟨line, items⟩
    · cases key <;> rfl
    · rfl

theorem attach_scalar_moveDown (assembly : Assembly) (line : Nat) (text : String) :
    (assembly.moveDown distance).attach (.scalar (line + distance) text) =
      (assembly.attach (.scalar line text)).moveDown distance :=
  attach_moveDown assembly (.scalar line text)

/-- A missing node moves down with the node whose line it takes. -/
theorem nullLine_moveDown (assembly : Assembly) (marked : Nat) :
    (assembly.moveDown distance).nullLine (marked + distance) =
      assembly.nullLine marked + distance := by
  obtain ⟨pending, root⟩ := assembly
  rcases pending with _ | ⟨container, outer⟩
  · rfl
  · rcases container with ⟨line, entries, key⟩ | ⟨line, items⟩
    · rcases key with _ | key
      · rfl
      · exact key.line_moveDown
    · rcases items with _ | ⟨item, earlier⟩
      · rfl
      · exact item.line_moveDown

theorem close_moveDown (assembly : Assembly) :
    (assembly.moveDown distance).close = (assembly.close).moveDown distance := by
  obtain ⟨pending, root⟩ := assembly
  rcases pending with _ | ⟨container, outer⟩
  · rfl
  have moved (node : Node) :
      attach ⟨outer.map (OpenNode.moveDown distance), root.map (Node.moveDown distance)⟩
          (node.moveDown distance) =
        (attach ⟨outer, root⟩ node).moveDown distance :=
    attach_moveDown ⟨outer, root⟩ node
  rcases container with ⟨line, entries, key⟩ | ⟨line, items⟩
  · rcases key with _ | key
    · have tree := moved (.mapping line entries.reverse)
      rw [Node.moveDown, Node.moveEntries_eq_map, List.map_reverse] at tree
      exact tree
    · have tree := moved (.mapping line ((key, Node.scalar key.line "") :: entries).reverse)
      rw [Node.moveDown, Node.moveEntries_eq_map, List.map_reverse, List.map_cons] at tree
      simp only [Node.movePair, Node.moveDown] at tree
      rw [← key.line_moveDown] at tree
      exact tree
  · have tree := moved (.sequence line items.reverse)
    rw [Node.moveDown, Node.moveItems_eq_map, List.map_reverse] at tree
    exact tree

theorem feed_moveDown (assembly : Assembly) (event : Event) :
    (assembly.moveDown distance).feed (event.moveDown distance) =
      (assembly.feed event).moveDown distance := by
  obtain ⟨marked, kind⟩ := event
  cases kind with
  | scalar text style =>
      have sameNull :
          (Event.moveDown distance ⟨marked, .scalar text style⟩).isImplicitNull =
            (Event.mk marked (.scalar text style)).isImplicitNull :=
        rfl
      by_cases missing : (Event.mk marked (.scalar text style)).isImplicitNull = true
      · simp only [feed, Event.moveDown] at sameNull ⊢
        simp only [sameNull, missing, if_true, nullLine_moveDown]
        exact attach_scalar_moveDown assembly _ text
      · simp only [feed, Event.moveDown] at sameNull ⊢
        simp only [sameNull, missing, Bool.false_eq_true, if_false]
        exact attach_scalar_moveDown assembly marked text
  | «alias» => exact attach_scalar_moveDown assembly marked ""
  | sequenceStart => rfl
  | mappingStart => rfl
  | sequenceEnd => exact close_moveDown assembly
  | mappingEnd => exact close_moveDown assembly
  | streamStart => rfl
  | streamEnd => rfl
  | documentStart => rfl
  | documentEnd => rfl

theorem foldl_feed_moveDown (distance : Nat) (assembly : Assembly) (events : List Event) :
    (events.map (Event.moveDown distance)).foldl feed (assembly.moveDown distance) =
      (events.foldl feed assembly).moveDown distance := by
  induction events generalizing assembly with
  | nil => rfl
  | cons event later inductionHypothesis =>
      rw [List.map_cons, List.foldl_cons, List.foldl_cons, feed_moveDown, inductionHypothesis]

/-- A document moves down with its events, or it is empty and on the first line. -/
theorem ofEvents_moveDown (distance : Nat) (events : List Event) :
    (∃ (line : Nat) (content : Node),
        ofEvents events = .document line (some content) ∧
          ofEvents (events.map (Event.moveDown distance)) =
            (Node.document line (some content)).moveDown distance) ∨
      ofEvents events = .document 1 none ∧
        ofEvents (events.map (Event.moveDown distance)) = .document 1 none := by
  have moved := foldl_feed_moveDown distance {} events
  change _ = (events.foldl feed {}).moveDown distance at moved
  have empty : ({} : Assembly).moveDown distance = {} := rfl
  rw [empty] at moved
  rw [ofEvents, ofEvents, moved]
  rcases built : events.foldl feed {} with ⟨pending, root⟩
  rcases root with _ | root
  · exact .inr ⟨rfl, rfl⟩
  · refine .inl ⟨root.line, root, rfl, ?_⟩
    simp [finish, moveDown, Node.moveDown]

end Assembly

/-! ## Walks -/

namespace Walk

variable {distance : Nat} {current entered : Node} {step : Step} {line last kept : Nat}
  {note : Note}

theorem Enters.moveDown (enters : Enters current step last entered) (distance : Nat) :
    Enters (current.moveDown distance) step (last + distance) (entered.moveDown distance) := by
  cases enters with
  | @key name key value found =>
      have movedFound := Node.pair?_moveDown distance current name
      rw [found] at movedFound
      rw [← key.line_moveDown]
      exact .key movedFound
  | @element name index key value item found present =>
      have movedFound := Node.pair?_moveDown distance current name
      have movedPresent := Node.item?_moveDown distance value index
      rw [found] at movedFound
      rw [present] at movedPresent
      rw [← entered.line_moveDown]
      exact .element movedFound movedPresent

theorem Misses.moveDown (misses : Misses current line step kept note) (distance : Nat) :
    ∃ other : Note,
      Misses (current.moveDown distance) (line + distance) step (kept + distance) other := by
  cases misses with
  | key missing =>
      have movedMissing := Node.pair?_moveDown distance current step.name
      rw [missing] at movedMissing
      exact ⟨_, .key movedMissing⟩
  | @element name index key value found missing =>
      have movedFound := Node.pair?_moveDown distance current name
      have movedMissing := Node.item?_moveDown distance value index
      rw [found] at movedFound
      rw [missing] at movedMissing
      rw [← value.line_moveDown]
      exact ⟨_, .element movedFound movedMissing⟩

/-- A walk that has reached a line moves down with it. -/
theorem descend_moveDown (current : Node) (line : Nat) (steps : List Step) :
    (descend (current.moveDown distance) (line + distance) steps).1 =
      ⟨(descend current line steps).1.line + distance,
        (descend current line steps).1.progress⟩ := by
  induction steps generalizing current line with
  | nil => rfl
  | cons step later inductionHypothesis =>
      rcases enters_or_misses current line step with
        ⟨last, entered, enters⟩ | ⟨kept, note, misses⟩
      · have movedEnters := enters.moveDown distance
        by_cases ends : later = []
        · rw [ends, descend_last enters, descend_last movedEnters]
        · rw [descend_onward enters ends, descend_onward movedEnters ends, entered.line_moveDown,
            inductionHypothesis]
      · obtain ⟨other, movedMisses⟩ := misses.moveDown distance
        rw [descend_of_misses misses, descend_of_misses movedMisses]
        rfl

theorem starts_moveDown_iff {content : Node} {steps : List Step} :
    Starts ((Node.document line (some content)).moveDown distance) steps ↔
      Starts (.document line (some content)) steps := by
  constructor
  · rintro ⟨_, step, later, pair, ⟨⟩, rfl, found⟩
    rw [Node.pair?_moveDown, Option.map_eq_some_iff] at found
    obtain ⟨original, found, -⟩ := found
    exact ⟨content, step, later, original, rfl, rfl, found⟩
  · rintro ⟨_, step, later, pair, ⟨⟩, rfl, found⟩
    refine ⟨_, step, later, Node.movePair distance pair, rfl, rfl, ?_⟩
    rw [Node.pair?_moveDown, found]
    rfl

/-- A walk in a document with content, before and after the document moves down. -/
theorem follow_moveDown (distance line : Nat) (content : Node) (steps : List Step) (start : Nat) :
    let before := Node.document line (some content)
    let walk := (follow before steps start).1
    let moved := (follow (before.moveDown distance) steps start).1
    moved.progress = walk.progress ∧
      (Starts before steps → moved.line = walk.line + distance) ∧
      (¬ Starts before steps → walk.line = start ∧ moved.line = start) := by
  intro before walk moved
  have fromMoved :
      (follow (before.moveDown distance) steps (start + distance)).1 =
        ⟨walk.line + distance, walk.progress⟩ :=
    descend_moveDown content start steps
  by_cases starts : Starts before steps
  · have movedStarts : Starts (before.moveDown distance) steps := starts_moveDown_iff.mpr starts
    have sameStart := follow_of_starts movedStarts start (start + distance)
    have movesDown : moved = ⟨walk.line + distance, walk.progress⟩ := by
      rw [← fromMoved]
      exact congrArg Prod.fst sameStart
    rw [movesDown]
    exact ⟨rfl, fun _ => rfl, fun nothing => absurd starts nothing⟩
  · have movedNothing : ¬ Starts (before.moveDown distance) steps :=
      mt starts_moveDown_iff.mp starts
    obtain ⟨progress, kept⟩ := follow_of_not_starts movedNothing
    have stays : moved = ⟨start, progress⟩ := kept start
    rw [kept (start + distance), Walk.mk.injEq] at fromMoved
    rw [stays, ← fromMoved.2]
    exact ⟨rfl, fun starting => absurd starting starts, fun _ => ⟨by omega, rfl⟩⟩

/-- If the marks of all events grow by a distance, all nodes move down by it, except for a document
without content, which stays on the first line.  A walk comes as far as before, and its line grows
by the distance if its first step finds its entry.  Otherwise it is the start line, before and
after. -/
theorem follow_ofEvents_moveDown (distance : Nat) (events : List Event) :
    let before := Assembly.ofEvents events
    let after := Assembly.ofEvents (events.map (Event.moveDown distance))
    (before.content? ≠ none → after = before.moveDown distance) ∧
      (before.content? = none → before = .document 1 none ∧ after = .document 1 none) ∧
      ∀ (steps : List Step) (start : Nat),
        let walk := (follow before steps start).1
        let moved := (follow after steps start).1
        moved.progress = walk.progress ∧
          (Starts before steps → moved.line = walk.line + distance) ∧
          (¬ Starts before steps → walk.line = start ∧ moved.line = start) := by
  intro before after
  rcases Assembly.ofEvents_moveDown distance events with
    ⟨line, content, built, movedBuilt⟩ | ⟨built, movedBuilt⟩
  · have isBefore : before = .document line (some content) := built
    have isAfter : after = (Node.document line (some content)).moveDown distance := movedBuilt
    rw [isAfter, isBefore]
    exact ⟨fun _ => rfl, nofun, follow_moveDown distance line content⟩
  · have isBefore : before = .document 1 none := built
    have isAfter : after = .document 1 none := movedBuilt
    rw [isAfter, isBefore]
    refine ⟨fun present => absurd rfl present, fun _ => ⟨rfl, rfl⟩, ?_⟩
    intro steps start walk moved
    refine ⟨rfl, ?_, fun _ => ⟨rfl, rfl⟩⟩
    rintro ⟨_, _, _, _, ⟨⟩, _⟩

end Walk
end FieldLine
