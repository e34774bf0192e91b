import FieldLine.Document.Assembly
import FieldLine.Proofs.Walk.Steps

/-!
# Lines never decrease on the way down

If the marks of a stream never decrease, then no node of its document starts before what it is
in: a key not before its mapping, a value not before its key, an element neither before its
sequence nor before the element ahead of it.  Assembling keeps this although a missing node is
moved back, because it is moved to something that its container holds already.  A walk
therefore never goes back when its path is extended.
-/

namespace FieldLine

namespace Node

/-- No node in the tree starts before what it belongs to. -/
inductive Ordered : Node → Prop where
  | scalar {line : Nat} {text : String} : Ordered (.scalar line text)
  | sequence {line : Nat} {items : List Node} :
      (line :: items.map Node.line).Pairwise (· ≤ ·) →
      (∀ item ∈ items, Ordered item) →
      Ordered (.sequence line items)
  | mapping {line : Nat} {entries : List (Node × Node)} :
      (∀ entry ∈ entries, line ≤ entry.1.line ∧ entry.1.line ≤ entry.2.line) →
      (∀ entry ∈ entries, Ordered entry.1) →
      (∀ entry ∈ entries, Ordered entry.2) →
      Ordered (.mapping line entries)
  | document {line : Nat} {content : Option Node} :
      (∀ root, content = some root → Ordered root) →
      Ordered (.document line content)

theorem Ordered.of_pair? {node key value : Node} {name : String} (ordered : Ordered node)
    (found : node.pair? name = some (key, value)) :
    node.line ≤ key.line ∧ key.line ≤ value.line ∧ Ordered value := by
  cases ordered with
  | scalar => simp [Node.pair?] at found
  | sequence => simp [Node.pair?] at found
  | document => simp [Node.pair?] at found
  | mapping lines _ values =>
      have member := List.mem_of_find?_eq_some found
      exact ⟨(lines _ member).1, (lines _ member).2, values _ member⟩

theorem Ordered.of_item? {node item : Node} {index : Nat} (ordered : Ordered node)
    (found : node.item? index = some item) :
    node.line ≤ item.line ∧ Ordered item := by
  cases ordered with
  | scalar => simp [Node.item?] at found
  | mapping => simp [Node.item?] at found
  | document => simp [Node.item?] at found
  | sequence lines items =>
      have member := List.mem_of_getElem? found
      have first := (List.pairwise_cons.mp lines).1
      exact ⟨first _ (List.mem_map_of_mem member), items _ member⟩

end Node

/-! ## Containers within bounds -/

def OpenNode.line : OpenNode → Nat
  | .mapping line _ _ => line
  | .sequence line _ => line

/-- A container that is in order and holds nothing that starts after the line `seen`. -/
inductive OpenNode.Ordered (seen : Nat) : OpenNode → Prop where
  | sequence {line : Nat} {items : List Node} :
      line ≤ seen →
      (∀ item ∈ items, item.line ≤ seen) →
      (line :: items.reverse.map Node.line).Pairwise (· ≤ ·) →
      (∀ item ∈ items, Node.Ordered item) →
      OpenNode.Ordered seen (.sequence line items)
  | mapping {line : Nat} {entries : List (Node × Node)} {key : Option Node} :
      line ≤ seen →
      (∀ entry ∈ entries, line ≤ entry.1.line ∧ entry.1.line ≤ entry.2.line) →
      (∀ entry ∈ entries, Node.Ordered entry.1 ∧ Node.Ordered entry.2) →
      (∀ waiting, key = some waiting →
        line ≤ waiting.line ∧ waiting.line ≤ seen ∧ Node.Ordered waiting) →
      OpenNode.Ordered seen (.mapping line entries key)

namespace OpenNode

variable {seen later : Nat} {container : OpenNode}

theorem Ordered.empty_sequence (seen : Nat) : Ordered seen (.sequence seen []) :=
  .sequence (Nat.le_refl seen) (List.forall_mem_nil _) (List.pairwise_singleton _ _)
    (List.forall_mem_nil _)

theorem Ordered.empty_mapping (seen : Nat) : Ordered seen (.mapping seen [] none) :=
  .mapping (Nat.le_refl seen) (List.forall_mem_nil _) (List.forall_mem_nil _)
    fun _ noKey => absurd noKey (Option.some_ne_none _).symm

theorem Ordered.line_le (ordered : Ordered seen container) : container.line ≤ seen := by
  cases ordered <;> assumption

theorem Ordered.mono (ordered : Ordered seen container) (advance : seen ≤ later) :
    Ordered later container := by
  cases ordered with
  | sequence start items lines trees =>
      refine .sequence (by omega) ?_ lines trees
      intro item member
      exact Nat.le_trans (items item member) advance
  | mapping start lines trees waiting =>
      refine .mapping (by omega) lines trees ?_
      intro key isWaiting
      obtain ⟨below, above, tree⟩ := waiting key isWaiting
      exact ⟨below, by omega, tree⟩

variable {line : Nat} {node key : Node} {items : List Node} {entries : List (Node × Node)}

theorem Ordered.add_item (ordered : Ordered seen (.sequence line items)) (tree : node.Ordered)
    (after : seen ≤ node.line) (advance : node.line ≤ later) :
    Ordered later (.sequence line (node :: items)) := by
  cases ordered with
  | sequence start itemLines lines trees =>
      refine .sequence (by omega) ?_ ?_ ?_
      · intro item member
        rcases List.mem_cons.mp member with rfl | earlier
        · exact advance
        · have := itemLines item earlier
          omega
      · rw [List.reverse_cons, List.map_append, ← List.cons_append, List.pairwise_append]
        refine ⟨lines, List.pairwise_singleton _ _, ?_⟩
        intro before member other isNode
        rw [List.map_singleton, List.mem_singleton] at isNode
        subst isNode
        simp only [List.mem_cons, List.mem_map, List.mem_reverse] at member
        rcases member with rfl | ⟨item, itemMember, rfl⟩
        · omega
        · have := itemLines item itemMember
          omega
      · intro item member
        rcases List.mem_cons.mp member with rfl | earlier
        · exact tree
        · exact trees item earlier

theorem Ordered.add_key (ordered : Ordered seen (.mapping line entries none))
    (tree : node.Ordered) (after : seen ≤ node.line) (advance : node.line ≤ later) :
    Ordered later (.mapping line entries (some node)) := by
  cases ordered with
  | mapping start lines trees =>
      refine .mapping (by omega) lines trees ?_
      intro waiting isNode
      cases isNode
      exact ⟨by omega, advance, tree⟩

theorem Ordered.add_value (ordered : Ordered seen (.mapping line entries (some key)))
    (tree : node.Ordered) (after : key.line ≤ node.line) (advance : seen ≤ later) :
    Ordered later (.mapping line ((key, node) :: entries) none) := by
  cases ordered with
  | mapping start lines trees waiting =>
      obtain ⟨below, above, keyTree⟩ := waiting key rfl
      refine .mapping (by omega) ?_ ?_ nofun
      · intro entry member
        rcases List.mem_cons.mp member with rfl | earlier
        · exact ⟨below, after⟩
        · exact lines entry earlier
      · intro entry member
        rcases List.mem_cons.mp member with rfl | earlier
        · exact ⟨keyTree, tree⟩
        · exact trees entry earlier

theorem Ordered.tree_sequence (ordered : Ordered seen (.sequence line items)) :
    Node.Ordered (.sequence line items.reverse) := by
  cases ordered with
  | sequence _ _ lines trees =>
      exact .sequence lines fun item member => trees item (List.mem_reverse.mp member)

theorem Ordered.tree_mapping {waiting : Option Node}
    (ordered : Ordered seen (.mapping line entries waiting)) :
    Node.Ordered (.mapping line entries.reverse) := by
  cases ordered with
  | mapping _ lines trees =>
      exact
        .mapping (fun entry member => lines entry (List.mem_reverse.mp member))
          (fun entry member => (trees entry (List.mem_reverse.mp member)).1)
          (fun entry member => (trees entry (List.mem_reverse.mp member)).2)

/-! A container stays in order if its bound drops to the line that a missing node takes. -/

theorem Ordered.no_item (ordered : Ordered seen (.sequence line [])) :
    line ≤ seen ∧ Ordered line (.sequence line []) := by
  cases ordered with
  | sequence start _ lines =>
      exact ⟨start, .sequence (Nat.le_refl line) nofun lines nofun⟩

theorem Ordered.last_item (ordered : Ordered seen (.sequence line (node :: items))) :
    node.line ≤ seen ∧ Ordered node.line (.sequence line (node :: items)) := by
  cases ordered with
  | sequence start itemLines lines trees =>
      have atMostLast : ∀ before ∈ line :: items.reverse.map Node.line, before ≤ node.line := by
        rw [List.reverse_cons, List.map_append, ← List.cons_append, List.pairwise_append]
          at lines
        intro before member
        exact lines.2.2 before member node.line List.mem_cons_self
      refine ⟨itemLines node List.mem_cons_self, ?_⟩
      refine .sequence (atMostLast line List.mem_cons_self) ?_ lines trees
      intro item member
      rcases List.mem_cons.mp member with rfl | isEarlier
      · exact Nat.le_refl _
      · apply atMostLast
        exact List.mem_cons_of_mem _ <| List.mem_map_of_mem (List.mem_reverse.mpr isEarlier)

theorem Ordered.waiting_key (ordered : Ordered seen (.mapping line entries (some key))) :
    key.line ≤ seen ∧ Ordered key.line (.mapping line entries (some key)) := by
  cases ordered with
  | mapping start lines trees waiting =>
      obtain ⟨below, above, keyTree⟩ := waiting key rfl
      refine ⟨above, .mapping below lines trees ?_⟩
      intro other isKey
      cases isKey
      exact ⟨below, Nat.le_refl _, keyTree⟩

end OpenNode

/-- Open containers, innermost first, that are in order: what an outer one holds does not start
after the inner one. -/
def OpenNode.AllOrdered : Nat → List OpenNode → Prop
  | _, [] => True
  | seen, container :: outer =>
      container.Ordered seen ∧ OpenNode.AllOrdered container.line outer

theorem OpenNode.AllOrdered.mono {seen later : Nat} {containers : List OpenNode}
    (ordered : AllOrdered seen containers) (advance : seen ≤ later) :
    AllOrdered later containers := by
  cases containers with
  | nil => trivial
  | cons container outer => exact ⟨ordered.1.mono advance, ordered.2⟩

namespace Assembly

/-- An assembly in order, with nothing after the line `seen`. -/
structure Ordered (seen : Nat) (assembly : Assembly) : Prop where
  pending : OpenNode.AllOrdered seen assembly.pending
  root : ∀ root, assembly.root = some root → root.Ordered

variable {assembly : Assembly} {seen later : Nat}

theorem Ordered.mono (ordered : Ordered seen assembly) (advance : seen ≤ later) :
    Ordered later assembly :=
  ⟨ordered.pending.mono advance, ordered.root⟩

/-- A node that starts after all that its container holds keeps the order. -/
theorem Ordered.attach (ordered : Ordered seen assembly) {node : Node} (tree : node.Ordered)
    (after : seen ≤ node.line) (advance : node.line ≤ later) :
    Ordered later (assembly.attach node) := by
  obtain ⟨containers, root⟩ := assembly
  obtain ⟨pending, roots⟩ := ordered
  cases containers with
  | nil =>
      refine ⟨trivial, ?_⟩
      intro attached isRoot
      cases root with
      | none =>
          cases isRoot
          exact tree
      | some earlier => exact roots attached isRoot
  | cons container outer =>
      obtain ⟨inner, around⟩ := pending
      cases container with
      | sequence line items =>
          exact ⟨⟨inner.add_item tree after advance, around⟩, roots⟩
      | mapping line entries key =>
          cases key with
          | none => exact ⟨⟨inner.add_key tree after advance, around⟩, roots⟩
          | some key =>
              have keyLine := inner.waiting_key.1
              exact
                ⟨⟨inner.add_value tree (by omega) (by omega), around⟩, roots⟩

/-- A missing node moves back at most to something that its container holds, so the order holds
with its line as the bound. -/
theorem Ordered.nullLine (ordered : Ordered seen assembly) {marked : Nat}
    (after : seen ≤ marked) :
    assembly.nullLine marked ≤ marked ∧ Ordered (assembly.nullLine marked) assembly := by
  obtain ⟨containers, root⟩ := assembly
  obtain ⟨pending, roots⟩ := ordered
  cases containers with
  | nil => exact ⟨Nat.le_refl marked, trivial, roots⟩
  | cons container outer =>
      obtain ⟨inner, around⟩ := pending
      cases container with
      | sequence line items =>
          cases items with
          | nil =>
              obtain ⟨notAfter, bounded⟩ := inner.no_item
              exact ⟨Nat.le_trans notAfter after, ⟨bounded, around⟩, roots⟩
          | cons last earlier =>
              obtain ⟨notAfter, bounded⟩ := inner.last_item
              exact ⟨Nat.le_trans notAfter after, ⟨bounded, around⟩, roots⟩
      | mapping line entries key =>
          cases key with
          | none => exact ⟨Nat.le_refl marked, ⟨inner.mono after, around⟩, roots⟩
          | some key =>
              obtain ⟨notAfter, bounded⟩ := inner.waiting_key
              exact ⟨Nat.le_trans notAfter after, ⟨bounded, around⟩, roots⟩

theorem Ordered.close (ordered : Ordered seen assembly) : Ordered seen assembly.close := by
  obtain ⟨containers, root⟩ := assembly
  obtain ⟨pending, roots⟩ := ordered
  cases containers with
  | nil => exact ⟨trivial, roots⟩
  | cons container outer =>
      obtain ⟨inner, around⟩ := pending
      have outside : Ordered container.line ⟨outer, root⟩ := ⟨around, roots⟩
      cases container with
      | sequence line items =>
          exact outside.attach inner.tree_sequence (Nat.le_refl line) inner.line_le
      | mapping line entries key =>
          cases key with
          | none =>
              exact outside.attach inner.tree_mapping (Nat.le_refl line) inner.line_le
          | some key =>
              have completed :
                  OpenNode.Ordered seen
                    (.mapping line ((key, .scalar key.line "") :: entries) none) :=
                inner.add_value .scalar (Nat.le_refl _) (Nat.le_refl _)
              exact outside.attach completed.tree_mapping (Nat.le_refl line) inner.line_le

/-- An event that is marked after all that came before keeps the order. -/
theorem Ordered.feed (ordered : Ordered seen assembly) {event : Event}
    (after : seen ≤ event.line) : Ordered event.line (assembly.feed event) := by
  obtain ⟨marked, kind⟩ := event
  have bounded : Ordered marked assembly := ordered.mono after
  cases kind with
  | scalar text style =>
      by_cases missing : (Event.mk marked (.scalar text style)).isImplicitNull = true
      · obtain ⟨back, atNull⟩ := ordered.nullLine after
        simp only [Assembly.feed, missing, if_true]
        exact atNull.attach .scalar (Nat.le_refl _) back
      · simp only [Assembly.feed, missing]
        exact ordered.attach .scalar after (Nat.le_refl marked)
  | «alias» => exact ordered.attach .scalar after (Nat.le_refl marked)
  | sequenceStart => exact ⟨⟨.empty_sequence marked, bounded.pending⟩, ordered.root⟩
  | mappingStart => exact ⟨⟨.empty_mapping marked, bounded.pending⟩, ordered.root⟩
  | sequenceEnd => exact bounded.close
  | mappingEnd => exact bounded.close
  | streamStart => exact bounded
  | streamEnd => exact bounded
  | documentStart => exact bounded
  | documentEnd => exact bounded

theorem Ordered.foldl_feed {events : List Event} (ordered : Ordered seen assembly)
    (marks : (events.map Event.line).Pairwise (· ≤ ·))
    (after : ∀ event ∈ events, seen ≤ event.line) :
    ∀ root, (events.foldl Assembly.feed assembly).root = some root → root.Ordered := by
  induction events generalizing assembly seen with
  | nil => exact ordered.root
  | cons event later inductionHypothesis =>
      rw [List.map_cons, List.pairwise_cons] at marks
      have fed := ordered.feed (after event List.mem_cons_self)
      apply inductionHypothesis fed marks.2
      intro other member
      exact marks.1 other.line (List.mem_map_of_mem member)

theorem ofEvents_ordered {events : List Event}
    (marks : (events.map Event.line).Pairwise (· ≤ ·)) : (ofEvents events).Ordered := by
  have empty : Ordered 0 {} := ⟨trivial, nofun⟩
  exact .document <| empty.foldl_feed marks fun event _ => Nat.zero_le event.line

end Assembly

/-! ## Walks -/

namespace Walk

theorem Enters.le_of_ordered {node entered : Node} {step : Step} {last : Nat}
    (enters : Enters node step last entered) (ordered : node.Ordered) :
    node.line ≤ last ∧ last ≤ entered.line ∧ entered.Ordered := by
  cases enters with
  | key found => exact ordered.of_pair? found
  | element found present =>
      obtain ⟨keyLine, valueLine, valueOrdered⟩ := ordered.of_pair? found
      obtain ⟨itemLine, itemOrdered⟩ := valueOrdered.of_item? present
      exact ⟨by omega, Nat.le_refl _, itemOrdered⟩

theorem Misses.le_of_ordered {node : Node} {step : Step} {kept : Nat} {note : Note}
    (misses : Misses node node.line step kept note) (ordered : node.Ordered) :
    node.line ≤ kept := by
  cases misses with
  | key => exact Nat.le_refl _
  | element found =>
      obtain ⟨keyLine, valueLine, _⟩ := ordered.of_pair? found
      omega

/-- A walk never ends before the node that it starts from. -/
theorem line_le_descend {node : Node} (ordered : node.Ordered) (steps : List Step) :
    node.line ≤ (descend node node.line steps).1.line := by
  induction steps generalizing node with
  | nil => exact Nat.le_refl _
  | cons step later inductionHypothesis =>
      rcases enters_or_misses node node.line step with
        ⟨last, entered, enters⟩ | ⟨kept, note, misses⟩
      · obtain ⟨atLast, below, enteredOrdered⟩ := enters.le_of_ordered ordered
        by_cases more : later = []
        · subst more
          rw [descend_last enters]
          exact atLast
        · rw [descend_onward enters more]
          have rest := inductionHypothesis enteredOrdered
          omega
      · rw [descend_of_misses misses]
        exact misses.le_of_ordered ordered

/-- Extending the steps of a walk that is resolved never leads back. -/
theorem descend_le_descend_append {node : Node} (ordered : node.Ordered) {steps : List Step}
    (line : Nat) (resolved : (descend node line steps).1.progress = .resolved)
    (others : List Step) :
    (descend node line steps).1.line ≤ (descend node line (steps ++ others)).1.line := by
  induction steps generalizing node line with
  | nil => simp [descend] at resolved
  | cons step later inductionHypothesis =>
      rw [List.cons_append]
      rcases enters_or_misses node line step with
        ⟨last, entered, enters⟩ | ⟨kept, note, misses⟩
      · obtain ⟨_, below, enteredOrdered⟩ := enters.le_of_ordered ordered
        by_cases ends : later = []
        · subst ends
          rw [descend_last enters, List.nil_append]
          by_cases more : others = []
          · subst more
            have same : descend node line [step] = (⟨last, .resolved⟩, []) :=
              descend_last enters
            exact Nat.le_of_eq (congrArg (fun walk => walk.1.line) same.symm)
          -- The longer walk goes on below the line on which the shorter one ends.
          · rw [descend_onward enters more]
            exact Nat.le_trans below (line_le_descend enteredOrdered others)
        · have longer : later ++ others ≠ [] := by simp [ends]
          rw [descend_onward enters ends] at resolved ⊢
          rw [descend_onward enters longer]
          exact inductionHypothesis enteredOrdered entered.line resolved
      · rw [descend_of_misses misses] at resolved
        simp [stop] at resolved

/-- If the marks of a stream never decrease, its document is in order, and a walk that is
resolved does not end after one that follows its path further. -/
theorem follow_le_follow_append {events : List Event}
    (marks : (events.map Event.line).Pairwise (· ≤ ·)) :
    (Assembly.ofEvents events).Ordered ∧
      ∀ (steps others : List Step) (start : Nat),
        (follow (Assembly.ofEvents events) steps start).1.progress = .resolved →
          (follow (Assembly.ofEvents events) steps start).1.line ≤
            (follow (Assembly.ofEvents events) (steps ++ others) start).1.line := by
  have ordered := Assembly.ofEvents_ordered marks
  refine ⟨ordered, ?_⟩
  intro steps others start resolved
  unfold follow at resolved ⊢
  rcases content : (Assembly.ofEvents events).content? with _ | root
  · simp [content, stop] at resolved
  · rw [content] at resolved
    have rootOrdered : root.Ordered := by
      unfold Assembly.ofEvents Assembly.finish at content ordered
      cases ordered with
      | document roots => exact roots root content
    exact descend_le_descend_append rootOrdered start resolved others

/-- A missing element, marked on line 9, is on the line of its sequence, line 2. -/
theorem follow_le_follow_append_missing_item :
    let events : List Event :=
      [⟨1, .mappingStart⟩, ⟨1, .scalar "a" .plain⟩, ⟨2, .sequenceStart⟩,
        ⟨9, .scalar "" .plain⟩, ⟨9, .sequenceEnd⟩, ⟨9, .mappingEnd⟩]
    (events.map Event.line).Pairwise (· ≤ ·) ∧
      (follow (Assembly.ofEvents events) [.key "a"] 5).1 = ⟨1, .resolved⟩ ∧
      (follow (Assembly.ofEvents events) [.element "a" 0] 5).1 = ⟨2, .resolved⟩ ∧
      (follow (Assembly.ofEvents events) [.element "a" 0] 5).1.line ≤
        (follow (Assembly.ofEvents events) ([.element "a" 0] ++ [.key "b"]) 5).1.line := by
  intro events
  have marks : (events.map Event.line).Pairwise (· ≤ ·) := by decide
  exact ⟨marks, rfl, rfl, (follow_le_follow_append marks).2 _ _ 5 rfl⟩

end Walk
end FieldLine
