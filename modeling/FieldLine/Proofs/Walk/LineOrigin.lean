import FieldLine.Proofs.Walk.Outcome
import FieldLine.Proofs.Walk.Start
import Mathlib.Logic.Relation

/-!
# Where the line of a walk comes from

Unless nothing matches, the line of a walk is the line of a node inside the document, whatever line
the walk starts from.
-/

namespace FieldLine

/-! ## Nodes inside a tree -/

namespace Node

/-- A key or a value of a mapping, or an element of a sequence. -/
inductive IsPart : Node → Node → Prop where
  | key {line : Nat} {entries : List (Node × Node)} {key value : Node} :
      (key, value) ∈ entries → IsPart key (.mapping line entries)
  | value {line : Nat} {entries : List (Node × Node)} {key value : Node} :
      (key, value) ∈ entries → IsPart value (.mapping line entries)
  | element {line : Nat} {items : List Node} {item : Node} :
      item ∈ items → IsPart item (.sequence line items)

/-- A key, a value or an element at any depth. -/
def IsInside : Node → Node → Prop :=
  Relation.TransGen IsPart

/-- Some key of a mapping is a scalar with this text. -/
inductive HasKey (name : String) : Node → Prop where
  | intro {line keyLine : Nat} {entries : List (Node × Node)} {value : Node} :
      (.scalar keyLine name, value) ∈ entries → HasKey name (.mapping line entries)

theorem hasKey_iff {name : String} {node : Node} :
    HasKey name node ↔ ∃ pair : Node × Node, node.pair? name = some pair := by
  constructor
  · intro hasKey
    cases hasKey with
    | @intro line keyLine entries value member =>
        apply Option.ne_none_iff_exists'.mp
        intro missing
        have differs := List.find?_eq_none.mp missing _ member
        simp [text?] at differs
  · rintro ⟨⟨key, value⟩, found⟩
    cases Walk.pair?_eq_some_iff.mp found with
    | intro => exact .intro (List.mem_append_right _ List.mem_cons_self)

end Node

namespace Walk

variable {root content current reached entered key value : Node} {start : Nat} {name : String}
  {step : Step} {steps before : List Step}

theorem FirstEntry.isPart (entry : FirstEntry name current key value) :
    key.IsPart current ∧ value.IsPart current := by
  cases entry with
  | intro =>
      exact
        ⟨.key (List.mem_append_right _ List.mem_cons_self),
          .value (List.mem_append_right _ List.mem_cons_self)⟩

theorem Element.isPart {index : Nat} {item : Node} (element : Element index value item) :
    item.IsPart value := by
  cases element with
  | intro found => exact .element (List.mem_of_getElem? found)

theorem LeadsTo.isInside (leads : LeadsTo current step entered) : entered.IsInside current := by
  cases leads with
  | key entry => exact .single entry.isPart.2
  | element entry element => exact .tail (.single element.isPart) entry.isPart.2

theorem LeadThrough.reaches (through : LeadThrough current before reached) :
    Relation.ReflTransGen Node.IsPart reached current := by
  induction through with
  | here => exact .refl
  | onward leads _ inductionHypothesis =>
      exact inductionHypothesis.trans leads.isInside.to_reflTransGen

/-! ## Lines that a walk can have -/

/-- Nothing matches: the document has no content, there are no steps, or no key of the content has
the name of the first step. -/
inductive Unmatched (root : Node) : List Step → Prop where
  | noContent {steps : List Step} : root.content? = none → Unmatched root steps
  | noSteps : Unmatched root []
  | noKey {content : Node} {step : Step} {later : List Step} :
      root.content? = some content → ¬ content.HasKey step.name → Unmatched root (step :: later)

theorem unmatched_iff_not_starts : Unmatched root steps ↔ ¬ Starts root steps := by
  constructor
  · rintro unmatched ⟨content, step, later, pair, present, rfl, found⟩
    cases unmatched with
    | noContent missing =>
        rw [missing] at present
        cases present
    | noKey isContent noKey =>
        rw [isContent] at present
        cases present
        exact noKey (Node.hasKey_iff.mpr ⟨pair, found⟩)
  · intro nothing
    cases present : root.content? with
    | none => exact .noContent present
    | some content =>
        cases steps with
        | nil => exact .noSteps
        | cons step later =>
            apply Unmatched.noKey present
            intro hasKey
            obtain ⟨pair, found⟩ := Node.hasKey_iff.mp hasKey
            exact nothing ⟨content, step, later, pair, present, rfl, found⟩

theorem EndsFrom.exists_isInside {walk : Walk} {notes : List Note}
    (ends : EndsFrom content start steps walk notes) (present : root.content? = some content)
    (matched : ¬ Unmatched root steps) :
    ∃ node : Node, node.IsInside content ∧ walk.line = node.line := by
  cases ends with
  | noSteps => exact absurd .noSteps matched
  | key through entry => exact ⟨_, .trans_left (.single entry.isPart.1) through.reaches, rfl⟩
  | element through leads => exact ⟨_, .trans_left leads.isInside through.reaches, rfl⟩
  | keyMissing through missing =>
      cases through with
      | here =>
          refine absurd (.noKey present ?_) matched
          intro hasKey
          obtain ⟨⟨key, value⟩, found⟩ := Node.hasKey_iff.mp hasKey
          exact missing key value (pair?_eq_some_iff.mp found)
      | onward leads others => exact ⟨_, .trans_right others.reaches leads.isInside, rfl⟩
  | elementMissing through entry =>
      exact ⟨_, .trans_left (.single entry.isPart.2) through.reaches, rfl⟩

theorem exists_isInside_of_matched (matched : ¬ Unmatched root steps) (start : Nat) :
    ∃ content node : Node,
      root.content? = some content ∧ node.IsInside content ∧
        (follow root steps start).1.line = node.line := by
  cases present : root.content? with
  | none => exact absurd (.noContent present) matched
  | some content =>
      obtain ⟨node, inside, same⟩ :=
        (endsFrom_descend content start steps).exists_isInside present matched
      refine ⟨content, node, rfl, inside, ?_⟩
      rw [follow, present]
      exact same

/-- Two walks that differ in the line from which they start have come equally far.  If nothing
matches, each of them stays on the line from which it starts.  Otherwise both end on the same line,
which is the line of a key, a value or an element inside the document. -/
theorem follow_start_or_inside (root : Node) (steps : List Step) (start other : Nat) :
    (follow root steps start).1.progress = (follow root steps other).1.progress ∧
      (Unmatched root steps →
        (follow root steps start).1.line = start ∧ (follow root steps other).1.line = other) ∧
      (¬ Unmatched root steps →
        (follow root steps start).1.line = (follow root steps other).1.line ∧
          ∃ content node : Node,
            root.content? = some content ∧ node.IsInside content ∧
              (follow root steps start).1.line = node.line) := by
  by_cases starts : Starts root steps
  · have same := follow_of_starts starts start other
    have matched : ¬ Unmatched root steps := unmatched_iff_not_starts.not_left.mpr starts
    refine ⟨congrArg (·.1.progress) same, fun unmatched => absurd unmatched matched, ?_⟩
    intro _
    exact ⟨congrArg (·.1.line) same, exists_isInside_of_matched matched start⟩
  · obtain ⟨progress, kept⟩ := follow_of_not_starts starts
    have unmatched : Unmatched root steps := unmatched_iff_not_starts.mpr starts
    rw [kept start, kept other]
    exact ⟨rfl, fun _ => ⟨rfl, rfl⟩, fun matched => absurd unmatched matched⟩

/-- The first walk finds its key and misses the element, so that it ends on the line of the value.
The second one finds nothing. -/
theorem follow_start_or_inside_missing_element :
    let root : Node := .document 1 (some (.mapping 2 [(.scalar 2 "a", .sequence 3 [])]))
    ¬ Unmatched root [.element "a" 4] ∧
      (follow root [.element "a" 4] 8).1.line = (follow root [.element "a" 4] 9).1.line ∧
      (follow root [.element "a" 4] 8).1 = ⟨3, .fallenBack⟩ ∧
      Unmatched root [.key "b"] ∧
      (follow root [.key "b"] 8).1.line = 8 ∧ (follow root [.key "b"] 9).1.line = 9 := by
  intro root
  have matched : ¬ Unmatched root [.element "a" 4] :=
    unmatched_iff_not_starts.not_left.mpr ⟨_, _, _, _, rfl, rfl, rfl⟩
  have noEntry : ¬ Node.HasKey "b" (.mapping 2 [(.scalar 2 "a", .sequence 3 [])]) := by
    intro hasKey
    obtain ⟨pair, found⟩ := Node.hasKey_iff.mp hasKey
    cases found
  have unmatched : Unmatched root [.key "b"] := .noKey rfl noEntry
  obtain ⟨-, kept, -⟩ := follow_start_or_inside root [.key "b"] 8 9
  obtain ⟨-, -, found⟩ := follow_start_or_inside root [.element "a" 4] 8 9
  exact ⟨matched, (found matched).1, rfl, unmatched, kept unmatched⟩

end Walk
end FieldLine
