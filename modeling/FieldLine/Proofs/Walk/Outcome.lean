import FieldLine.Proofs.Walk.Steps
import Mathlib.Data.List.Basic

/-!
# Where a walk ends

A step leads from a node to the value under its name or, if it has an index, to an element of that
value.  A walk ends where its steps lead or, if they lead nowhere, where the first step that fails
leaves it.
-/

namespace FieldLine
namespace Walk

/-! ## Where steps lead -/

/-- The key and the value of the first entry of a mapping whose key is a scalar with exactly this
name. -/
inductive FirstEntry (name : String) : Node → Node → Node → Prop where
  | intro {line keyLine : Nat} {value : Node} {earlier later : List (Node × Node)} :
      (∀ entry ∈ earlier, ∀ other : Nat, entry.1 ≠ .scalar other name) →
      FirstEntry name (.mapping line (earlier ++ (.scalar keyLine name, value) :: later))
        (.scalar keyLine name) value

inductive Element (index : Nat) : Node → Node → Prop where
  | intro {line : Nat} {items : List Node} {item : Node} :
      items[index]? = some item → Element index (.sequence line items) item

inductive LeadsTo (current : Node) : Step → Node → Prop where
  | key {name : String} {key value : Node} :
      FirstEntry name current key value → LeadsTo current (.key name) value
  | element {name : String} {index : Nat} {key value item : Node} :
      FirstEntry name current key value → Element index value item →
      LeadsTo current (.element name index) item

inductive LeadThrough : Node → List Step → Node → Prop where
  | here {node : Node} : LeadThrough node [] node
  | onward {current entered reached : Node} {step : Step} {later : List Step} :
      LeadsTo current step entered → LeadThrough entered later reached →
      LeadThrough current (step :: later) reached

/-! ## Where a walk ends -/

/-- The line on which a walk stands that has come to a node by some steps: the start line, unless it
has taken a step. -/
def lineAfter (start : Nat) (steps : List Step) (reached : Node) : Nat :=
  if steps = [] then start else reached.line

/-- How a walk from the content of a document ends, and what is noted. -/
inductive EndsFrom (content : Node) (start : Nat) : List Step → Walk → List Note → Prop where
  | noSteps : EndsFrom content start [] ⟨start, .descending⟩ []
  /-- All steps lead somewhere, and the last has no index: the line of the key counts. -/
  | key {before : List Step} {name : String} {reached key value : Node} :
      LeadThrough content before reached → FirstEntry name reached key value →
      EndsFrom content start (before ++ [.key name]) ⟨key.line, .resolved⟩ []
  /-- All steps lead somewhere, and the last has an index: the line of the element counts. -/
  | element {before : List Step} {name : String} {index : Nat} {reached item : Node} :
      LeadThrough content before reached → LeadsTo reached (.element name index) item →
      EndsFrom content start (before ++ [.element name index]) ⟨item.line, .resolved⟩ []
  | keyMissing {before later : List Step} {step : Step} {reached : Node} :
      LeadThrough content before reached →
      (∀ key value : Node, ¬ FirstEntry step.name reached key value) →
      EndsFrom content start (before ++ step :: later)
        ⟨lineAfter start before reached, .fallenBack⟩
        [.keyMissing step.name reached.kind reached.line (lineAfter start before reached)]
  | elementMissing {before later : List Step} {name : String} {index : Nat}
      {reached key value : Node} :
      LeadThrough content before reached → FirstEntry name reached key value →
      (∀ item : Node, ¬ Element index value item) →
      EndsFrom content start (before ++ .element name index :: later) ⟨value.line, .fallenBack⟩
        [.elementMissing index value.kind name value.line value.line]

inductive Ends (root : Node) (start : Nat) (steps : List Step) : Walk → List Note → Prop where
  | noContent :
      (∀ (line : Nat) (content : Node), root ≠ .document line (some content)) →
      Ends root start steps ⟨start, .fallenBack⟩ [.noContent start]
  | content {line : Nat} {content : Node} {walk : Walk} {notes : List Note} :
      root = .document line (some content) → EndsFrom content start steps walk notes →
      Ends root start steps walk notes

/-! ## Looking up -/

theorem pair?_eq_some_iff {node key value : Node} {name : String} :
    node.pair? name = some (key, value) ↔ FirstEntry name node key value := by
  constructor
  · intro found
    cases node with
    | document => cases found
    | sequence => cases found
    | scalar => cases found
    | mapping line entries =>
        obtain ⟨named, earlier, later, whole, others⟩ := List.find?_eq_some_iff_append.mp found
        cases key with
        | document => simp [Node.text?] at named
        | mapping => simp [Node.text?] at named
        | sequence => simp [Node.text?] at named
        | scalar keyLine text =>
            have same : text = name := by simpa [Node.text?] using named
            rw [whole, same]
            refine .intro ?_
            intro entry member other scalar
            have unnamed := others entry member
            simp [scalar, Node.text?] at unnamed
  · rintro ⟨others⟩
    refine List.find?_eq_some_iff_append.mpr ⟨?_, _, _, rfl, ?_⟩
    · simp [Node.text?]
    · intro entry member
      have unnamed := others entry member
      cases key : entry.1 with
      | document => rfl
      | mapping => rfl
      | sequence => rfl
      | scalar other text =>
          have different : text ≠ name := by
            rintro rfl
            exact unnamed other key
          simpa [Node.text?] using different

theorem item?_eq_some_iff {node item : Node} {index : Nat} :
    node.item? index = some item ↔ Element index node item := by
  constructor
  · intro found
    cases node with
    | document => cases found
    | mapping => cases found
    | scalar => cases found
    | sequence line items => exact .intro found
  · rintro ⟨found⟩
    exact found

theorem pair?_eq_none_iff {node : Node} {name : String} :
    node.pair? name = none ↔ ∀ key value : Node, ¬ FirstEntry name node key value := by
  rw [Option.eq_none_iff_forall_ne_some]
  constructor
  · intro missing key value entry
    exact missing (key, value) (pair?_eq_some_iff.mpr entry)
  · rintro missing ⟨key, value⟩ found
    exact missing key value (pair?_eq_some_iff.mp found)

theorem item?_eq_none_iff {node : Node} {index : Nat} :
    node.item? index = none ↔ ∀ item : Node, ¬ Element index node item := by
  rw [Option.eq_none_iff_forall_ne_some]
  exact forall_congr' fun item => not_congr item?_eq_some_iff

/-! ## Steps of a walk -/

variable {current entered reached content : Node} {start line last kept : Nat} {step : Step}
  {before later rest steps : List Step}

theorem LeadsTo.enters (leads : LeadsTo current step entered) :
    ∃ last : Nat, Enters current step last entered := by
  cases leads with
  | key entry => exact ⟨_, .key (pair?_eq_some_iff.mpr entry)⟩
  | element entry element =>
      exact ⟨_, .element (pair?_eq_some_iff.mpr entry) (item?_eq_some_iff.mpr element)⟩

theorem Enters.leadsTo (enters : Enters current step last entered) :
    LeadsTo current step entered := by
  cases enters with
  | key found => exact .key (pair?_eq_some_iff.mp found)
  | element found present =>
      exact .element (pair?_eq_some_iff.mp found) (item?_eq_some_iff.mp present)

theorem lineAfter_of_through (through : LeadThrough current before reached) :
    lineAfter current.line before reached = reached.line := by
  cases through with
  | here => rfl
  | onward => rfl

/-- Steps that lead somewhere are taken, if others follow. -/
theorem descend_through (through : LeadThrough current before reached) (line : Nat)
    (more : rest ≠ []) :
    descend current line (before ++ rest) =
      descend reached (lineAfter line before reached) rest := by
  induction through generalizing line with
  | here => rfl
  | @onward current entered reached step later leads others inductionHypothesis =>
      obtain ⟨last, enters⟩ := leads.enters
      have longer : later ++ rest ≠ [] := by simp [more]
      rw [List.cons_append, descend_onward enters longer, inductionHypothesis,
        lineAfter_of_through others]
      rfl

/-- Some steps lead to a node from which the next one is the last, or leads nowhere. -/
theorem exists_through (current : Node) (line : Nat) (someStep : steps ≠ []) :
    ∃ (before : List Step) (step : Step) (later : List Step) (reached : Node),
      steps = before ++ step :: later ∧ LeadThrough current before reached ∧
        ((later = [] ∧ ∃ (last : Nat) (entered : Node), Enters reached step last entered) ∨
          ∃ (kept : Nat) (note : Note),
            Misses reached (lineAfter line before reached) step kept note) := by
  induction steps generalizing current line with
  | nil => exact absurd rfl someStep
  | cons step later inductionHypothesis =>
      rcases enters_or_misses current line step with
        ⟨last, entered, enters⟩ | ⟨kept, note, misses⟩
      · by_cases ends : later = []
        · exact ⟨[], step, later, current, rfl, .here, .inl ⟨ends, last, entered, enters⟩⟩
        · obtain ⟨before, next, others, reached, whole, through, outcome⟩ :=
            inductionHypothesis entered entered.line ends
          rw [lineAfter_of_through through] at outcome
          exact
            ⟨step :: before, next, others, reached, congrArg (step :: ·) whole,
              .onward enters.leadsTo through, outcome⟩
      · exact ⟨[], step, later, current, rfl, .here, .inr ⟨kept, note, misses⟩⟩

theorem Enters.endsFrom (enters : Enters reached step last entered)
    (through : LeadThrough content before reached) :
    EndsFrom content start (before ++ [step]) ⟨last, .resolved⟩ [] := by
  cases enters with
  | key found => exact .key through (pair?_eq_some_iff.mp found)
  | element found present =>
      have leads := (Enters.element found present).leadsTo
      exact .element through leads

theorem Misses.endsFrom {note : Note}
    (misses : Misses reached (lineAfter start before reached) step kept note)
    (through : LeadThrough content before reached) :
    EndsFrom content start (before ++ step :: later) ⟨kept, .fallenBack⟩ [note] := by
  cases misses with
  | key missing => exact .keyMissing through (pair?_eq_none_iff.mp missing)
  | element found missing =>
      exact .elementMissing through (pair?_eq_some_iff.mp found) (item?_eq_none_iff.mp missing)

theorem endsFrom_descend (content : Node) (start : Nat) (steps : List Step) :
    EndsFrom content start steps (descend content start steps).1
      (descend content start steps).2 := by
  by_cases someStep : steps = []
  · subst someStep
    exact .noSteps
  · obtain ⟨before, step, later, reached, whole, through, outcome⟩ :=
      exists_through content start someStep
    rw [whole, descend_through through start (List.cons_ne_nil step later)]
    rcases outcome with ⟨ends, last, entered, enters⟩ | ⟨kept, note, misses⟩
    · rw [ends, descend_last enters]
      exact enters.endsFrom through
    · rw [descend_of_misses misses]
      exact misses.endsFrom through

theorem descend_of_endsFrom {walk : Walk} {notes : List Note}
    (ends : EndsFrom content start steps walk notes) :
    descend content start steps = (walk, notes) := by
  cases ends with
  | noSteps => rfl
  | key through entry =>
      rw [descend_through through start (List.cons_ne_nil _ _)]
      exact descend_last (.key (pair?_eq_some_iff.mpr entry))
  | element through leads =>
      rw [descend_through through start (List.cons_ne_nil _ _)]
      cases leads with
      | element entry element =>
          exact
            descend_last
              (.element (pair?_eq_some_iff.mpr entry) (item?_eq_some_iff.mpr element))
  | keyMissing through missing =>
      rw [descend_through through start (List.cons_ne_nil _ _)]
      exact descend_of_misses (.key (pair?_eq_none_iff.mpr missing))
  | elementMissing through entry missing =>
      rw [descend_through through start (List.cons_ne_nil _ _)]
      exact
        descend_of_misses
          (.element (pair?_eq_some_iff.mpr entry) (item?_eq_none_iff.mpr missing))

/-! ## Whole walks -/

theorem content?_eq_some_iff {root content : Node} :
    root.content? = some content ↔ ∃ line : Nat, root = .document line (some content) := by
  constructor
  · intro present
    cases root with
    | document line held => exact ⟨line, congrArg (Node.document line) present⟩
    | mapping => cases present
    | sequence => cases present
    | scalar => cases present
  · rintro ⟨line, rfl⟩
    rfl

theorem content?_eq_none_iff {root : Node} :
    root.content? = none ↔
      ∀ (line : Nat) (content : Node), root ≠ .document line (some content) := by
  rw [Option.eq_none_iff_forall_ne_some]
  constructor
  · intro missing line content same
    exact missing content (content?_eq_some_iff.mpr ⟨line, same⟩)
  · intro missing content present
    obtain ⟨line, same⟩ := content?_eq_some_iff.mp present
    exact missing line content same

theorem ends_follow (root : Node) (start : Nat) (steps : List Step) :
    Ends root start steps (follow root steps start).1 (follow root steps start).2 := by
  rw [follow]
  rcases present : root.content? with _ | content
  · exact .noContent (content?_eq_none_iff.mp present)
  · obtain ⟨line, same⟩ := content?_eq_some_iff.mp present
    exact .content same (endsFrom_descend content start steps)

theorem follow_of_ends {root : Node} {walk : Walk} {notes : List Note}
    (ends : Ends root start steps walk notes) : follow root steps start = (walk, notes) := by
  cases ends with
  | noContent empty =>
      rw [follow, content?_eq_none_iff.mpr empty]
      rfl
  | content same endsFrom =>
      rw [follow, content?_eq_some_iff.mpr ⟨_, same⟩]
      exact descend_of_endsFrom endsFrom

theorem Ends.levels {root : Node} {walk : Walk} {notes : List Note}
    (ends : Ends root start steps walk notes) :
    notes.map Note.level = if walk.progress = .fallenBack then [.debug] else [] := by
  cases ends with
  | noContent => rfl
  | content _ endsFrom =>
      cases endsFrom with
      | noSteps => rfl
      | key => rfl
      | element => rfl
      | keyMissing => rfl
      | elementMissing => rfl

/-- A walk ends, with its notes, as the places that its steps lead to say.  It is noted exactly
once, and at the lowest level, that a walk has fallen back. -/
theorem follow_eq_iff_ends (root : Node) (steps : List Step) (start : Nat) :
    (∀ (walk : Walk) (notes : List Note),
        follow root steps start = (walk, notes) ↔ Ends root start steps walk notes) ∧
      (follow root steps start).2.map Note.level =
        if (follow root steps start).1.progress = .fallenBack then [.debug] else [] := by
  refine ⟨?_, (ends_follow root start steps).levels⟩
  intro walk notes
  constructor
  · intro result
    have ends := ends_follow root start steps
    rw [result] at ends
    exact ends
  · exact follow_of_ends

end Walk
end FieldLine
