import FieldLine.Walk

/-!
# What one step of a walk does

A step looks its name up in the current node, and its index, if it has one, in the value.  Either
it enters a node, from which the walk goes on unless this was the last step, or it misses one, and
the walk stops.
-/

namespace FieldLine
namespace Walk

/-- A step from a node enters another one.  As the last step it leads to the line `last`. -/
inductive Enters (current : Node) : Step → Nat → Node → Prop where
  | key {name : String} {key value : Node} :
      current.pair? name = some (key, value) →
      Enters current (.key name) key.line value
  | element {name : String} {index : Nat} {key value item : Node} :
      current.pair? name = some (key, value) → value.item? index = some item →
      Enters current (.element name index) item.line item

/-- A step from a node, taken on a line, finds nothing and keeps the line `kept`. -/
inductive Misses (current : Node) (line : Nat) : Step → Nat → Note → Prop where
  | key {step : Step} :
      current.pair? step.name = none →
      Misses current line step line (.keyMissing step.name current.kind current.line line)
  | element {name : String} {index : Nat} {key value : Node} :
      current.pair? name = some (key, value) → value.item? index = none →
      Misses current line (.element name index) value.line
        (.elementMissing index value.kind name value.line value.line)

theorem enters_or_misses (current : Node) (line : Nat) (step : Step) :
    (∃ (last : Nat) (entered : Node), Enters current step last entered) ∨
      ∃ (kept : Nat) (note : Note), Misses current line step kept note := by
  rcases found : current.pair? step.name with _ | ⟨key, value⟩
  · exact .inr ⟨line, _, .key found⟩
  · cases step with
    | key name => exact .inl ⟨key.line, value, .key found⟩
    | element name index =>
        rcases present : value.item? index with _ | item
        · exact .inr ⟨value.line, _, .element found present⟩
        · exact .inl ⟨item.line, item, .element found present⟩

variable {current entered : Node} {line last kept : Nat} {step : Step} {later : List Step}

theorem descend_of_misses {note : Note} (misses : Misses current line step kept note) :
    descend current line (step :: later) = stop kept note := by
  cases misses with
  | key missing => rw [descend, missing]
  | element found missing =>
      rw [descend, Step.name, found]
      simp only [missing]

theorem descend_last (enters : Enters current step last entered) :
    descend current line [step] = (⟨last, .resolved⟩, []) := by
  cases enters with
  | key found => rw [descend, Step.name, found]
  | element found present =>
      rw [descend, Step.name, found]
      simp only [present]

theorem descend_onward (enters : Enters current step last entered) (more : later ≠ []) :
    descend current line (step :: later) = descend entered entered.line later := by
  cases later with
  | nil => exact absurd rfl more
  | cons next others =>
      cases enters with
      | key found => rw [descend, Step.name, found]
      | element found present =>
          rw [descend, Step.name, found]
          simp only [present]

end Walk
end FieldLine
