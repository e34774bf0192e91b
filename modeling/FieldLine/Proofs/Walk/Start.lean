import FieldLine.Proofs.Walk.Steps

/-!
# The line from which a walk starts

The start line shows in a walk only where nothing matches: there is no content, there are no steps,
or the content has no entry for the first of them.  Then it is the line of the walk.
-/

namespace FieldLine
namespace Walk

/-- The first step finds the entry that it looks for. -/
def Starts (root : Node) (steps : List Step) : Prop :=
  ∃ (content : Node) (step : Step) (later : List Step) (pair : Node × Node),
    root.content? = some content ∧ steps = step :: later ∧
      content.pair? step.name = some pair

variable {root : Node} {steps : List Step}

/-- A walk that keeps the start line has come no further than all walks that do. -/
theorem follow_of_not_starts (nothing : ¬ Starts root steps) :
    ∃ progress : Progress, ∀ start : Nat, (follow root steps start).1 = ⟨start, progress⟩ := by
  rcases present : root.content? with _ | content
  · refine ⟨.fallenBack, fun start => ?_⟩
    rw [follow, present]
    rfl
  · rcases steps with _ | ⟨step, later⟩
    · refine ⟨.descending, fun start => ?_⟩
      rw [follow, present]
      rfl
    · rcases found : content.pair? step.name with _ | pair
      · refine ⟨.fallenBack, fun start => ?_⟩
        rw [follow, present]
        exact congrArg Prod.fst (descend_of_misses (.key found))
      · exact absurd ⟨content, step, later, pair, present, rfl, found⟩ nothing

theorem follow_of_starts (starts : Starts root steps) (start other : Nat) :
    follow root steps start = follow root steps other := by
  obtain ⟨content, step, later, pair, present, rfl, found⟩ := starts
  simp only [follow, present]
  rcases enters_or_misses content start step with ⟨last, entered, enters⟩ | ⟨kept, note, misses⟩
  · by_cases ends : later = []
    · rw [ends, descend_last enters, descend_last enters]
    · rw [descend_onward enters ends, descend_onward enters ends]
  · cases misses with
    | key missing =>
        rw [found] at missing
        cases missing
    | element entry missing =>
        rw [descend_of_misses (.element entry missing), descend_of_misses (.element entry missing)]

end Walk
end FieldLine
