import FieldLine.Proofs.Walk.Outcome

/-!
# Walks compose

A path can be cut in two.  Either its first part leads to a node, from which the second part goes on
as if that node were the content of a document, or the first part fails, and then what follows it
does not matter.
-/

namespace FieldLine
namespace Walk

variable {current entered reached content : Node} {step : Step} {before after : List Step}

theorem LeadThrough.concat (through : LeadThrough current before reached)
    (leads : LeadsTo reached step entered) : LeadThrough current (before ++ [step]) entered := by
  induction through with
  | here => exact .onward leads .here
  | onward first _ inductionHypothesis => exact .onward first (inductionHypothesis leads)

/-- Steps that lead somewhere are all taken. -/
theorem descend_resolved (through : LeadThrough current before reached) (someStep : before ≠ [])
    (line : Nat) : (descend current line before).1.progress = .resolved := by
  induction through generalizing line with
  | here => exact absurd rfl someStep
  | @onward current entered reached step later leads others inductionHypothesis =>
      obtain ⟨last, enters⟩ := leads.enters
      by_cases ends : later = []
      · rw [ends, descend_last enters]
      · rw [descend_onward enters ends]
        exact inductionHypothesis ends entered.line

/-- Steps that lead nowhere stop where the first of them fails, whatever steps follow. -/
theorem exists_stop (stuck : ∀ reached : Node, ¬ LeadThrough current before reached)
    (line : Nat) :
    ∃ (kept : Nat) (note : Note),
      ∀ after : List Step, descend current line (before ++ after) = stop kept note := by
  have someStep : before ≠ [] := by
    rintro rfl
    exact stuck current .here
  obtain ⟨earlier, step, later, reached, whole, through, outcome⟩ :=
    exists_through current line someStep
  rcases outcome with ⟨ends, last, entered, enters⟩ | ⟨kept, note, misses⟩
  · have leads := through.concat enters.leadsTo
    rw [← ends, ← whole] at leads
    exact absurd leads (stuck entered)
  · refine ⟨kept, note, fun after => ?_⟩
    rw [whole, List.append_assoc, List.cons_append,
      descend_through through line (List.cons_ne_nil step _), descend_of_misses misses]

theorem descend_append_of_stuck
    (stuck : ∀ reached : Node, ¬ LeadThrough current before reached) (line : Nat)
    (after : List Step) :
    descend current line (before ++ after) = descend current line before ∧
      (descend current line before).1.progress = .fallenBack := by
  obtain ⟨kept, note, stops⟩ := exists_stop stuck line
  have shorter := stops []
  rw [List.append_nil] at shorter
  rw [stops after, shorter]
  exact ⟨rfl, rfl⟩

/-- A walk of some steps is resolved or fallen back, and if it has fallen back, further steps do
not change it. -/
theorem descend_resolved_or_append (someStep : before ≠ []) (content : Node) (line : Nat) :
    (descend content line before).1.progress = .resolved ∨
      (descend content line before).1.progress = .fallenBack ∧
        ∀ after : List Step,
          descend content line (before ++ after) = descend content line before := by
  by_cases leads : ∃ reached : Node, LeadThrough content before reached
  · obtain ⟨reached, through⟩ := leads
    exact .inl (descend_resolved through someStep line)
  · have stuck := not_exists.mp leads
    exact
      .inr ⟨(descend_append_of_stuck stuck line []).2,
        fun after => (descend_append_of_stuck stuck line after).1⟩

theorem follow_resolved_or_append (someStep : before ≠ []) (root : Node) (start : Nat) :
    (follow root before start).1.progress = .resolved ∨
      (follow root before start).1.progress = .fallenBack ∧
        ∀ after : List Step, follow root (before ++ after) start = follow root before start := by
  simp only [follow]
  rcases root.content? with _ | content
  · exact .inr ⟨rfl, fun _ => rfl⟩
  · exact descend_resolved_or_append someStep content start

/-- Steps that lead from the content of a document to a node are followed by a walk from that node,
on its line.  If some of them fails, the walk falls back there, and steps after it change neither
the walk nor what is noted.  So a walk that has fallen back stays where it is however its path is
extended, and a walk is resolved if one along an extension of its path is. -/
theorem follow_append (content : Node) (line : Nat) (someStep : before ≠ []) (more : after ≠ [])
    (start : Nat) :
    (∀ (reached : Node) (other : Nat),
        LeadThrough content before reached →
          follow (.document line (some content)) (before ++ after) start =
            follow (.document other (some reached)) after reached.line) ∧
      ((∀ reached : Node, ¬ LeadThrough content before reached) →
        follow (.document line (some content)) (before ++ after) start =
            follow (.document line (some content)) before start ∧
          (follow (.document line (some content)) before start).1.progress = .fallenBack) ∧
      ∀ root : Node,
        ((follow root before start).1.progress = .fallenBack →
          follow root (before ++ after) start = follow root before start) ∧
        ((follow root (before ++ after) start).1.progress = .resolved →
          (follow root before start).1.progress = .resolved) := by
  refine ⟨?_, ?_, ?_⟩
  · intro reached other through
    have goesOn := descend_through through start more
    rw [lineAfter, if_neg someStep] at goesOn
    exact goesOn
  · intro stuck
    exact descend_append_of_stuck stuck start after
  · intro root
    rcases follow_resolved_or_append someStep root start with isResolved | ⟨isFallenBack, same⟩
    · refine ⟨?_, fun _ => isResolved⟩
      intro isFallenBack
      rw [isResolved] at isFallenBack
      cases isFallenBack
    · refine ⟨fun _ => same after, ?_⟩
      intro isResolved
      rw [same after, isFallenBack] at isResolved
      cases isResolved

/-- The first path leads to an element on line 2 and goes on below it.  The second one misses its
element, so what follows does not matter. -/
theorem follow_append_element :
    let item : Node := .mapping 2 [(.scalar 3 "b", .scalar 4 "c")]
    let content : Node := .mapping 1 [(.scalar 1 "a", .sequence 2 [item])]
    LeadThrough content [.element "a" 0] item ∧
      follow (.document 1 (some content)) ([.element "a" 0] ++ [.key "b"]) 9 =
        follow (.document 1 (some item)) [.key "b"] 2 ∧
      (follow (.document 1 (some item)) [.key "b"] 2).1 = ⟨3, .resolved⟩ ∧
      (follow (.document 1 (some content)) [.element "a" 5] 9).1 = ⟨2, .fallenBack⟩ ∧
      follow (.document 1 (some content)) ([.element "a" 5] ++ [.key "b"]) 9 =
        follow (.document 1 (some content)) [.element "a" 5] 9 := by
  intro item content
  have leads : LeadsTo content (.element "a" 0) item := Enters.leadsTo (.element rfl rfl)
  have through : LeadThrough content [.element "a" 0] item := .onward leads .here
  have goesOn :=
    (follow_append content 1 (List.cons_ne_nil (.element "a" 0) [])
      (List.cons_ne_nil (.key "b") []) 9).1 item 1 through
  have stays :=
    ((follow_append content 1 (List.cons_ne_nil (.element "a" 5) [])
      (List.cons_ne_nil (.key "b") []) 9).2.2 (.document 1 (some content))).1 rfl
  exact ⟨through, goesOn, rfl, rfl, stays⟩

end Walk
end FieldLine
