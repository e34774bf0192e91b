import FieldLine.Proofs.Violation.Loading
import Mathlib.Data.List.OfFn
import Mathlib.Logic.Equiv.Defs

/-!
# Records of a batch do not disturb each other

If loads go by the name of the file alone, what a batch remembers of them cannot be told from
loading again.  Each record then has the answer that it has as the only record of a batch, so
batches can be put together, taken apart and put in another order.
-/

namespace FieldLine
namespace Batch

variable {σ : Type} {load : Loader σ}

/-- The answer to a record whose file is loaded for it alone. -/
def freshAnswer (load : Loader σ) (config : Config) (state : σ) (violation : Violation) :
    ResolvedViolation × List Note :=
  resolveOne config (source config (load violation.file state).1) violation

/-- Whatever has been loaded in between, the load of a file has given what it gives at any time. -/
theorem eq_of_lookup_loadAll
    (byName : ∀ file state other, (load file state).1 = (load file other).1)
    {state : σ} {files : List String} {file : String} {loaded : Loaded}
    (found : (loadAll load state files).1.lookup file = some loaded) (other : σ) :
    loaded = (load file other).1 := by
  induction files generalizing state with
  | nil => cases found
  | cons first later inductionHypothesis =>
      rw [loadAll_cons, List.lookup_cons] at found
      by_cases same : file = first
      · subst same
        rw [beq_self_eq_true] at found
        cases found
        exact byName file state other
      · rw [beq_false_of_ne same] at found
        exact inductionHypothesis found

theorem eq_freshAnswer_of_answered
    (byName : ∀ file state other, (load file state).1 = (load file other).1)
    {config : Config} {state : σ} {files : List String} {violation : Violation}
    {answer : ResolvedViolation × List Note}
    (answered : Answered config (loadAll load state files).1 violation answer) (other : σ) :
    answer = freshAnswer load config other violation := by
  obtain ⟨loaded, found, rfl⟩ := answered
  rw [freshAnswer, eq_of_lookup_loadAll byName found other]

/-- A batch answers each record as if its file had been loaded for it alone, at any time. -/
theorem run_eq_map_freshAnswer
    (byName : ∀ file state other, (load file state).1 = (load file other).1)
    (config : Config) (first other : σ) (violations : List Violation) :
    (run load config first violations).resolved =
        violations.map (fun violation => (freshAnswer load config other violation).1) ∧
      (run load config first violations).notes =
        violations.flatMap (fun violation => (freshAnswer load config other violation).2) := by
  obtain ⟨answers, each, result⟩ := run_answers load config first violations
  have fresh : List.Forall₂ (· = ·) answers
      (violations.map (freshAnswer load config other)) := by
    rw [List.forall₂_map_right_iff]
    refine each.flip.imp ?_
    intro answer violation answered
    exact eq_freshAnswer_of_answered byName answered other
  rw [List.forall₂_eq_eq_eq] at fresh
  rw [result, fresh, List.map_map, List.flatMap_map]
  exact ⟨rfl, rfl⟩

/-- With a loader that goes by the name alone, a batch gives for each record, in order, the answer
and the notes that the record gives as a batch of its own, whatever the loaders have loaded before.
So two batches put together give what they give one after the other, records in another order give
their answers and their notes in that order, and a record that occurs twice has the same answer
twice. -/
theorem run_eq_map_run_singleton (load : Loader σ)
    (byName : ∀ file state other, (load file state).1 = (load file other).1) (config : Config)
    (start : List Violation → σ) :
    let answers (violations : List Violation) : List ResolvedViolation :=
      (run load config (start violations) violations).resolved
    let notes (violations : List Violation) : List Note :=
      (run load config (start violations) violations).notes
    (∀ violations : List Violation,
        (answers violations).map (fun answer => [answer]) =
            violations.map (fun violation => answers [violation]) ∧
          notes violations = violations.flatMap (fun violation => notes [violation])) ∧
      (∀ earlier later : List Violation,
        answers (earlier ++ later) = answers earlier ++ answers later ∧
          notes (earlier ++ later) = notes earlier ++ notes later) ∧
      (∀ (n : Nat) (records : Fin n → Violation),
        ∃ (resolved : Fin n → ResolvedViolation) (noted : Fin n → List Note),
          ∀ order : Equiv.Perm (Fin n),
            answers (List.ofFn (records ∘ order)) = List.ofFn (resolved ∘ order) ∧
              notes (List.ofFn (records ∘ order)) = (List.ofFn (noted ∘ order)).flatten) ∧
      ∀ (violations : List Violation) (i j : Nat),
        violations[i]? = violations[j]? →
          (answers violations)[i]? = (answers violations)[j]? := by
  intro answers notes
  let answer := freshAnswer load config (start [])
  have answersEq (violations : List Violation) :
      answers violations = violations.map (fun violation => (answer violation).1) :=
    (run_eq_map_freshAnswer byName config (start violations) (start []) violations).1
  have notesEq (violations : List Violation) :
      notes violations = violations.flatMap (fun violation => (answer violation).2) :=
    (run_eq_map_freshAnswer byName config (start violations) (start []) violations).2
  refine ⟨?_, ?_, ?_, ?_⟩
  · intro violations
    have alone (violation : Violation) : answers [violation] = [(answer violation).1] :=
      answersEq [violation]
    have aloneNotes (violation : Violation) : notes [violation] = (answer violation).2 := by
      rw [notesEq, List.flatMap_singleton]
    simp only [alone, aloneNotes]
    rw [answersEq, List.map_map]
    exact ⟨rfl, notesEq violations⟩
  · intro earlier later
    constructor
    · rw [answersEq, List.map_append, ← answersEq, ← answersEq]
    · rw [notesEq, List.flatMap_append, ← notesEq, ← notesEq]
  · intro n records
    refine ⟨fun i => (answer (records i)).1, fun i => (answer (records i)).2, fun order => ?_⟩
    rw [answersEq, notesEq, List.map_ofFn, List.flatMap_def, List.map_ofFn]
    exact ⟨rfl, rfl⟩
  · intro violations i j same
    rw [answersEq, List.getElem?_map, List.getElem?_map, same]

/-- A loader that counts its loads and knows one file. -/
def countingLoader : Loader Nat := fun file count =>
  (if file = "a.yaml" then .ok (Utf8.encode "k: 1\n") else .error ["no such file"], count + 1)

/-- Three records of two files take two loads, one of which fails. -/
theorem run_eq_map_run_singleton_counting :
    let found : Violation := { rule := "R", file := "a.yaml", path := "k", line := some 7 }
    let lost : Violation := { rule := "R", file := "b.yaml", path := "k", line := some 7 }
    let outcome := run countingLoader {} 0 [found, lost, found]
    (∀ file state other, (countingLoader file state).1 = (countingLoader file other).1) ∧
      outcome.loader = 2 ∧
      outcome.resolved =
        [⟨found, some 1, none⟩, ⟨lost, some 7, some "no such file"⟩, ⟨found, some 1, none⟩] ∧
      outcome.resolved.map (fun answer => [answer]) =
        [found, lost, found].map (fun record => (run countingLoader {} 0 [record]).resolved) := by
  intro found lost outcome
  have byName : ∀ file state other, (countingLoader file state).1 = (countingLoader file other).1 :=
    fun _ _ _ => rfl
  refine ⟨byName, rfl, by decide +kernel, ?_⟩
  exact ((run_eq_map_run_singleton countingLoader byName {} (fun _ => 0)).1 _).1

end Batch
end FieldLine
