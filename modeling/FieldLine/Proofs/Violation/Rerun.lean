import FieldLine.Command.Run
import FieldLine.Proofs.Results
import FieldLine.Proofs.Violation.Loading
import FieldLine.Proofs.Violation.RoundTrip

/-!
# Batches that read what a batch has written

Every record that is read fits in 64 bits.  So what a batch writes as JSON can be read again, and
another batch on it writes the same once more.
-/

namespace FieldLine

namespace Violation

open Json (Cursor)

/-! ## Records in range -/

variable {cursor next : Cursor}

theorem lt_of_lineOfNumber {line : Nat} {number : Json.Number} {positive : Bool} {last : Cursor}
    (reads : Json.Number.read cursor positive = .ok (number, next))
    (isLine : lineOfNumber number next = .ok (some line, last)) : line < wordBound := by
  cases number with
  | natural value =>
      cases isLine
      exact Json.Number.lt_of_read_natural reads
  | negative magnitude => cases isLine
  | decimal text => cases isLine

theorem lt_of_readLine {line : Nat} (reads : readLine cursor = .ok (some line, next)) :
    line < wordBound := by
  rw [readLine] at reads
  split at reads
  · cases reads
  split at reads
  · obtain ⟨_, -, noLine⟩ := exists_of_map_eq_ok reads
    cases noLine
  split at reads
  · obtain ⟨_, readsNumber, isLine⟩ := exists_of_bind_eq_ok reads
    exact lt_of_lineOfNumber readsNumber isLine
  split at reads
  · obtain ⟨_, readsNumber, isLine⟩ := exists_of_bind_eq_ok reads
    exact lt_of_lineOfNumber readsNumber isLine
  · exact absurd reads (refuse_ne_ok _ _ _ _)

/-- The line of a draft, if one has been read, fits in 64 bits. -/
def Draft.FitsWord (draft : Draft) : Prop :=
  ∀ line, draft.line = some (some line) → line < wordBound

theorem Draft.FitsWord.readField {draft changed : Draft} (fits : draft.FitsWord) {field : Field}
    (reads : readField draft cursor field = .ok (changed, next)) : changed.FitsWord := by
  cases field with
  | line =>
      obtain ⟨⟨line, last⟩, readsLine, same⟩ := exists_of_map_eq_ok reads
      cases same
      rintro number ⟨⟩
      exact lt_of_readLine readsLine
  | _ =>
      obtain ⟨_, -, same⟩ := exists_of_map_eq_ok reads
      cases same
      exact fits

theorem Draft.FitsWord.readItems {draft changed : Draft} (fits : draft.FitsWord)
    {fields : List Field} {first : Bool}
    (reads : readItems draft cursor fields first = .ok (changed, next)) : changed.FitsWord := by
  induction fields generalizing draft cursor first with
  | nil =>
      cases reads
      exact fits
  | cons field later inductionHypothesis =>
      obtain ⟨⟨atItem, more⟩, -, readsOn⟩ := exists_of_bind_eq_ok reads
      dsimp only at readsOn
      split at readsOn
      · obtain ⟨⟨between, atLater⟩, readsField, readsLater⟩ := exists_of_bind_eq_ok readsOn
        exact inductionHypothesis (fits.readField readsField) readsLater
      · split at readsOn <;> cases readsOn
        exact fits

theorem Draft.FitsWord.readMembers {draft changed : Draft} (fits : draft.FitsWord) {fuel : Nat}
    {first : Bool} (reads : readMembers fuel draft cursor first = .ok (changed, next)) :
    changed.FitsWord := by
  induction fuel generalizing draft cursor first with
  | zero => cases reads
  | succ fuel inductionHypothesis =>
      obtain ⟨⟨atMember, more⟩, -, readsOn⟩ := exists_of_bind_eq_ok reads
      dsimp only at readsOn
      split at readsOn
      · obtain ⟨⟨name, afterName⟩, -, readsOn⟩ := exists_of_bind_eq_ok readsOn
        dsimp only at readsOn
        split at readsOn
        · obtain ⟨_, -, readsOn⟩ := exists_of_bind_eq_ok readsOn
          obtain ⟨_, -, readsLater⟩ := exists_of_bind_eq_ok readsOn
          exact inductionHypothesis fits readsLater
        · split at readsOn
          · cases readsOn
          · obtain ⟨_, -, readsOn⟩ := exists_of_bind_eq_ok readsOn
            obtain ⟨⟨between, atLater⟩, readsField, readsLater⟩ := exists_of_bind_eq_ok readsOn
            exact inductionHypothesis (fits.readField readsField) readsLater
      · cases readsOn
        exact fits

theorem Draft.FitsWord.finish {draft : Draft} (fits : draft.FitsWord) {violation : Violation}
    (finishes : draft.finish = .ok violation) : violation.FitsWord := by
  unfold Draft.finish at finishes
  split at finishes
  · cases finishes
  · cases finishes
  · cases finishes
  · cases finishes
    intro line isLine
    rcases known : draft.line with _ | _ | number
    · rw [known] at isLine
      cases isLine
    · rw [known] at isLine
      cases isLine
    · rw [known] at isLine
      cases isLine
      exact fits line known

theorem fitsWord_of_finish {draft : Draft} (fits : draft.FitsWord) {violation : Violation}
    (finishes : finish draft cursor = .ok (violation, next)) : violation.FitsWord := by
  rw [finish] at finishes
  split at finishes
  · rename_i finished
    cases finishes
    exact fits.finish finished
  · cases finishes

theorem fitsWord_of_readRecord {fuel : Nat} {violation : Violation}
    (reads : readRecord fuel cursor = .ok (violation, next)) : violation.FitsWord := by
  have noLine : Draft.FitsWord {} := by
    rintro line ⟨⟩
  rw [readRecord] at reads
  split at reads
  · cases reads
  split at reads
  · obtain ⟨_, readsItems, reads⟩ := exists_of_bind_eq_ok reads
    obtain ⟨_, -, finishes⟩ := exists_of_bind_eq_ok reads
    exact fitsWord_of_finish (noLine.readItems readsItems) finishes
  split at reads
  · obtain ⟨_, readsMembers, finishes⟩ := exists_of_bind_eq_ok reads
    exact fitsWord_of_finish (noLine.readMembers readsMembers) finishes
  · exact absurd reads (refuse_ne_ok _ _ _ _)

theorem fitWord_of_readRecords {fuel : Nat} {done violations : List Violation} {first : Bool}
    (fit : ∀ violation ∈ done, violation.FitsWord)
    (reads : readRecords fuel done cursor first = .ok (violations, next)) :
    ∀ violation ∈ violations, violation.FitsWord := by
  induction fuel generalizing done cursor first with
  | zero => cases reads
  | succ fuel inductionHypothesis =>
      obtain ⟨⟨atRecord, more⟩, -, reads⟩ := exists_of_bind_eq_ok reads
      dsimp only at reads
      split at reads
      · obtain ⟨⟨violation, atLater⟩, readsRecord, readsLater⟩ := exists_of_bind_eq_ok reads
        exact inductionHypothesis
          (List.forall_mem_cons.mpr ⟨fitsWord_of_readRecord readsRecord, fit⟩) readsLater
      · cases reads
        intro violation member
        exact fit violation (List.mem_reverse.mp member)

/-- The line of every record that is read fits in 64 bits. -/
theorem fitWord_of_readAll {bytes : List UInt8} {violations : List Violation}
    (reads : readAll bytes = .ok violations) : ∀ violation ∈ violations, violation.FitsWord := by
  rw [readAll] at reads
  split at reads
  · cases reads
  split at reads
  · obtain ⟨⟨all, atEnd⟩, readsRecords, reads⟩ := exists_of_bind_eq_ok reads
    dsimp only at reads
    split at reads <;> cases reads
    exact fitWord_of_readRecords (fun _ member => absurd member List.not_mem_nil) readsRecords
  · exact absurd reads (refuse_ne_ok _ _ _ _)

end Violation

namespace Batch

/-! ## Loaders that agree -/

variable {σ τ : Type} {load : Loader σ} {other : Loader τ} {config : Config}

/-- Loaders that give the same for a file, whatever has been loaded before. -/
def Agree (load : Loader σ) (other : Loader τ) (file : String) : Prop :=
  ∀ state stateOther, (load file state).1 = (other file stateOther).1

theorem loadAll_agree {files : List String} (agree : ∀ file ∈ files, Agree load other file)
    (state : σ) (stateOther : τ) :
    (loadAll load state files).1 = (loadAll other stateOther files).1 := by
  induction files generalizing state stateOther with
  | nil => rfl
  | cons file later inductionHypothesis =>
      rw [List.forall_mem_cons] at agree
      rw [loadAll_cons, loadAll_cons, agree.1 state stateOther, inductionHypothesis agree.2]

theorem run_agree {violations : List Violation}
    (agree : ∀ violation ∈ violations, Agree load other violation.file) (config : Config)
    (first : σ) (again : τ) :
    (run load config first violations).resolved = (run other config again violations).resolved ∧
      (run load config first violations).notes = (run other config again violations).notes := by
  obtain ⟨answers, each, result⟩ := run_answers load config first violations
  obtain ⟨otherAnswers, otherEach, otherResult⟩ := run_answers other config again violations
  have sameLoads : (loadFiles load first violations).1 = (loadFiles other again violations).1 := by
    refine loadAll_agree ?_ first again
    intro file member
    obtain ⟨violation, violationMember, rfl⟩ := List.mem_map.mp (List.mem_eraseDups.mp member)
    exact agree violation violationMember
  rw [← sameLoads] at otherEach
  have sameAnswers : answers = otherAnswers :=
    List.right_unique_forall₂' (rightUnique_answered config _) each otherEach
  rw [result, otherResult, sameAnswers]
  exact ⟨rfl, rfl⟩

theorem violation_resolveOne (source : Source) (violation : Violation) :
    (resolveOne config source violation).1.violation = violation := by
  rw [resolveOne]
  split <;> rfl

theorem map_violation_run (load : Loader σ) (config : Config) (first : σ)
    (violations : List Violation) :
    (run load config first violations).resolved.map ResolvedViolation.violation = violations := by
  obtain ⟨answers, each, result⟩ := run_answers load config first violations
  have same : List.Forall₂ (· = ·)
      (answers.map fun answer => answer.1.violation) violations := by
    rw [List.forall₂_map_left_iff]
    refine each.flip.imp ?_
    rintro answer violation ⟨loaded, -, rfl⟩
    exact violation_resolveOne _ violation
  rw [result, List.map_map]
  exact List.forall₂_eq_eq_eq ▸ same

/-! ## Written records -/

theorem isBlank_lineBreak : Json.IsBlank (Utf8.encode "\n") := by
  intro b member
  cases List.mem_singleton.mp member
  rfl

/-- What a batch has written as JSON, with a line break after it, is read as the records that it
has resolved. -/
theorem readAll_written {violations : List Violation}
    (fit : ∀ violation ∈ violations, violation.FitsWord) (load : Loader σ) (config : Config)
    (first : σ) :
    Violation.readAll
        (Utf8.encode
          (ResolvedViolation.renderJson (run load config first violations).resolved ++ "\n")) =
      .ok violations := by
  have fitResolved : ∀ each ∈ (run load config first violations).resolved,
      each.violation.FitsWord := by
    intro each member
    apply fit
    rw [← map_violation_run load config first violations]
    exact List.mem_map_of_mem member
  rw [Utf8.encode_append, ResolvedViolation.readAll_renderJson fitResolved isBlank_lineBreak,
    map_violation_run]

/-- Records survive being written as JSON, be it on one line or, with the lines that were found,
over several.  So with a loader that goes by the name alone, a batch that reads what a batch has
written writes the same again. -/
theorem written_records_read_back (load : Loader σ)
    (byName : ∀ file state other, (load file state).1 = (load file other).1) (config : Config)
    (first again : σ) (violations : List Violation)
    (fit : ∀ violation ∈ violations, violation.FitsWord) (resolved : List ResolvedViolation)
    (fitResolved : ∀ each ∈ resolved, each.violation.FitsWord) :
    let written (records : List Violation) (state : σ) : String :=
      ResolvedViolation.renderJson (run load config state records).resolved ++ "\n"
    Violation.readAll (Utf8.encode (Violation.renderAll violations)) = .ok violations ∧
      Violation.readAll (Utf8.encode (ResolvedViolation.renderJson resolved)) =
        .ok (resolved.map ResolvedViolation.violation) ∧
      ∃ reread, Violation.readAll (Utf8.encode (written violations first)) = .ok reread ∧
        written reread again = written violations first := by
  intro written
  have rereads := readAll_written fit load config first
  have agree : ∀ violation ∈ violations, Agree load load violation.file :=
    fun violation _ => byName violation.file
  have same := (run_agree agree config again first).1
  refine ⟨Violation.readAll_renderAll fit, ?_, violations, rereads, ?_⟩
  · have reads := ResolvedViolation.readAll_renderJson fitResolved Json.isBlank_nil
    rwa [List.append_nil] at reads
  · exact congrArg (fun resolved => ResolvedViolation.renderJson resolved ++ "\n") same

/-- A record with quotes, backslashes, control characters and characters beyond ASCII, and with the
last line that there can be. -/
def awkward : Violation :=
  { rule := "\"\\/\x00\x1f\x7f"
    file := "\u20ac😀"
    path := "a.b[0]"
    line := some 18446744073709551615
    category := "\t\n\x0d\x08\x0c" }

theorem written_records_read_back_awkward :
    (∀ violation ∈ [awkward], violation.FitsWord) ∧
      Violation.readAll (Utf8.encode (Violation.renderAll [awkward])) = .ok [awkward] ∧
      Violation.readAll
          (Utf8.encode (ResolvedViolation.renderJson [⟨awkward, some 7, some "no \"key\""⟩])) =
        .ok [awkward] := by
  have fits : awkward.FitsWord := by
    rintro line ⟨⟩
    decide
  have readsBack :=
    written_records_read_back (fun _ state => (.ok [], state)) (fun _ _ _ => rfl) {} () ()
      [awkward] (List.forall_mem_singleton.mpr fits) [⟨awkward, some 7, some "no \"key\""⟩]
      (List.forall_mem_singleton.mpr fits)
  exact ⟨List.forall_mem_singleton.mpr fits, readsBack.1, readsBack.2.1⟩

end Batch

namespace Command

theorem agree_of_files {files others : Source.Files} {name : String}
    (notInput : name ≠ Source.inputName) (same : others name = files name) :
    Batch.Agree (Source.loader others) (Source.loader files) name := by
  intro state stateOther
  simp only [Source.loader, Source.load, if_neg notInput, Source.ofFile, same]
  rfl

theorem runBatch_json {around : Surroundings} {file : String} {bytes : List UInt8}
    {violations : List Violation}
    (loads : (Source.load around.files file around.input).1 = .ok bytes)
    (reads : Violation.readAll bytes = .ok violations) :
    let outcome := Batch.run (Source.loader around.files) around.config
      (Source.load around.files file around.input).2 violations
    runBatch around .json file =
      .ok (ResolvedViolation.renderJson outcome.resolved ++ "\n", outcome.notes) := by
  simp only [runBatch, loads, Except.mapError, bind, Except.bind, reads]
  rfl

/-- A batch that reads what a batch has printed prints the same, under the same settings and as
long as the files that the records name are the same. -/
theorem runBatch_printed {around again : Surroundings} {file printed : String}
    {bytes : List UInt8} {violations : List Violation}
    (sameConfig : again.config = around.config)
    (loads : (Source.load around.files file around.input).1 = .ok bytes)
    (reads : Violation.readAll bytes = .ok violations)
    (sameFiles : ∀ violation ∈ violations,
      violation.file ≠ Source.inputName ∧ again.files violation.file = around.files violation.file)
    {written : String} {notes : List Note}
    (runs : runBatch around .json file = .ok (written, notes))
    (loadsPrinted : (Source.load again.files printed again.input).1 = .ok (Utf8.encode written)) :
    runBatch again .json printed = .ok (written, notes) := by
  rw [runBatch_json loads reads] at runs
  cases runs
  have rereads := Batch.readAll_written (Violation.fitWord_of_readAll reads)
    (Source.loader around.files) around.config (Source.load around.files file around.input).2
  have same := Batch.run_agree
    (fun violation member => agree_of_files (sameFiles violation member).1
      (sameFiles violation member).2) around.config
    (Source.load again.files printed again.input).2 (Source.load around.files file around.input).2
  rw [runBatch_json loadsPrinted rereads, sameConfig, same.1, same.2]

end Command
end FieldLine
