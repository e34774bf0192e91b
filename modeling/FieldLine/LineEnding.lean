/-!
Line endings.  A carriage return before a line feed only belongs to the line ending and can be
dropped; other carriage returns are kept.
-/

namespace FieldLine
namespace LineEnding

def carriageReturn : UInt8 := 13

def lineFeed : UInt8 := 10

/-- Normalizes bytes that follow the bytes `done`, latest first. -/
def normalizeAfter (done : List UInt8) : List UInt8 → List UInt8
  | [] => done.reverse
  | b :: rest =>
      if b = carriageReturn ∧ rest.head? = some lineFeed then
        normalizeAfter done rest
      else
        normalizeAfter (b :: done) rest

/-- Drops each carriage return that has a line feed after it. -/
def normalize (bytes : List UInt8) : List UInt8 :=
  normalizeAfter [] bytes

theorem normalizeAfter_eq (done bytes : List UInt8) :
    normalizeAfter done bytes = done.reverse ++ normalize bytes := by
  induction bytes generalizing done with
  | nil => simp [normalize, normalizeAfter]
  | cons b rest inductionHypothesis =>
      rw [normalize, normalizeAfter, normalizeAfter]
      split
      · rw [inductionHypothesis, inductionHypothesis []]
        rfl
      · rw [inductionHypothesis, inductionHypothesis [b]]
        simp

@[simp]
theorem normalize_nil : normalize [] = [] :=
  rfl

theorem normalize_cons (b : UInt8) (rest : List UInt8) :
    normalize (b :: rest) =
      if b = carriageReturn ∧ rest.head? = some lineFeed then normalize rest
      else b :: normalize rest := by
  rw [normalize, normalizeAfter]
  split
  · rfl
  · rw [normalizeAfter_eq]
    rfl

end LineEnding
end FieldLine
