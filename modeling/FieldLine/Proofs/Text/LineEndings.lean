import FieldLine.LineEnding
import Mathlib.Data.List.Basic

/-!
# Line endings in bytes

Normalizing drops the carriage returns that stand directly before a line feed, and no other byte.
So it takes back what adds a carriage return before every line feed, and bytes can be normalized in
two parts unless that parts a carriage return from its line feed.
-/

namespace FieldLine
namespace LineEnding

/-- A carriage return stands at this place, and a line feed directly after it. -/
def IsPairAt (bytes : List UInt8) (place : Nat) : Prop :=
  bytes[place]? = some carriageReturn ∧ bytes[place + 1]? = some lineFeed

instance (bytes : List UInt8) (place : Nat) : Decidable (IsPairAt bytes place) :=
  inferInstanceAs (Decidable (_ ∧ _))

def pairCount (bytes : List UInt8) : Nat :=
  (List.range bytes.length).countP fun place => IsPairAt bytes place

/-- The bytes with a carriage return added before every line feed. -/
def addReturns (bytes : List UInt8) : List UInt8 :=
  bytes.flatMap fun b => if b = lineFeed then [carriageReturn, lineFeed] else [b]

/-! ## Bytes that are kept -/

theorem normalize_cons_of_ne {b : UInt8} (notReturn : b ≠ carriageReturn) (rest : List UInt8) :
    normalize (b :: rest) = b :: normalize rest := by
  rw [normalize_cons, if_neg fun isPair => notReturn isPair.1]

theorem normalize_pair (rest : List UInt8) :
    normalize (carriageReturn :: lineFeed :: rest) = lineFeed :: normalize rest := by
  rw [normalize_cons, if_pos ⟨rfl, rfl⟩, normalize_cons_of_ne (by decide)]

/-- What is left of some bytes begins with the first of them, or with a line feed. -/
theorem exists_normalize_cons (b : UInt8) (rest : List UInt8) :
    ∃ (first : UInt8) (later : List UInt8),
      normalize (b :: rest) = first :: later ∧ (first = b ∨ first = lineFeed) := by
  by_cases isPair : b = carriageReturn ∧ rest.head? = some lineFeed
  · obtain ⟨isReturn, isFeed⟩ := isPair
    obtain ⟨others, rfl⟩ := List.head?_eq_some_iff.mp isFeed
    rw [isReturn, normalize_pair]
    exact ⟨lineFeed, _, rfl, .inr rfl⟩
  · rw [normalize_cons, if_neg isPair]
    exact ⟨b, _, rfl, .inl rfl⟩

theorem normalize_eq_nil_iff {bytes : List UInt8} : normalize bytes = [] ↔ bytes = [] := by
  constructor
  · intro isEmpty
    cases bytes with
    | nil => rfl
    | cons b rest =>
        obtain ⟨first, later, same, -⟩ := exists_normalize_cons b rest
        rw [same] at isEmpty
        cases isEmpty
  · intro isEmpty
    rw [isEmpty, normalize_nil]

theorem isPairAt_length (earlier : List UInt8) (b : UInt8) (rest : List UInt8) :
    IsPairAt (earlier ++ b :: rest) earlier.length ↔
      b = carriageReturn ∧ rest.head? = some lineFeed := by
  have here : (earlier ++ b :: rest)[earlier.length]? = some b := by
    rw [List.getElem?_append_right (Nat.le_refl _), Nat.sub_self, List.getElem?_cons_zero]
  have next : (earlier ++ b :: rest)[earlier.length + 1]? = rest.head? := by
    rw [List.getElem?_append_right (Nat.le_add_right _ 1), Nat.add_sub_cancel_left,
      List.getElem?_cons_succ, List.head?_eq_getElem?]
  rw [IsPairAt, here, next, Option.some.injEq]

/-- Whether a byte is kept depends on its place in all the bytes, those before it included. -/
theorem normalize_eq_filter_after (earlier bytes : List UInt8) :
    normalize bytes =
      ((bytes.zipIdx earlier.length).filter fun item =>
        ¬ IsPairAt (earlier ++ bytes) item.2).map Prod.fst := by
  induction bytes generalizing earlier with
  | nil => rfl
  | cons b rest inductionHypothesis =>
      have later := inductionHypothesis (earlier ++ [b])
      rw [List.length_append, List.length_singleton, List.append_assoc, List.singleton_append]
        at later
      rw [normalize_cons, List.zipIdx_cons]
      by_cases isPair : b = carriageReturn ∧ rest.head? = some lineFeed
      · rw [if_pos isPair, List.filter_cons_of_neg, later]
        simpa using (isPairAt_length earlier b rest).mpr isPair
      · rw [if_neg isPair, List.filter_cons_of_pos, List.map_cons, later]
        simpa using mt (isPairAt_length earlier b rest).mp isPair

theorem normalize_eq_filter (bytes : List UInt8) :
    normalize bytes =
      (bytes.zipIdx.filter fun item => ¬ IsPairAt bytes item.2).map Prod.fst :=
  normalize_eq_filter_after [] bytes

theorem length_normalize (bytes : List UInt8) :
    (normalize bytes).length + pairCount bytes = bytes.length := by
  have places : List.range bytes.length = bytes.zipIdx.map Prod.snd := by
    rw [List.zipIdx_map_snd, List.range_eq_range']
  have parts := bytes.zipIdx.length_eq_countP_add_countP fun item => IsPairAt bytes item.2
  rw [List.length_zipIdx] at parts
  rw [normalize_eq_filter, List.length_map, ← List.countP_eq_length_filter, pairCount, places,
    List.countP_map, parts, Nat.add_comm]
  simp [Function.comp_def]

/-! ## Bytes in two parts -/

theorem normalize_append {first second : List UInt8}
    (apart : first.getLast? ≠ some carriageReturn ∨ second.head? ≠ some lineFeed) :
    normalize (first ++ second) = normalize first ++ normalize second := by
  induction first with
  | nil => rfl
  | cons b rest inductionHypothesis =>
      cases rest with
      -- Only the last byte of the first part has its next byte in the second part.
      | nil =>
          have alone : normalize [b] = [b] := by
            rw [normalize_cons, if_neg (by simp), normalize_nil]
          have notPair : ¬ (b = carriageReturn ∧ second.head? = some lineFeed) := by
            rintro ⟨rfl, isFeed⟩
            rcases apart with notReturn | notFeed
            · exact notReturn rfl
            · exact notFeed isFeed
          rw [List.singleton_append, normalize_cons, if_neg notPair, alone, List.singleton_append]
      | cons next later =>
          have laterApart :
              (next :: later).getLast? ≠ some carriageReturn ∨ second.head? ≠ some lineFeed := by
            rwa [List.getLast?_cons_cons] at apart
          rw [List.cons_append, normalize_cons, normalize_cons b, inductionHypothesis laterApart]
          by_cases isPair : b = carriageReturn ∧ next = lineFeed
          · simp [isPair]
          · simp [isPair]

theorem normalize_append_iff (first second : List UInt8) :
    normalize (first ++ second) = normalize first ++ normalize second ↔
      first.getLast? ≠ some carriageReturn ∨ second.head? ≠ some lineFeed := by
  refine ⟨?_, normalize_append⟩
  intro same
  by_contra parted
  push Not at parted
  obtain ⟨isReturn, isFeed⟩ := parted
  obtain ⟨front, rfl⟩ := List.getLast?_eq_some_iff.mp isReturn
  obtain ⟨later, rfl⟩ := List.head?_eq_some_iff.mp isFeed
  have loneReturn : normalize (front ++ [carriageReturn]) = normalize front ++ [carriageReturn] :=
    normalize_append (.inr (by decide))
  have notFeed : (carriageReturn :: lineFeed :: later).head? ≠ some lineFeed := by
    rw [List.head?_cons]
    decide
  have pair :
      normalize (front ++ carriageReturn :: lineFeed :: later) =
        normalize front ++ normalize (lineFeed :: later) := by
    rw [normalize_append (.inr notFeed), normalize_pair, normalize_cons_of_ne (by decide)]
  rw [List.append_assoc, List.singleton_append, pair, loneReturn, List.append_assoc] at same
  have tooLong := congrArg List.length (List.append_cancel_left same)
  simp at tooLong

/-! ## Added carriage returns -/

theorem head?_addReturns_ne (bytes : List UInt8) : (addReturns bytes).head? ≠ some lineFeed := by
  cases bytes with
  | nil => exact nofun
  | cons b rest =>
      rw [addReturns, List.flatMap_cons]
      by_cases isFeed : b = lineFeed
      · rw [if_pos isFeed, List.cons_append, List.head?_cons]
        decide
      · rw [if_neg isFeed]
        simpa using isFeed

theorem normalize_addReturns (bytes : List UInt8) : normalize (addReturns bytes) = bytes := by
  induction bytes with
  | nil => rfl
  | cons b rest inductionHypothesis =>
      rw [addReturns, List.flatMap_cons, ← addReturns]
      by_cases isFeed : b = lineFeed
      · rw [if_pos isFeed, List.cons_append, List.singleton_append, normalize_pair,
          inductionHypothesis, isFeed]
      · have notPair : ¬ (b = carriageReturn ∧ (addReturns rest).head? = some lineFeed) :=
          fun isPair => head?_addReturns_ne rest isPair.2
        rw [if_neg isFeed, List.singleton_append, normalize_cons, if_neg notPair,
          inductionHypothesis]

/-- Normalized bytes are the bytes without the carriage returns that have a line feed directly after
them, in the same order.  Normalizing takes back what adds carriage returns, also where there were
some before, and goes part by part unless the parts divide a carriage return from its line feed. -/
theorem normalize_drops_returns_of_pairs :
    (∀ bytes : List UInt8,
        normalize bytes =
          (bytes.zipIdx.filter fun item => ¬ IsPairAt bytes item.2).map Prod.fst) ∧
      (∀ bytes : List UInt8, normalize (addReturns bytes) = bytes) ∧
      ∀ first second : List UInt8,
        normalize (first ++ second) = normalize first ++ normalize second ↔
          first.getLast? ≠ some carriageReturn ∨ second.head? ≠ some lineFeed :=
  ⟨normalize_eq_filter, normalize_addReturns, normalize_append_iff⟩

/-- Of two carriage returns before a line feed only the second is dropped, and one at the end is
kept. -/
example : normalize [97, 13, 13, 10, 98, 13, 99, 13] = [97, 13, 10, 98, 13, 99, 13] := by
  decide

end LineEnding
end FieldLine
