/-!
# Results that may be faults

A computation of several steps succeeds if each step does.  Two computations that go through like
steps have like results, unless the first of them is stopped by a fault.
-/

namespace FieldLine

/-! ## Steps that succeed -/

theorem exists_of_bind_eq_ok {ε α β : Type} {first : Except ε α} {later : α → Except ε β}
    {last : β} (succeeds : first >>= later = .ok last) :
    ∃ between, first = .ok between ∧ later between = .ok last := by
  cases first with
  | error fault => cases succeeds
  | ok between => exact ⟨between, rfl, succeeds⟩

theorem exists_of_map_eq_ok {ε α β : Type} {first : Except ε α} {change : α → β} {last : β}
    (succeeds : first.map change = .ok last) :
    ∃ between, first = .ok between ∧ change between = last := by
  cases first with
  | error fault => cases succeeds
  | ok between => exact ⟨between, rfl, Except.ok.inj succeeds⟩

theorem eq_ok_of_mapError_eq_ok {ε ε' α : Type} {result : Except ε α} {refit : ε → ε'} {value : α}
    (succeeds : result.mapError refit = .ok value) : result = .ok value := by
  cases result with
  | error fault => cases succeeds
  | ok other => exact congrArg Except.ok (Except.ok.inj succeeds)

theorem mapError_map {ε ε' α β : Type} (result : Except ε α) (change : α → β)
    (refit : ε → ε') :
    (result.map change).mapError refit = (result.mapError refit).map change := by
  cases result with
  | error fault => rfl
  | ok value => rfl

/-! ## Results that are carried over -/

/-- Two choices on one condition are related if what is chosen is. -/
theorem related_ite {α β : Type} {related : α → β → Prop} {condition : Prop} [Decidable condition]
    {yes no : α} {otherYes otherNo : β} (holds : condition → related yes otherYes)
    (fails : ¬ condition → related no otherNo) :
    related (if condition then yes else no) (if condition then otherYes else otherNo) := by
  split
  · exact holds ‹_›
  · exact fails ‹_›

/-- Whatever the first result is, the second one is too, up to a relation. -/
def Carries {ε α β : Type} (related : α → β → Prop) (result : Except ε α) (other : Except ε β) :
    Prop :=
  ∀ value, result = .ok value → ∃ image, other = .ok image ∧ related value image

namespace Carries

variable {ε α β γ δ : Type} {related : α → β → Prop} {next : γ → δ → Prop}

theorem error (fault : ε) (other : Except ε β) : Carries related (.error fault) other := by
  intro value isOk
  cases isOk

theorem ok {value : α} {image : β} (holds : related value image) :
    Carries related (.ok value : Except ε α) (.ok image) := by
  intro _ isOk
  cases isOk
  exact ⟨image, rfl, holds⟩

theorem bind {result : Except ε α} {other : Except ε β} {goOn : α → Except ε γ}
    {otherGoOn : β → Except ε δ} (first : Carries related result other)
    (later : ∀ value image, related value image → Carries next (goOn value) (otherGoOn image)) :
    Carries next (result >>= goOn) (other >>= otherGoOn) := by
  intro last isOk
  rcases result with fault | value
  · cases isOk
  · obtain ⟨image, same, holds⟩ := first value rfl
    rw [same]
    exact later value image holds last isOk

theorem map {result : Except ε α} {other : Except ε β} {change : α → γ} {otherChange : β → δ}
    (first : Carries related result other)
    (later : ∀ value image, related value image → next (change value) (otherChange image)) :
    Carries next (result.map change) (other.map otherChange) := by
  intro last isOk
  rcases result with fault | value
  · cases isOk
  · obtain ⟨image, same, holds⟩ := first value rfl
    cases isOk
    rw [same]
    exact ⟨_, rfl, later value image holds⟩

theorem mapError {ε' : Type} {result : Except ε α} {other : Except ε β} {change : ε → ε'}
    (first : Carries related result other) :
    Carries related (result.mapError change) (other.mapError change) := by
  intro last isOk
  rcases result with fault | value
  · cases isOk
  · cases isOk
    obtain ⟨image, same, holds⟩ := first last rfl
    rw [same]
    exact ⟨image, rfl, holds⟩

theorem mono {stronger : α → β → Prop} {result : Except ε α} {other : Except ε β}
    (first : Carries stronger result other)
    (weaken : ∀ value image, stronger value image → related value image) :
    Carries related result other := by
  intro value isOk
  obtain ⟨image, same, holds⟩ := first value isOk
  exact ⟨image, same, weaken value image holds⟩

theorem ite {condition : Prop} [Decidable condition] {yes no : Except ε α}
    {otherYes otherNo : Except ε β} (holds : condition → Carries related yes otherYes)
    (fails : ¬ condition → Carries related no otherNo) :
    Carries related (if condition then yes else no) (if condition then otherYes else otherNo) :=
  related_ite holds fails

theorem of_eq {result other : Except ε α} (same : other = result) :
    Carries (fun value image => image = value) result other := by
  intro value isOk
  exact ⟨value, same.trans isOk, rfl⟩

end Carries

end FieldLine
