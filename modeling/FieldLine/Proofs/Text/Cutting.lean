import Mathlib.Data.List.TakeWhile

/-!
# Texts that are cut at a character

A text that does not hold a character itself is found again before the first one that follows it.
-/

namespace FieldLine

theorem takeWhile_ne_of_not_mem {mark : Char} {text : List Char} (noMark : mark ∉ text) :
    text.takeWhile (· ≠ mark) = text ∧ text.dropWhile (· ≠ mark) = [] := by
  have all : ∀ c ∈ text, decide (c ≠ mark) = true := by
    intro c member
    exact decide_eq_true fun equal => noMark (equal ▸ member)
  exact ⟨List.takeWhile_eq_self_iff.mpr all, List.dropWhile_eq_nil_iff.mpr all⟩

theorem takeWhile_ne_append {mark : Char} {text : List Char} (noMark : mark ∉ text)
    (rest : List Char) :
    (text ++ mark :: rest).takeWhile (· ≠ mark) = text ∧
      (text ++ mark :: rest).dropWhile (· ≠ mark) = mark :: rest := by
  have all : ∀ c ∈ text, decide (c ≠ mark) = true := by
    intro c member
    exact decide_eq_true fun equal => noMark (equal ▸ member)
  rw [List.takeWhile_append_of_pos all, List.dropWhile_append_of_pos all]
  simp

/-- The text before the first mark, and the text after it. -/
def cut (mark : Char) (text : List Char) : List Char × List Char :=
  (text.takeWhile (· ≠ mark), (text.dropWhile (· ≠ mark)).tail)

theorem cut_of_not_mem {mark : Char} {text : List Char} (noMark : mark ∉ text) :
    cut mark text = (text, []) := by
  obtain ⟨before, after⟩ := takeWhile_ne_of_not_mem noMark
  rw [cut, before, after, List.tail_nil]

theorem cut_append {mark : Char} {text : List Char} (noMark : mark ∉ text) (rest : List Char) :
    cut mark (text ++ mark :: rest) = (text, rest) := by
  obtain ⟨before, after⟩ := takeWhile_ne_append noMark rest
  rw [cut, before, after, List.tail_cons]

/-- Texts that each end at a mark are the pieces before the marks, and nothing follows the last. -/
theorem splitOn_flatMap {mark : Char} {texts : List (List Char)}
    (noMark : ∀ text ∈ texts, mark ∉ text) :
    (texts.flatMap fun text => text ++ [mark]).splitOn mark = texts ++ [[]] := by
  induction texts with
  | nil => rfl
  | cons text later inductionHypothesis =>
      rw [List.forall_mem_cons] at noMark
      have all : ∀ c ∈ text, (c == mark) = false := by
        intro c member
        exact beq_false_of_ne fun equal => noMark.1 (equal ▸ member)
      rw [List.splitOn_eq_splitOnP] at inductionHypothesis ⊢
      rw [List.flatMap_cons, List.append_assoc, List.singleton_append,
        List.splitOnP_append_cons_of_forall_mem all mark (beq_self_eq_true mark),
        inductionHypothesis noMark.2, List.cons_append]

end FieldLine
