import FieldLine.Proofs.Continuation.Closing
import FieldLine.Proofs.Continuation.Sequels

/-!
# The first of several documents

A document that has a collection and is followed by nothing but the end of the text is read in the
same way if the text goes on with a line `---`, whatever comes after that.
-/

namespace FieldLine
namespace Yaml

/-- Whether nothing that comes after a line `---` can belong to the first document: a line that
bounds documents ends it, or the text ends with nothing that more text may be part of. -/
def endsCleanly (text : List Char) : Bool :=
  match Reader.closing? {} (Tokens.ofText text).list with
  | none => false
  | some token => token.kind.isBound || !(Lexer.start text).endsOpen

theorem exists_of_endsCleanly {text : List Char} (clean : endsCleanly text = true) :
    ∃ token : Token, Reader.closing? {} (Tokens.ofText text).list = some token ∧
      ((Lexer.start text).endsOpen = true → token.kind.isBound = true) := by
  unfold endsCleanly at clean
  split at clean
  · cases clean
  · rename_i token closes
    refine ⟨token, closes, fun isOpen => ?_⟩
    rwa [isOpen, Bool.not_true, Bool.or_false] at clean

namespace Reader

variable {image : Tokens} {middle next : Reader} {token : Token} {before after : List Token}

/-- What ends a document with a collection is met where nothing but its end is awaited. -/
theorem goals_of_closes (reads : Reads {} before middle) (someGoal : middle.goals ≠ [])
    (isEnd : token.kind = .streamEnd ∨ token.kind.isBound = true)
    (meets : middle.meet token middle.goals = .ok next) (closed : next.goals = [])
    (started : hasStart next.events = true) : middle.goals = [.documentEnd] := by
  have knows := reads.knows someGoal
  have noInner := hasInner_of_meet_bound knows.sound isEnd meets
  have sameStarts : hasStart next.events = hasStart middle.events := by
    refine ((meet_turns knows.sound meets).starts noInner).resolve_left fun inner => ?_
    rw [closed] at inner
    cases inner
  rcases knows.begins with inner | notStarted | isLast
  · rw [noInner] at inner
    cases inner
  · rw [sameStarts, notStarted] at started
    cases started
  · exact isLast

/-- The tokens before the end of a document are those of collections that are nested and closed. -/
theorem nested_of_goals (reads : Reads {} before middle) (goals : middle.goals = [.documentEnd]) :
    Nested before [] := by
  have nested := (reads.knows (by rw [goals]; nofun)).nested
  rwa [goals] at nested

/-- A document is not changed by what comes after the token that ends it. -/
theorem run_of_prefix (reads : Reads {} before middle) (someGoal : middle.goals ≠ [])
    (meets : middle.meet token middle.goals = .ok next) (closed : next.goals = [])
    (isPrefix : before ++ [token] <+: image.list) : run {} image = .ok next.events.reverse := by
  obtain ⟨list, fault⟩ := image
  obtain ⟨after, rfl⟩ := isPrefix
  rw [run, List.append_assoc]
  exact reads.go_of_closes someGoal meets closed after fault

/-- A line that bounds documents and ends one with a collection is settled. -/
theorem prefix_front_of_isBound {ledger : Ledger} {others : List Token} (reached : ledger.Reached)
    (list : before ++ [token] <+: ledger.list ++ others)
    (noBound : ∀ token ∈ others, token.kind.isBound = false) (isBound : token.kind.isBound = true)
    (nested : Nested before []) : before ++ [token] <+: ledger.front := by
  have within : before ++ [token] <+: ledger.list := by
    rcases List.prefix_or_prefix_of_prefix list (List.prefix_append _ _) with within | shorter
    · exact within
    rcases List.prefix_concat_iff.mp shorter with same | ⟨later, rfl⟩
    · rw [same]
    · rw [List.append_assoc, List.prefix_append_right_inj] at list
      have member : token ∈ others := list.subset (by simp)
      rw [noBound token member] at isBound
      cases isBound
  have parts : ledger.list.take before.length = before :=
    (List.prefix_iff_eq_take.mp ((List.prefix_append _ _).trans within)).symm
  have isToken : ledger.list[before.length]? = some token := by
    obtain ⟨later, same⟩ := within
    rw [← same]
    simp
  have settled : before.length < ledger.first := by
    refine Ledger.lt_first_of_isBound reached.holds isToken isBound ?_ ?_
    · rw [parts]
      exact nested.readable
    · rw [parts]
      exact nested.depth_eq
  refine List.prefix_take_iff.mpr ⟨within, ?_⟩
  rw [List.length_append]
  exact settled

/-- The end of the text and the start of a document end a document alike. -/
theorem meet_documentStart {mark : Mark} (goals : middle.goals = [.documentEnd])
    (meets : middle.meet ⟨mark, .streamEnd⟩ middle.goals = .ok next) :
    middle.meet ⟨mark, .documentStart⟩ middle.goals = .ok next := by
  rw [goals] at meets ⊢
  exact meets

/-- What ends the first document comes in the longer text as well, or it is the end of the text, and
the start of a document comes in its place. -/
theorem prefix_of_sequel {lexer : Lexer} (sequel : Sequel lexer image)
    (part : before ++ [token] <+: (Tokens.ofLexer lexer).list)
    (isBound : lexer.endsOpen = true → token.kind.isBound = true)
    (nested : token.kind.isBound = true → Nested before []) :
    before ++ [token] <+: image.list ∨
      ∃ mark : Mark,
        token = ⟨mark, .streamEnd⟩ ∧ before ++ [⟨mark, .documentStart⟩] <+: image.list := by
  cases sequel with
  | carried list => exact .inl (part.trans list)
  | endsOpen others reached front list noBound isOpen =>
      have bounds := isBound isOpen
      exact .inl ((prefix_front_of_isBound reached (part.trans list) noBound bounds
        (nested bounds)).trans front)
  | ended mark reached list starts =>
      rw [list] at part
      rcases List.prefix_concat_iff.mp part with same | within
      · obtain ⟨rfl, sameEnd⟩ := List.append_inj' same rfl
        cases sameEnd
        exact .inr ⟨mark, rfl, starts⟩
      · exact .inl ((within.trans (List.prefix_append _ _)).trans starts)

/-- The first document is read in the same way in the longer text. -/
theorem run_of_sequel {text : List Char} {events : List Event}
    (sequel : Sequel (.start text) image) (clean : endsCleanly text = true)
    (runs : run {} (Tokens.ofText text) = .ok events) (started : hasStart events = true) :
    run {} image = .ok events := by
  obtain ⟨token, closes, isBound⟩ := exists_of_endsCleanly clean
  obtain ⟨before, after, middle, next, parts, reads, someGoal, meets, closed⟩ :=
    exists_of_closing? (List.cons_ne_nil _ _) closes
  obtain rfl : events = next.events.reverse := by
    have same := reads.go_of_closes someGoal meets closed after (Tokens.ofText text).fault
    rw [← parts] at same
    exact Except.ok.inj (runs.symm.trans same)
  rw [hasStart, List.any_reverse] at started
  have goals (isEnd : token.kind = .streamEnd ∨ token.kind.isBound = true) :
      middle.goals = [.documentEnd] :=
    goals_of_closes reads someGoal isEnd meets closed started
  have part : before ++ [token] <+: (Tokens.ofText text).list :=
    ⟨after, (List.append_assoc ..).trans parts.symm⟩
  rcases prefix_of_sequel sequel part isBound fun bounds =>
      nested_of_goals reads (goals (.inr bounds)) with same | ⟨mark, rfl, starts⟩
  · exact run_of_prefix reads someGoal meets closed same
  · exact run_of_prefix reads someGoal (meet_documentStart (goals (.inl rfl)) meets) closed starts

end Reader

/-- The events of a text of whole lines are those of every longer text in which a line `---`
follows. -/
theorem events_append {text more : List Char} {events : List Event} (lines : IsLines text)
    (bound : atTriple '-' more = true) (clean : endsCleanly text = true)
    (reads : Yaml.events text = .ok events) (started : hasStart events = true) :
    Yaml.events (text ++ more) = .ok events :=
  Reader.run_of_sequel (Lexer.sequel_start lines bound) clean reads started

end Yaml
end FieldLine
