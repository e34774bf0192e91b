import FieldLine.Proofs.Violation.Fields
import Mathlib.Data.List.Forall2

/-!
# Members and values of violation records

The members of an object are read in any order, and those with other names are passed over.  The
values of a list are read in the order of the fields.  In both cases a draft gathers what the fields
say.
-/

namespace FieldLine

theorem exists_mem_of_forall₂ {α β : Type} {related : α → β → Prop} {items : List α}
    {images : List β} (each : List.Forall₂ related items images) {image : β}
    (member : image ∈ images) : ∃ item ∈ items, related item image := by
  induction each with
  | nil => cases member
  | @cons item _ _ _ holds _ inductionHypothesis =>
      rcases List.mem_cons.mp member with rfl | memberLater
      · exact ⟨item, List.mem_cons_self, holds⟩
      · obtain ⟨later, laterMember, holdsLater⟩ := inductionHypothesis memberLater
        exact ⟨later, List.mem_cons_of_mem _ laterMember, holdsLater⟩

theorem exists_append_of_forall₂ {α β : Type} {related : α → β → Prop} {items : List α}
    {images later : List β} (each : List.Forall₂ related items (images ++ later)) :
    ∃ first second, items = first ++ second ∧ List.Forall₂ related first images ∧
      List.Forall₂ related second later :=
  ⟨items.take images.length, items.drop images.length, (List.take_append_drop _ _).symm,
    List.forall₂_take_append _ _ _ each, List.forall₂_drop_append _ _ _ each⟩

namespace Violation

open Json (Cursor IsString IsValue Spells byte listed)
open Json.Number (EndsNumber)
open JsonSyntax (Padded Padding)

/-! ## Names -/

theorem Field.ofName?_eq_some_iff {name : String} {field : Field} :
    Field.ofName? name = some field ↔ name = field.name := by
  constructor
  · intro found
    have same := List.find?_some found
    exact (beq_iff_eq.mp same).symm
  · rintro rfl
    cases field <;> rfl

/-- The member has the name of the field, however it is spelled. -/
def Field.Names (field : Field) (entry : Json.Entry) : Prop :=
  Spells field.name entry.name.inner

theorem Field.names_iff {entry : Json.Entry} {name : String} (spells : Spells name entry.name.inner)
    {field : Field} : field.Names entry ↔ Field.ofName? name = some field := by
  rw [Field.ofName?_eq_some_iff]
  constructor
  · intro names
    exact spells.unique names
  · rintro rfl
    exact spells

theorem Field.Names.unique {field other : Field} {entry : Json.Entry}
    (names : field.Names entry) (namesToo : other.Names entry) : field = other := by
  rw [Field.names_iff namesToo, Field.names_iff namesToo |>.mp namesToo] at names
  exact (Option.some.inj names).symm

/-- No two members with the name of one field. -/
def NoneTwice (entries : List Json.Entry) : Prop :=
  entries.Pairwise fun first second => ∀ field : Field, field.Names first → ¬field.Names second

theorem noneTwice_of_forall₂ {entries : List Json.Entry} {fields : List Field}
    (distinct : fields.Nodup)
    (names : List.Forall₂ (fun entry field => field.Names entry) entries fields) :
    NoneTwice entries := by
  induction names with
  | nil => exact .nil
  | @cons entry field _ _ namesFirst namesLater inductionHypothesis =>
      obtain ⟨notAgain, distinctLater⟩ := List.nodup_cons.mp distinct
      refine .cons ?_ (inductionHypothesis distinctLater)
      intro second member other names namesToo
      obtain ⟨known, knownMember, namesKnown⟩ := exists_mem_of_forall₂ namesLater.flip member
      have same : known = field := (namesToo.unique namesKnown).symm.trans (names.unique namesFirst)
      exact notAgain (same ▸ knownMember)

/-- A draft does not say anything else than the violation. -/
def Draft.Within (draft : Draft) (violation : Violation) : Prop :=
  ∀ field datum, draft.datum? field = some datum → datum = violation.datum field

theorem Draft.Sets.within {draft changed : Draft} {field : Field} {violation : Violation}
    (sets : draft.Sets field (violation.datum field) changed) (within : draft.Within violation) :
    changed.Within violation := by
  intro other datum found
  by_cases same : other = field
  · rw [same, sets.1] at found
    rw [same]
    exact (Option.some.inj found).symm
  · rw [sets.2 other same] at found
    exact within other datum found

/-! ## Steps -/

section

variable {entry : Json.Entry} (items : List (Padded (List UInt8))) (rest : List UInt8)
  (draft : Draft) (first : Bool) (before : Padding) (fuel : Nat) (place : Json.Place)

theorem readMembers_nil :
    ∃ next, readMembers (fuel + 1) draft ⟨place, listed .curly first before [] ++ rest⟩ first =
      .ok (draft, ⟨next, rest⟩) := by
  obtain ⟨next, ends⟩ := Json.Cursor.nextMember_listed_nil first before rest place
  refine ⟨next.after (byte '\x7d'), ?_⟩
  rw [readMembers, ends]
  rfl

theorem readMembers_foreign {name : String} (spells : Spells name entry.name.inner)
    (foreign : Field.ofName? name = none) (isValue : IsValue entry.value.inner)
    (enough : (listed .curly first before (entry.item :: items) ++ rest).length ≤ fuel) :
    ∃ next, readMembers (fuel + 1) draft
        ⟨place, listed .curly first before (entry.item :: items) ++ rest⟩ first =
      readMembers fuel draft
        ⟨next, listed .curly false entry.value.after items ++ rest⟩ false := by
  have enoughValue : (entry.value.inner ++
      (listed .curly false entry.value.after items ++ rest)).length ≤ fuel := by
    simp only [listed, Json.Entry.item, List.length_append, List.length_cons] at enough ⊢
    omega
  obtain ⟨atName, atColon, atValue, enters, readsName, skipsColon⟩ :=
    Json.Cursor.enter_member first before items rest place spells
  obtain ⟨next, skips⟩ := Json.skipValue_of_isValue isValue
    (Json.endsNumber_listed .curly entry.value.after items rest)
    (Json.isBlank_bytes entry.value.before) enoughValue atValue
  refine ⟨next, ?_⟩
  rw [readMembers, enters]
  simp only [bind, Except.bind, if_true, readsName, foreign, skipsColon, skips]

theorem readMembers_field {field : Field} (names : field.Names entry)
    (unset : draft.has field = false) :
    ∃ next, readMembers (fuel + 1) draft
        ⟨place, listed .curly first before (entry.item :: items) ++ rest⟩ first =
      readField draft ⟨next, entry.value.before.bytes ++ (entry.value.inner ++
          (listed .curly false entry.value.after items ++ rest))⟩ field >>= fun (draft, cursor) =>
        readMembers fuel draft cursor false := by
  have known := (Field.names_iff names).mp names
  obtain ⟨atName, atColon, next, enters, readsName, skipsColon⟩ :=
    Json.Cursor.enter_member first before items rest place names
  refine ⟨next, ?_⟩
  rw [readMembers, enters]
  simp only [bind, Except.bind, if_true, readsName, known, unset, Bool.false_eq_true, if_false,
    skipsColon]

/-- A member that is read has a name, and if that is the name of a field, the field has not been
read before. -/
theorem spells_of_readMembers (isName : IsString entry.name.inner) {read : Draft × Cursor}
    (reads : readMembers fuel draft
      ⟨place, listed .curly first before (entry.item :: items) ++ rest⟩ first = .ok read) :
    ∃ name, Spells name entry.name.inner ∧
      ∀ field, Field.ofName? name = some field → draft.has field = false := by
  obtain ⟨body, begins⟩ := isName.exists_cons
  rw [begins] at isName
  obtain ⟨atName, enters⟩ :=
    Json.Cursor.nextMember_listed_cons first before items rest place begins
  cases fuel with
  | zero => cases reads
  | succ fuel =>
      rw [readMembers, enters] at reads
      obtain ⟨⟨name, atColon⟩, readsName, reads⟩ := exists_of_bind_eq_ok
        (show Json.Text.read _ >>= _ = .ok read from reads)
      refine ⟨name, begins ▸ (Json.spells_of_read isName readsName).1, ?_⟩
      intro field known
      dsimp only at reads
      rw [known] at reads
      dsimp only at reads
      split at reads
      · cases reads
      · exact eq_false_of_ne_true ‹_›

end

/-! ## Members -/

/-- What the members of an object change in a draft. -/
structure Gathers (draft : Draft) (entries : List Json.Entry) (changed : Draft) : Prop where
  spelled : ∀ entry ∈ entries, ∃ name, Spells name entry.name.inner
  noneTwice : NoneTwice entries
  unset : ∀ entry ∈ entries, ∀ field : Field, field.Names entry → draft.datum? field = none
  set : ∀ entry ∈ entries, ∀ field : Field, field.Names entry →
    ∃ datum : Datum, changed.datum? field = some datum ∧ datum.IsWritten entry.value.inner
  same : ∀ field : Field, (∀ entry ∈ entries, ¬field.Names entry) →
    changed.datum? field = draft.datum? field

theorem gathers_nil (draft : Draft) : Gathers draft [] draft where
  spelled := List.forall_mem_nil _
  noneTwice := .nil
  unset := List.forall_mem_nil _
  set := List.forall_mem_nil _
  same _ _ := rfl

section

variable {draft between changed : Draft} {entry : Json.Entry} {later : List Json.Entry}
  {name : String}

theorem Gathers.foreign (spells : Spells name entry.name.inner)
    (foreign : Field.ofName? name = none) (gathers : Gathers draft later changed) :
    Gathers draft (entry :: later) changed := by
  have nameless (field : Field) : ¬field.Names entry := by
    rw [Field.names_iff spells, foreign]
    exact nofun
  exact {
    spelled := List.forall_mem_cons.mpr ⟨⟨name, spells⟩, gathers.spelled⟩
    noneTwice := .cons (fun _ _ field names => absurd names (nameless field)) gathers.noneTwice
    unset := List.forall_mem_cons.mpr
      ⟨fun field names => absurd names (nameless field), gathers.unset⟩
    set := List.forall_mem_cons.mpr
      ⟨fun field names => absurd names (nameless field), gathers.set⟩
    same := fun field absent => gathers.same field (List.forall_mem_cons.mp absent).2 }

theorem Gathers.field {field : Field} {datum : Datum} (names : field.Names entry)
    (unset : draft.datum? field = none) (isWritten : datum.IsWritten entry.value.inner)
    (sets : draft.Sets field datum between) (gathers : Gathers between later changed) :
    Gathers draft (entry :: later) changed := by
  have only {other : Field} (namesToo : other.Names entry) : other = field :=
    namesToo.unique names
  have absentLater : ∀ member ∈ later, ¬field.Names member := by
    intro member isMember namesMember
    have unsetBetween := gathers.unset member isMember field namesMember
    rw [sets.1] at unsetBetween
    cases unsetBetween
  refine ⟨?_, ?_, ?_, ?_, ?_⟩
  · exact List.forall_mem_cons.mpr ⟨⟨_, names⟩, gathers.spelled⟩
  · refine .cons ?_ gathers.noneTwice
    intro member isMember other namesFirst
    rw [only namesFirst]
    exact absentLater member isMember
  · refine List.forall_mem_cons.mpr ⟨?_, ?_⟩
    · intro other namesFirst
      rwa [only namesFirst]
    · intro member isMember other namesMember
      have notFirst : other ≠ field := by
        rintro rfl
        exact absentLater member isMember namesMember
      rw [← sets.2 other notFirst]
      exact gathers.unset member isMember other namesMember
  · refine List.forall_mem_cons.mpr ⟨?_, gathers.set⟩
    intro other namesFirst
    rw [only namesFirst]
    exact ⟨datum, (gathers.same field absentLater).trans sets.1, isWritten⟩
  · intro other absent
    rw [List.forall_mem_cons] at absent
    have notFirst : other ≠ field := by
      rintro rfl
      exact absent.1 names
    rw [gathers.same other absent.2, sets.2 other notFirst]

end

theorem length_listed_lt {entry : Json.Entry} (isName : IsString entry.name.inner)
    {items : List (Padded (List UInt8))} {first : Bool} {before : Padding} {rest : List UInt8}
    {fuel : Nat}
    (enough : (listed .curly first before (entry.item :: items) ++ rest).length < fuel + 1) :
    (listed .curly false entry.value.after items ++ rest).length < fuel := by
  obtain ⟨body, begins⟩ := isName.exists_cons
  simp only [listed, Json.Entry.item, List.length_append, List.length_cons] at enough ⊢
  omega

/-- Whatever is read from the members of an object has been gathered from them. -/
theorem gathers_of_readMembers {entries : List Json.Entry}
    (areNames : ∀ entry ∈ entries, IsString entry.name.inner)
    (areValues : ∀ entry ∈ entries, IsValue entry.value.inner) {draft changed : Draft}
    {first : Bool} {before : Padding} {rest : List UInt8} {fuel : Nat} {place : Json.Place}
    {next : Cursor}
    (enough : (listed .curly first before (entries.map Json.Entry.item) ++ rest).length < fuel)
    (reads : readMembers fuel draft
      ⟨place, listed .curly first before (entries.map Json.Entry.item) ++ rest⟩ first =
        .ok (changed, next)) :
    Gathers draft entries changed ∧ next.rest = rest := by
  -- Each member is read into the draft that the members before it have left.
  induction entries generalizing draft first before fuel place with
  | nil =>
      obtain ⟨spare, rfl⟩ := Nat.exists_eq_add_of_lt enough
      obtain ⟨last, ends⟩ := readMembers_nil rest draft first before _ place
      rw [List.map_nil, ends] at reads
      cases reads
      exact ⟨gathers_nil _, rfl⟩
  | cons entry later inductionHypothesis =>
      rw [List.forall_mem_cons] at areNames areValues
      rw [List.map_cons] at enough reads
      obtain ⟨spare, rfl⟩ : ∃ spare, fuel = spare + 1 := ⟨fuel - 1, by omega⟩
      have enoughLater := length_listed_lt areNames.1 enough
      obtain ⟨name, spells, unset⟩ :=
        spells_of_readMembers (later.map Json.Entry.item) rest draft first before (spare + 1) place
          areNames.1 reads
      rcases known : Field.ofName? name with _ | field
      · obtain ⟨atLater, skips⟩ := readMembers_foreign (later.map Json.Entry.item) rest draft first
          before spare place spells known areValues.1 (Nat.le_of_lt_succ enough)
        rw [skips] at reads
        obtain ⟨gathers, atRest⟩ :=
          inductionHypothesis areNames.2 areValues.2 enoughLater reads
        exact ⟨gathers.foreign spells known, atRest⟩
      · have names := (Field.names_iff spells).mpr known
        have notSet := unset field known
        obtain ⟨atValue, enters⟩ := readMembers_field (later.map Json.Entry.item) rest draft first
          before spare place names notSet
        rw [enters] at reads
        obtain ⟨⟨between, atLater⟩, readsField, readsLater⟩ := exists_of_bind_eq_ok reads
        obtain ⟨datum, isWritten, sets, atOthers⟩ := isWritten_of_readField areValues.1
          (Json.endsNumber_listed .curly entry.value.after (later.map Json.Entry.item) rest)
          (Json.isBlank_bytes entry.value.before) readsField
        obtain ⟨atLater, others⟩ := atLater
        cases atOthers
        obtain ⟨gathers, atRest⟩ :=
          inductionHypothesis areNames.2 areValues.2 enoughLater readsLater
        rw [Draft.has_eq, Option.isSome_eq_false_iff, Option.isNone_iff_eq_none] at notSet
        exact ⟨gathers.field names notSet isWritten sets, atRest⟩

/-- Members that state what a violation is are read, in any order. -/
theorem readMembers_states {violation : Violation} {entries : List Json.Entry}
    (spelled : ∀ entry ∈ entries, ∃ name, Spells name entry.name.inner)
    (areValues : ∀ entry ∈ entries, IsValue entry.value.inner) (noneTwice : NoneTwice entries)
    (states : ∀ entry ∈ entries, ∀ field : Field, field.Names entry →
      (violation.datum field).IsWritten entry.value.inner)
    {draft : Draft} (within : draft.Within violation)
    (unset : ∀ entry ∈ entries, ∀ field : Field, field.Names entry → draft.datum? field = none)
    {first : Bool} {before : Padding} {rest : List UInt8} {fuel : Nat}
    (enough : (listed .curly first before (entries.map Json.Entry.item) ++ rest).length < fuel)
    (place : Json.Place) :
    ∃ changed next,
      readMembers fuel draft
          ⟨place, listed .curly first before (entries.map Json.Entry.item) ++ rest⟩ first =
        .ok (changed, ⟨next, rest⟩) ∧ changed.Within violation := by
  induction entries generalizing draft first before fuel place with
  | nil =>
      obtain ⟨spare, rfl⟩ := Nat.exists_eq_add_of_lt enough
      obtain ⟨next, ends⟩ := readMembers_nil rest draft first before _ place
      exact ⟨draft, next, ends, within⟩
  | cons entry later inductionHypothesis =>
      rw [List.forall_mem_cons] at spelled areValues states unset
      obtain ⟨name, spells⟩ := spelled.1
      obtain ⟨notAgain, noneTwiceLater⟩ := List.pairwise_cons.mp noneTwice
      obtain ⟨spare, rfl⟩ : ∃ spare, fuel = spare + 1 := ⟨fuel - 1, by omega⟩
      have enoughLater := length_listed_lt spells.isString enough
      rcases known : Field.ofName? name with _ | field
      · obtain ⟨atLater, skips⟩ := readMembers_foreign (later.map Json.Entry.item) rest draft first
          before spare place spells known areValues.1 (Nat.le_of_lt_succ enough)
        obtain ⟨changed, next, reads, withinLater⟩ := inductionHypothesis spelled.2 areValues.2
          noneTwiceLater states.2 within unset.2 enoughLater atLater
        exact ⟨changed, next, skips.trans reads, withinLater⟩
      · have names := (Field.names_iff spells).mpr known
        have notSet : draft.has field = false := by
          rw [Draft.has_eq, unset.1 field names, Option.isSome_none]
        obtain ⟨atValue, enters⟩ := readMembers_field (later.map Json.Entry.item) rest draft first
          before spare place names notSet
        obtain ⟨between, atLater, readsField, sets⟩ := readField_written (states.1 field names)
          (Json.endsNumber_listed .curly entry.value.after (later.map Json.Entry.item) rest)
          (Json.isBlank_bytes entry.value.before) draft atValue
        have unsetLater : ∀ member ∈ later, ∀ other : Field, other.Names member →
            between.datum? other = none := by
          intro member isMember other namesMember
          have notFirst : other ≠ field := by
            rintro rfl
            exact notAgain member isMember other names namesMember
          rw [sets.2 other notFirst]
          exact unset.2 member isMember other namesMember
        obtain ⟨changed, next, reads, withinLater⟩ := inductionHypothesis spelled.2 areValues.2
          noneTwiceLater states.2 (sets.within within) unsetLater enoughLater atLater
        refine ⟨changed, next, ?_, withinLater⟩
        rw [List.map_cons, enters, readsField]
        exact reads

/-! ## Values of a list -/

/-- What the values of a list change in a draft.  They are those of the first fields. -/
structure Takes (draft : Draft) (present : List Field) (items : List (Padded (List UInt8)))
    (changed : Draft) : Prop where
  set : List.Forall₂ (fun field item =>
    ∃ datum : Datum, changed.datum? field = some datum ∧ datum.IsWritten item.inner) present items
  known : ∀ field ∈ present, changed.datum? field ≠ none
  same : ∀ field, field ∉ present → changed.datum? field = draft.datum? field

theorem takes_nil (draft : Draft) : Takes draft [] [] draft where
  set := .nil
  known := List.forall_mem_nil _
  same _ _ := rfl

theorem Takes.cons {draft between changed : Draft} {field : Field} {datum : Datum}
    {present : List Field} {item : Padded (List UInt8)} {items : List (Padded (List UInt8))}
    (notAgain : field ∉ present) (isWritten : datum.IsWritten item.inner)
    (sets : draft.Sets field datum between) (takes : Takes between present items changed) :
    Takes draft (field :: present) (item :: items) changed := by
  have stays : changed.datum? field = some datum := (takes.same field notAgain).trans sets.1
  refine ⟨.cons ⟨datum, stays, isWritten⟩ takes.set, ?_, ?_⟩
  · refine List.forall_mem_cons.mpr ⟨?_, takes.known⟩
    rw [stays]
    exact Option.some_ne_none _
  · intro other absent
    rw [List.mem_cons, not_or] at absent
    rw [takes.same other absent.2, sets.2 other absent.1]

section

variable (item : Padded (List UInt8)) (items : List (Padded (List UInt8))) (rest : List UInt8)
  (draft : Draft) (first : Bool) (before : Padding) (field : Field) (later : List Field)
  (place : Json.Place)

theorem readItems_cons (isValue : IsValue item.inner) :
    ∃ next, readItems draft ⟨place, listed .square first before (item :: items) ++ rest⟩
        (field :: later) first =
      readField draft ⟨next, item.inner ++ (listed .square false item.after items ++ rest)⟩
        field >>= fun (draft, cursor) => readItems draft cursor later false := by
  obtain ⟨next, enters⟩ := Json.Cursor.nextElement_listed_cons first before item items rest place
    isValue.exists_cons
  refine ⟨next, ?_⟩
  rw [readItems, enters]
  simp only [bind, Except.bind, if_true]

theorem readItems_nil :
    ∃ next, readItems draft ⟨place, listed .square first before [] ++ rest⟩
        (field :: later) first =
      if field = .rule ∨ field = .file ∨ field = .path then
        (⟨next, byte ']' :: rest⟩ : Cursor).next.fault
          (.lengthInvalid (Field.all.length - later.length - 1) (expected ++ " with 6 elements"))
      else .ok (draft, ⟨next, byte ']' :: rest⟩) := by
  obtain ⟨next, ends⟩ := Json.Cursor.nextElement_listed_nil first before rest place
  refine ⟨next, ?_⟩
  rw [readItems, ends]
  simp only [bind, Except.bind, Bool.false_eq_true, if_false]
  rfl

end

/-- If a list is read and closed, its values are those of the first fields. -/
theorem takes_of_readItems {fields : List Field} (distinct : fields.Nodup)
    {items : List (Padded (List UInt8))} (areValues : ∀ item ∈ items, IsValue item.inner)
    {draft changed : Draft} {first : Bool} {before : Padding} {rest : List UInt8}
    {place : Json.Place} {atEnd next : Cursor}
    (reads : readItems draft ⟨place, listed .square first before items ++ rest⟩ fields first =
      .ok (changed, atEnd))
    (closes : atEnd.closeList = .ok next) :
    ∃ present missing, fields = present ++ missing ∧ Takes draft present items changed ∧
      next.rest = rest := by
  induction fields generalizing items draft first before place with
  | nil =>
      -- There are no more fields, so only the closing bracket decides whether the list is over.
      cases reads
      cases items with
      | nil =>
          obtain ⟨last, closesToo⟩ := Json.Cursor.closeList_listed_nil first before rest place
          rw [closesToo] at closes
          cases closes
          exact ⟨[], [], rfl, takes_nil _, rfl⟩
      | cons item items =>
          rw [List.forall_mem_cons] at areValues
          exact absurd closes (Json.Cursor.closeList_listed_cons first before item items rest place
            areValues.1.exists_cons next)
  | cons field later inductionHypothesis =>
      obtain ⟨notAgain, distinctLater⟩ := List.nodup_cons.mp distinct
      cases items with
      | nil =>
          obtain ⟨atBracket, ends⟩ := readItems_nil rest draft first before field later place
          rw [ends] at reads
          split at reads
          · cases reads
          · cases reads
            obtain ⟨last, closesToo⟩ :=
              Json.Cursor.closeList_blank Json.isBlank_nil rest atBracket
            rw [List.nil_append] at closesToo
            rw [closesToo] at closes
            cases closes
            exact ⟨[], _, rfl, takes_nil _, rfl⟩
      | cons item items =>
          rw [List.forall_mem_cons] at areValues
          obtain ⟨atItem, enters⟩ :=
            readItems_cons item items rest draft first before field later place areValues.1
          rw [enters] at reads
          obtain ⟨⟨between, atLater, others⟩, readsField, readsLater⟩ := exists_of_bind_eq_ok reads
          obtain ⟨datum, isWritten, sets, atOthers⟩ := isWritten_of_readField areValues.1
            (Json.endsNumber_listed .square item.after items rest) Json.isBlank_nil readsField
          cases atOthers
          obtain ⟨present, missing, rfl, takes, atRest⟩ :=
            inductionHypothesis distinctLater areValues.2 readsLater
          have notPresent : field ∉ present := fun member =>
            notAgain (List.mem_append_left missing member)
          exact ⟨field :: present, missing, rfl, takes.cons notPresent isWritten sets, atRest⟩

/-- Values that state what a violation is are read, whichever fields are left out at the end. -/
theorem readItems_states {violation : Violation} {present missing : List Field}
    (distinct : present.Nodup) {items : List (Padded (List UInt8))}
    (states : List.Forall₂ (fun field item => (violation.datum field).IsWritten item.inner)
      present items)
    (optional : ∀ field ∈ missing, field.default? = some (violation.datum field))
    {draft : Draft} (within : draft.Within violation) (first : Bool) (before : Padding)
    (rest : List UInt8) (place : Json.Place) :
    ∃ changed atEnd next,
      readItems draft ⟨place, listed .square first before items ++ rest⟩ (present ++ missing)
          first = .ok (changed, atEnd) ∧
        atEnd.closeList = .ok ⟨next, rest⟩ ∧ changed.Within violation ∧
        Takes draft present items changed := by
  induction states generalizing draft first before place with
  | nil =>
      cases missing with
      | nil =>
          obtain ⟨next, closes⟩ := Json.Cursor.closeList_listed_nil first before rest place
          exact ⟨draft, _, next, rfl, closes, within, takes_nil draft⟩
      | cons field later =>
          obtain ⟨atBracket, ends⟩ := readItems_nil rest draft first before field later place
          obtain ⟨next, closes⟩ := Json.Cursor.closeList_blank Json.isBlank_nil rest atBracket
          have notRequired : ¬(field = .rule ∨ field = .file ∨ field = .path) := by
            have hasDefault := optional field List.mem_cons_self
            rintro (rfl | rfl | rfl) <;> cases hasDefault
          rw [if_neg notRequired] at ends
          exact ⟨draft, _, next, ends, closes, within, takes_nil draft⟩
  | @cons field item present items isWritten states inductionHypothesis =>
      obtain ⟨notAgain, distinctLater⟩ := List.nodup_cons.mp distinct
      obtain ⟨atItem, enters⟩ := readItems_cons item items rest draft first before field
        (present ++ missing) place (Datum.isValue isWritten)
      obtain ⟨between, atLater, readsField, sets⟩ := readField_written isWritten
        (Json.endsNumber_listed .square item.after items rest) Json.isBlank_nil draft atItem
      obtain ⟨changed, atEnd, next, reads, closes, withinLater, takes⟩ :=
        inductionHypothesis distinctLater (sets.within within) false item.after atLater
      refine ⟨changed, atEnd, next, ?_, closes, withinLater, takes.cons notAgain isWritten sets⟩
      rw [List.nil_append] at readsField
      rw [List.cons_append, enters, readsField]
      exact reads

end Violation
end FieldLine
