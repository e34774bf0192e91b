import FieldLine.Proofs.Violation.Members

/-!
# Arrays of violation records

An element of an array states a violation by the members of an object, in any order, or by the
values of a list.  An array is read if and only if each of its elements states a violation.
-/

namespace FieldLine

namespace Violation

open Json (Cursor IsString IsValue Spells byte enclosed listBytes listed objectBytes)
open Json.Number (EndsNumber)
open JsonSyntax (Padded Padding)

/-! ## Records -/

/-- The members of an object state what a violation is.  The other members can be anything. -/
structure Describes (violation : Violation) (entries : List Json.Entry) : Prop where
  spelled : ∀ entry ∈ entries, ∃ name, Spells name entry.name.inner
  values : ∀ entry ∈ entries, IsValue entry.value.inner
  noneTwice : NoneTwice entries
  states : ∀ entry ∈ entries, ∀ field : Field, field.Names entry →
    (violation.datum field).IsWritten entry.value.inner
  optional : ∀ field : Field, (∀ entry ∈ entries, ¬field.Names entry) →
    field.default? = some (violation.datum field)

/-- The values of a list state what a violation is.  Fields may be missing at the end. -/
def Lists (violation : Violation) (items : List (Padded (List UInt8))) : Prop :=
  ∃ present missing, Field.all = present ++ missing ∧
    List.Forall₂ (fun field item => (violation.datum field).IsWritten item.inner) present items ∧
    ∀ field ∈ missing, field.default? = some (violation.datum field)

inductive IsRecord (violation : Violation) : List UInt8 → Prop where
  | object (inside : Padding) {entries : List Json.Entry}
      (describes : Describes violation entries) :
      IsRecord violation (objectBytes inside entries)
  | list (inside : Padding) {items : List (Padded (List UInt8))} (lists : Lists violation items) :
      IsRecord violation (listBytes inside items)

theorem IsRecord.isValue {violation : Violation} {written : List UInt8}
    (isRecord : IsRecord violation written) : IsValue written := by
  cases isRecord with
  | object inside describes =>
      refine .object inside ?_ describes.values
      intro entry member
      obtain ⟨name, spells⟩ := describes.spelled entry member
      exact spells.isString
  | list inside lists =>
      obtain ⟨present, missing, -, states, -⟩ := lists
      refine .list inside ?_
      intro item member
      obtain ⟨field, -, isWritten⟩ := exists_mem_of_forall₂ states member
      exact Datum.isValue isWritten

theorem describes_perm {violation : Violation} {entries others : List Json.Entry}
    (perm : entries.Perm others) (describes : Describes violation entries) :
    Describes violation others where
  spelled entry member := describes.spelled entry (perm.mem_iff.mpr member)
  values entry member := describes.values entry (perm.mem_iff.mpr member)
  noneTwice := by
    refine (perm.pairwise_iff ?_).mp describes.noneTwice
    intro first second apart field names namesToo
    exact apart field namesToo names
  states entry member := describes.states entry (perm.mem_iff.mpr member)
  optional field absent :=
    describes.optional field fun entry member => absent entry (perm.mem_iff.mp member)

/-- Members for distinct fields, each of them with what its field says, are a record if the fields
that are left out have their defaults. -/
theorem describes_of_forall₂ {violation : Violation} {entries : List Json.Entry}
    {fields : List Field} (distinct : fields.Nodup)
    (states : List.Forall₂ (fun entry field => field.Names entry ∧
      (violation.datum field).IsWritten entry.value.inner) entries fields)
    (optional : ∀ field, field ∉ fields → field.default? = some (violation.datum field)) :
    Describes violation entries := by
  have each : ∀ entry ∈ entries, ∃ field ∈ fields, field.Names entry ∧
      (violation.datum field).IsWritten entry.value.inner :=
    fun entry member => exists_mem_of_forall₂ states.flip member
  refine ⟨?_, ?_, ?_, ?_, ?_⟩
  · intro entry member
    obtain ⟨field, -, names, -⟩ := each entry member
    exact ⟨field.name, names⟩
  · intro entry member
    obtain ⟨field, -, -, isWritten⟩ := each entry member
    exact Datum.isValue isWritten
  · exact noneTwice_of_forall₂ distinct (states.imp fun _ _ => And.left)
  · intro entry member field names
    obtain ⟨other, -, namesToo, isWritten⟩ := each entry member
    rwa [names.unique namesToo]
  · intro field absent
    apply optional
    intro member
    obtain ⟨entry, entryMember, names, -⟩ := exists_mem_of_forall₂ states member
    exact absent entry entryMember names

/-- A member that no record has makes no difference. -/
theorem describes_cons_foreign {violation : Violation} {entry : Json.Entry}
    {entries : List Json.Entry} {name : String} (spells : Spells name entry.name.inner)
    (foreign : Field.ofName? name = none) (isValue : IsValue entry.value.inner) :
    Describes violation (entry :: entries) ↔ Describes violation entries := by
  have nameless (field : Field) : ¬field.Names entry := by
    rw [Field.names_iff spells, foreign]
    exact nofun
  constructor
  · intro describes
    refine ⟨?_, ?_, ?_, ?_, ?_⟩
    · exact (List.forall_mem_cons.mp describes.spelled).2
    · exact (List.forall_mem_cons.mp describes.values).2
    · exact (List.pairwise_cons.mp describes.noneTwice).2
    · exact (List.forall_mem_cons.mp describes.states).2
    · intro field absent
      exact describes.optional field (List.forall_mem_cons.mpr ⟨nameless field, absent⟩)
  · intro describes
    refine ⟨?_, ?_, ?_, ?_, ?_⟩
    · exact List.forall_mem_cons.mpr ⟨⟨name, spells⟩, describes.spelled⟩
    · exact List.forall_mem_cons.mpr ⟨isValue, describes.values⟩
    · exact .cons (fun _ _ field names => absurd names (nameless field)) describes.noneTwice
    · exact List.forall_mem_cons.mpr
        ⟨fun field names => absurd names (nameless field), describes.states⟩
    · intro field absent
      exact describes.optional field (List.forall_mem_cons.mp absent).2

theorem describes_append_foreign {violation : Violation} {entries others : List Json.Entry}
    (foreign : ∀ entry ∈ others, ∃ name, Spells name entry.name.inner ∧
      Field.ofName? name = none ∧ IsValue entry.value.inner)
    (describes : Describes violation entries) : Describes violation (entries ++ others) := by
  refine describes_perm List.perm_append_comm ?_
  induction others with
  | nil => exact describes
  | cons entry later inductionHypothesis =>
      rw [List.forall_mem_cons] at foreign
      obtain ⟨name, spells, unknown, isValue⟩ := foreign.1
      exact (describes_cons_foreign spells unknown isValue).mpr (inductionHypothesis foreign.2)

/-! ## Drafts of records -/

theorem within_empty (violation : Violation) : ({} : Draft).Within violation := by
  intro field datum found
  rw [Draft.datum?_empty] at found
  cases found

theorem nodup_all : Field.all.Nodup := by
  decide

theorem mem_all (field : Field) : field ∈ Field.all := by
  cases field <;> decide

section

variable {violation : Violation} {draft : Draft} {entries : List Json.Entry}
  {items : List (Padded (List UInt8))}

theorem Gathers.describes (gathers : Gathers {} entries draft)
    (areValues : ∀ entry ∈ entries, IsValue entry.value.inner)
    (finishes : draft.finish = .ok violation) : Describes violation entries := by
  rw [Draft.finish_eq_ok_iff] at finishes
  refine ⟨gathers.spelled, areValues, gathers.noneTwice, ?_, ?_⟩
  · intro entry member field names
    obtain ⟨datum, found, isWritten⟩ := gathers.set entry member field names
    have same := finishes field
    rw [found, Option.some_or] at same
    rwa [← Option.some.inj same]
  · intro field absent
    have same := finishes field
    rwa [gathers.same field absent, Draft.datum?_empty, Option.none_or] at same

theorem Gathers.finish (gathers : Gathers {} entries draft) (within : draft.Within violation)
    (describes : Describes violation entries) : draft.finish = .ok violation := by
  rw [Draft.finish_eq_ok_iff]
  intro field
  by_cases named : ∃ entry ∈ entries, field.Names entry
  · obtain ⟨entry, member, names⟩ := named
    obtain ⟨datum, found, -⟩ := gathers.set entry member field names
    rw [found, Option.some_or, within field datum found]
  · have absent : ∀ entry ∈ entries, ¬field.Names entry := fun entry member names =>
      named ⟨entry, member, names⟩
    rw [gathers.same field absent, Draft.datum?_empty, Option.none_or]
    exact describes.optional field absent

theorem Takes.lists {present missing : List Field} (all : Field.all = present ++ missing)
    (takes : Takes {} present items draft) (finishes : draft.finish = .ok violation) :
    Lists violation items := by
  rw [Draft.finish_eq_ok_iff] at finishes
  refine ⟨present, missing, all, takes.set.imp ?_, ?_⟩
  · rintro field item ⟨datum, found, isWritten⟩
    have same := finishes field
    rw [found, Option.some_or] at same
    rwa [← Option.some.inj same]
  · intro field member
    have absent : field ∉ present := fun memberToo =>
      (List.nodup_append.mp (all ▸ nodup_all)).2.2 field memberToo field member rfl
    have same := finishes field
    rwa [takes.same field absent, Draft.datum?_empty, Option.none_or] at same

theorem Takes.finish {present missing : List Field} (all : Field.all = present ++ missing)
    (takes : Takes {} present items draft) (within : draft.Within violation)
    (optional : ∀ field ∈ missing, field.default? = some (violation.datum field)) :
    draft.finish = .ok violation := by
  rw [Draft.finish_eq_ok_iff]
  intro field
  by_cases member : field ∈ present
  · obtain ⟨datum, found⟩ := Option.ne_none_iff_exists'.mp (takes.known field member)
    rw [found, Option.some_or, within field datum found]
  · have isMissing : field ∈ missing :=
      (List.mem_append.mp (all ▸ mem_all field)).resolve_left member
    rw [takes.same field member, Draft.datum?_empty, Option.none_or]
    exact optional field isMissing

end

/-! ## Reading records -/

section

variable {violation : Violation} {element rest : List UInt8} {fuel : Nat} {next : Cursor}

theorem readRecord_object (inside : Padding) (entries : List Json.Entry) (rest : List UInt8)
    (fuel : Nat) (place : Json.Place) :
    readRecord fuel ⟨place, objectBytes inside entries ++ rest⟩ =
      readMembers fuel {} ⟨place.after (byte '\x7b'),
          listed .curly true inside (entries.map Json.Entry.item) ++ rest⟩ true >>=
        fun (draft, cursor) => finish draft cursor := by
  rw [readRecord, objectBytes, enclosed, List.cons_append, Json.Cursor.skipSpace_at rfl]
  rfl

theorem readRecord_list (inside : Padding) (items : List (Padded (List UInt8)))
    (rest : List UInt8) (fuel : Nat) (place : Json.Place) :
    readRecord fuel ⟨place, listBytes inside items ++ rest⟩ =
      readItems {} ⟨place.after (byte '['), listed .square true inside items ++ rest⟩ Field.all true
        >>= fun (draft, cursor) => cursor.closeList >>= finish draft := by
  rw [readRecord, listBytes, enclosed, List.cons_append, Json.Cursor.skipSpace_at rfl]
  rfl

theorem readRecord_scalar {b : UInt8} (solid : Json.isSpace b = false) (notList : b ≠ byte '[')
    (notObject : b ≠ byte '\x7b') (later : List UInt8) (fuel : Nat) (place : Json.Place)
    (read : Violation × Cursor) : readRecord fuel ⟨place, b :: later⟩ ≠ .ok read := by
  rw [readRecord, Json.Cursor.skipSpace_at solid]
  simp only [if_neg notList, if_neg notObject]
  exact refuse_ne_ok _ _ _ _

theorem finish_eq_ok_iff {draft : Draft} {cursor : Cursor} :
    finish draft cursor = .ok (violation, next) ↔
      draft.finish = .ok violation ∧ cursor = next := by
  rw [finish]
  rcases draft.finish with field | whole
  · exact ⟨nofun, nofun⟩
  · simp

theorem describes_of_readRecord {inside : Padding} {entries : List Json.Entry}
    (areNames : ∀ entry ∈ entries, IsString entry.name.inner)
    (areValues : ∀ entry ∈ entries, IsValue entry.value.inner) {place : Json.Place}
    (enough : (objectBytes inside entries ++ rest).length ≤ fuel)
    (reads : readRecord fuel ⟨place, objectBytes inside entries ++ rest⟩ =
      .ok (violation, next)) :
    Describes violation entries ∧ next.rest = rest := by
  rw [readRecord_object] at reads
  obtain ⟨⟨draft, atEnd⟩, readsMembers, finishes⟩ := exists_of_bind_eq_ok reads
  obtain ⟨isDraft, rfl⟩ := finish_eq_ok_iff.mp finishes
  obtain ⟨gathers, atRest⟩ :=
    gathers_of_readMembers areNames areValues (Nat.lt_of_succ_le enough) readsMembers
  exact ⟨gathers.describes areValues isDraft, atRest⟩

theorem lists_of_readRecord {inside : Padding} {items : List (Padded (List UInt8))}
    (areValues : ∀ item ∈ items, IsValue item.inner) {place : Json.Place}
    (reads : readRecord fuel ⟨place, listBytes inside items ++ rest⟩ = .ok (violation, next)) :
    Lists violation items ∧ next.rest = rest := by
  rw [readRecord_list] at reads
  obtain ⟨⟨draft, atEnd⟩, readsItems, reads⟩ := exists_of_bind_eq_ok reads
  obtain ⟨last, closes, finishes⟩ := exists_of_bind_eq_ok reads
  obtain ⟨isDraft, rfl⟩ := finish_eq_ok_iff.mp finishes
  obtain ⟨present, missing, all, takes, atRest⟩ :=
    takes_of_readItems nodup_all areValues readsItems closes
  exact ⟨takes.lists all isDraft, atRest⟩

theorem isRecord_of_readRecord (isValue : IsValue element)
    (enough : (element ++ rest).length ≤ fuel) {place : Json.Place}
    (reads : readRecord fuel ⟨place, element ++ rest⟩ = .ok (violation, next)) :
    IsRecord violation element ∧ next.rest = rest := by
  cases isValue with
  | literal word =>
      rcases word with (_ | _) | _ <;>
        exact absurd reads (readRecord_scalar rfl (by decide) (by decide) _ _ _ _)
  | number numeral =>
      obtain ⟨b, later, begins, isMinus | digit⟩ := Json.exists_number_cons numeral
      · rw [begins, isMinus] at reads
        exact absurd reads (readRecord_scalar rfl (by decide) (by decide) _ _ _ _)
      · rw [begins] at reads
        exact absurd reads (readRecord_scalar (Json.not_isSpace_of_isDigit digit)
          (Json.ne_of_isDigit digit rfl) (Json.ne_of_isDigit digit rfl) _ _ _ _)
  | string isString =>
      obtain ⟨body, rfl⟩ := isString.exists_cons
      exact absurd reads (readRecord_scalar rfl (by decide) (by decide) _ _ _ _)
  | list inside values =>
      obtain ⟨lists, atRest⟩ := lists_of_readRecord values reads
      exact ⟨.list inside lists, atRest⟩
  | object inside names values =>
      obtain ⟨describes, atRest⟩ := describes_of_readRecord names values enough reads
      exact ⟨.object inside describes, atRest⟩

theorem readRecord_of_isRecord (isRecord : IsRecord violation element)
    (enough : (element ++ rest).length ≤ fuel) (place : Json.Place) :
    ∃ next, readRecord fuel ⟨place, element ++ rest⟩ = .ok (violation, ⟨next, rest⟩) := by
  cases isRecord with
  | @object inside entries describes =>
      have enoughMembers := Nat.lt_of_succ_le enough
      obtain ⟨draft, next, reads, within⟩ := readMembers_states describes.spelled describes.values
        describes.noneTwice describes.states (within_empty violation)
        (fun _ _ field _ => Draft.datum?_empty field) enoughMembers (place.after (byte '\x7b'))
      have areNames : ∀ entry ∈ entries, IsString entry.name.inner := fun entry member =>
        (describes.spelled entry member).elim fun name spells => spells.isString
      have gathers := (gathers_of_readMembers areNames describes.values enoughMembers reads).1
      refine ⟨next, ?_⟩
      rw [readRecord_object, reads]
      exact finish_eq_ok_iff.mpr ⟨gathers.finish within describes, rfl⟩
  | @list inside items lists =>
      obtain ⟨present, missing, all, states, optional⟩ := lists
      have distinct : present.Nodup := (List.nodup_append.mp (all ▸ nodup_all)).1
      obtain ⟨draft, atEnd, next, reads, closes, within, takes⟩ :=
        readItems_states distinct states optional (within_empty violation) true inside rest
          (place.after (byte '['))
      refine ⟨next, ?_⟩
      rw [readRecord_list, all, reads]
      simp only [bind, Except.bind, closes]
      exact finish_eq_ok_iff.mpr ⟨takes.finish all within optional, rfl⟩

end

/-! ## Reading arrays of records -/

section

variable {elements : List (Padded (List UInt8))} {rest : List UInt8}

theorem readRecords_nil (done : List Violation) (first : Bool) (before : Padding)
    (rest : List UInt8) (fuel : Nat) (place : Json.Place) :
    ∃ next, readRecords (fuel + 1) done ⟨place, listed .square first before [] ++ rest⟩ first =
      .ok (done.reverse, ⟨next, rest⟩) := by
  obtain ⟨next, ends⟩ := Json.Cursor.nextElement_listed_nil first before rest place
  refine ⟨next.after (byte ']'), ?_⟩
  rw [readRecords, ends]
  rfl

theorem readRecords_cons {element : Padded (List UInt8)} (isValue : IsValue element.inner)
    (elements : List (Padded (List UInt8))) (done : List Violation) (first : Bool)
    (before : Padding) (rest : List UInt8) (fuel : Nat) (place : Json.Place) :
    ∃ next, readRecords (fuel + 1) done
        ⟨place, listed .square first before (element :: elements) ++ rest⟩ first =
      readRecord fuel
          ⟨next, element.inner ++ (listed .square false element.after elements ++ rest)⟩ >>=
        fun (violation, cursor) => readRecords fuel (violation :: done) cursor false := by
  obtain ⟨next, enters⟩ := Json.Cursor.nextElement_listed_cons first before element elements rest
    place isValue.exists_cons
  refine ⟨next, ?_⟩
  rw [readRecords, enters]
  simp only [bind, Except.bind, if_true]

theorem length_elements_lt {element : Padded (List UInt8)} (isValue : IsValue element.inner)
    {first : Bool} {before : Padding} {fuel : Nat}
    (enough : (listed .square first before (element :: elements) ++ rest).length < fuel + 1) :
    (element.inner ++ (listed .square false element.after elements ++ rest)).length ≤ fuel ∧
      (listed .square false element.after elements ++ rest).length < fuel := by
  obtain ⟨b, later, begins, -⟩ := isValue.exists_cons
  simp only [listed, begins, List.length_append, List.length_cons] at enough ⊢
  omega

theorem readRecords_records {violations : List Violation}
    (records : List.Forall₂ (fun violation element => IsRecord violation element.inner) violations
      elements)
    (areValues : ∀ element ∈ elements, IsValue element.inner) (done : List Violation)
    {first : Bool} {before : Padding} {fuel : Nat}
    (enough : (listed .square first before elements ++ rest).length < fuel) (place : Json.Place) :
    ∃ next, readRecords fuel done ⟨place, listed .square first before elements ++ rest⟩ first =
      .ok (done.reverse ++ violations, ⟨next, rest⟩) := by
  induction records generalizing done first before fuel place with
  | nil =>
      obtain ⟨spare, rfl⟩ := Nat.exists_eq_add_of_lt enough
      rw [List.append_nil]
      exact readRecords_nil done first before rest _ place
  | @cons violation element violations elements isRecord records inductionHypothesis =>
      rw [List.forall_mem_cons] at areValues
      obtain ⟨spare, rfl⟩ : ∃ spare, fuel = spare + 1 := ⟨fuel - 1, by omega⟩
      obtain ⟨enoughElement, enoughLater⟩ := length_elements_lt areValues.1 enough
      obtain ⟨atElement, enters⟩ :=
        readRecords_cons areValues.1 elements done first before rest spare place
      obtain ⟨atLater, reads⟩ := readRecord_of_isRecord isRecord enoughElement atElement
      obtain ⟨next, readsLater⟩ :=
        inductionHypothesis areValues.2 (violation :: done) enoughLater atLater
      refine ⟨next, ?_⟩
      rw [enters, reads]
      simp only [bind, Except.bind, readsLater, List.reverse_cons, List.append_assoc,
        List.singleton_append]

theorem records_of_readRecords (areValues : ∀ element ∈ elements, IsValue element.inner)
    {done violations : List Violation} {first : Bool} {before : Padding} {fuel : Nat}
    (enough : (listed .square first before elements ++ rest).length < fuel) {place : Json.Place}
    {next : Cursor}
    (reads : readRecords fuel done ⟨place, listed .square first before elements ++ rest⟩ first =
      .ok (violations, next)) :
    ∃ later, violations = done.reverse ++ later ∧
      List.Forall₂ (fun violation element => IsRecord violation element.inner) later elements := by
  induction elements generalizing done first before fuel place with
  | nil =>
      obtain ⟨spare, rfl⟩ := Nat.exists_eq_add_of_lt enough
      obtain ⟨last, ends⟩ := readRecords_nil done first before rest _ place
      rw [ends] at reads
      cases reads
      exact ⟨[], (List.append_nil _).symm, .nil⟩
  | cons element elements inductionHypothesis =>
      rw [List.forall_mem_cons] at areValues
      obtain ⟨spare, rfl⟩ : ∃ spare, fuel = spare + 1 := ⟨fuel - 1, by omega⟩
      obtain ⟨enoughElement, enoughLater⟩ := length_elements_lt areValues.1 enough
      obtain ⟨atElement, enters⟩ :=
        readRecords_cons areValues.1 elements done first before rest spare place
      rw [enters] at reads
      obtain ⟨⟨violation, atLater, others⟩, readsRecord, readsLater⟩ := exists_of_bind_eq_ok reads
      obtain ⟨isRecord, atOthers⟩ := isRecord_of_readRecord areValues.1 enoughElement readsRecord
      cases atOthers
      obtain ⟨later, rfl, records⟩ := inductionHypothesis areValues.2 enoughLater readsLater
      refine ⟨violation :: later, ?_, .cons isRecord records⟩
      rw [List.reverse_cons, List.append_assoc, List.singleton_append]

/-- An array is read if and only if each of its elements is a record. -/
theorem readAll_eq_ok_iff (areValues : ∀ element ∈ elements, IsValue element.inner)
    (before inside after : Padding) (violations : List Violation) :
    readAll (before.bytes ++ (listBytes inside elements ++ after.bytes)) = .ok violations ↔
      List.Forall₂ (fun violation element => IsRecord violation element.inner) violations
        elements := by
  generalize isWhole : before.bytes ++ (listBytes inside elements ++ after.bytes) = whole
  have enough : (listed .square true inside elements ++ after.bytes).length < whole.length := by
    rw [← isWhole, listBytes, enclosed]
    simp only [List.length_append, List.length_cons]
    omega
  have shape : whole =
      before.bytes ++ byte '[' :: (listed .square true inside elements ++ after.bytes) := by
    rw [← isWhole]
    rfl
  obtain ⟨atBracket, skips⟩ := Json.Cursor.skipSpace_solid (b := byte '[') rfl
    (Json.isBlank_bytes before) (listed .square true inside elements ++ after.bytes) {}
  rw [← shape] at skips
  rw [readAll, Json.Cursor.start, skips]
  generalize whole.length = fuel at enough
  simp only [if_true, Json.Cursor.next]
  constructor
  · intro reads
    obtain ⟨⟨all, atEnd⟩, readsRecords, reads⟩ := exists_of_bind_eq_ok reads
    dsimp only at reads
    split at reads
    · cases reads
      obtain ⟨later, rfl, records⟩ := records_of_readRecords areValues enough readsRecords
      exact records
    · cases reads
  · intro records
    obtain ⟨atEnd, reads⟩ :=
      readRecords_records records areValues [] enough (atBracket.after (byte '['))
    obtain ⟨last, skipsAfter⟩ := Json.Cursor.skipSpace_end (Json.isBlank_bytes after) atEnd
    rw [reads]
    simp only [bind, Except.bind, skipsAfter, if_true]
    rfl

end

end Violation
end FieldLine
