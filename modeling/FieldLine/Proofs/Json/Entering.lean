import FieldLine.Proofs.Json.Grammar

/-!
# Entering elements and members

A reader gets from each element of an array and each member of an object to the next, whatever
white space stands around them.
-/

namespace FieldLine
namespace Json

open JsonSyntax (Padded Padding)

namespace Cursor

section

variable {blank : List UInt8}

theorem nextElement_blank (isBlank : IsBlank blank) (text : List UInt8) (first : Bool)
    (place : Place) :
    ∃ next, (⟨place, blank ++ text⟩ : Cursor).nextElement first =
      (⟨next, text⟩ : Cursor).nextElement first := by
  obtain ⟨next, skips⟩ := skipSpace_blank isBlank text place
  refine ⟨next, ?_⟩
  rw [nextElement, nextElement, skips]

theorem nextMember_blank (isBlank : IsBlank blank) (text : List UInt8) (first : Bool)
    (place : Place) :
    ∃ next, (⟨place, blank ++ text⟩ : Cursor).nextMember first =
      (⟨next, text⟩ : Cursor).nextMember first := by
  obtain ⟨next, skips⟩ := skipSpace_blank isBlank text place
  refine ⟨next, ?_⟩
  rw [nextMember, nextMember, skips]

theorem skipColon_padded (isBlank : IsBlank blank) (rest : List UInt8) (place : Place) :
    ∃ next, (⟨place, blank ++ byte ':' :: rest⟩ : Cursor).skipColon = .ok ⟨next, rest⟩ := by
  obtain ⟨between, skips⟩ := skipSpace_solid (b := byte ':') rfl isBlank rest place
  refine ⟨between.after (byte ':'), ?_⟩
  rw [skipColon, skips]
  simp only [if_true, Cursor.next]

theorem closeList_blank (isBlank : IsBlank blank) (rest : List UInt8) (place : Place) :
    ∃ next, (⟨place, blank ++ byte ']' :: rest⟩ : Cursor).closeList = .ok ⟨next, rest⟩ := by
  obtain ⟨between, skips⟩ := skipSpace_solid (b := byte ']') rfl isBlank rest place
  refine ⟨between.after (byte ']'), ?_⟩
  rw [closeList, skips]
  simp only [if_true, Cursor.next]

end

variable (first : Bool) (before : Padding) (item : Padded (List UInt8))
  (items : List (Padded (List UInt8))) (rest : List UInt8) (place : Place)

theorem nextElement_listed_nil :
    ∃ next, (⟨place, listed .square first before [] ++ rest⟩ : Cursor).nextElement first =
      .ok (⟨next, byte ']' :: rest⟩, false) := by
  rw [listed, List.append_assoc]
  exact nextElement_end (isBlank_bytes before) rest first place

theorem nextElement_listed_cons (solid : ∃ b later, item.inner = b :: later ∧ IsSolid b) :
    ∃ next, (⟨place, listed .square first before (item :: items) ++ rest⟩ : Cursor).nextElement
        first =
      .ok (⟨next, item.inner ++ (listed .square false item.after items ++ rest)⟩, true) := by
  obtain ⟨b, later, begins, notSpace, notEnd, -⟩ := solid
  obtain ⟨atLead, skips⟩ := nextElement_blank (isBlank_bytes before)
    (lead item.before.bytes first ++
      (item.inner ++ (listed .square false item.after items ++ rest))) first place
  obtain ⟨next, enters⟩ := nextElement_lead (isBlank_bytes item.before) notSpace notEnd
    (later ++ (listed .square false item.after items ++ rest)) first atLead
  refine ⟨next, ?_⟩
  simp only [listed, List.append_assoc]
  rw [skips, begins, List.cons_append, enters]

theorem closeList_listed_nil :
    ∃ next, (⟨place, listed .square first before [] ++ rest⟩ : Cursor).closeList =
      .ok ⟨next, rest⟩ := by
  rw [listed, List.append_assoc]
  exact closeList_blank (isBlank_bytes before) rest place

/-- A list is not closed where an element is left. -/
theorem closeList_listed_cons (solid : ∃ b later, item.inner = b :: later ∧ IsSolid b)
    (cursor : Cursor) :
    (⟨place, listed .square first before (item :: items) ++ rest⟩ : Cursor).closeList ≠
      .ok cursor := by
  obtain ⟨b, later, begins, notSpace, notEnd, -⟩ := solid
  cases first with
  | true =>
      have isBlank : IsBlank (before.bytes ++ item.before.bytes) :=
        List.forall_mem_append.mpr ⟨isBlank_bytes before, isBlank_bytes item.before⟩
      obtain ⟨between, skips⟩ := skipSpace_solid notSpace isBlank
        (later ++ (listed .square false item.after items ++ rest)) place
      simp only [listed, lead, begins, List.append_assoc, List.cons_append] at skips ⊢
      rw [closeList, skips]
      simp only [if_neg notEnd]
      split_ifs <;> rintro ⟨⟩
  | false =>
      obtain ⟨between, skips⟩ := skipSpace_solid (b := byte ',') rfl (isBlank_bytes before)
        (item.before.bytes ++ (item.inner ++ (listed .square false item.after items ++ rest))) place
      simp only [listed, lead, List.append_assoc, List.cons_append]
      rw [closeList, skips]
      simp only [if_neg (show ¬byte ',' = byte ']' by decide), if_true]
      split_ifs <;> rintro ⟨⟩

theorem nextMember_listed_nil :
    ∃ next, (⟨place, listed .curly first before [] ++ rest⟩ : Cursor).nextMember first =
      .ok (⟨next, byte '\x7d' :: rest⟩, false) := by
  rw [listed, List.append_assoc]
  exact nextMember_end (isBlank_bytes before) rest first place

/-- What is left of a member after its name. -/
theorem nextMember_listed_cons {entry : Entry} {body : List UInt8}
    (begins : entry.name.inner = byte '"' :: body) :
    ∃ next, (⟨place, listed .curly first before (entry.item :: items) ++ rest⟩ : Cursor).nextMember
        first =
      .ok (⟨next, body ++ (entry.name.after.bytes ++ byte ':' :: (entry.value.before.bytes ++
        (entry.value.inner ++ (listed .curly false entry.value.after items ++ rest))))⟩, true) := by
  obtain ⟨atLead, skips⟩ := nextMember_blank (isBlank_bytes before)
    (lead entry.name.before.bytes first ++ byte '"' :: (body ++ (entry.name.after.bytes ++
      byte ':' :: (entry.value.before.bytes ++ (entry.value.inner ++
        (listed .curly false entry.value.after items ++ rest)))))) first place
  obtain ⟨next, enters⟩ := nextMember_lead (isBlank_bytes entry.name.before)
    (body ++ (entry.name.after.bytes ++ byte ':' :: (entry.value.before.bytes ++
      (entry.value.inner ++ (listed .curly false entry.value.after items ++ rest))))) first atLead
  refine ⟨next, ?_⟩
  simp only [listed, Entry.item, begins, List.append_assoc, List.cons_append]
  rw [skips, enters]

/-- From one member a reader gets to its name, to the colon and to its value. -/
theorem enter_member {entry : Entry} {name : String} (spells : Spells name entry.name.inner) :
    ∃ (atName atColon : Cursor) (atValue : Place),
      (⟨place, listed .curly first before (entry.item :: items) ++ rest⟩ : Cursor).nextMember
          first = .ok (atName, true) ∧
        Text.read atName = .ok (name, atColon) ∧
        atColon.skipColon = .ok ⟨atValue, entry.value.before.bytes ++
          (entry.value.inner ++ (listed .curly false entry.value.after items ++ rest))⟩ := by
  obtain ⟨body, begins⟩ := spells.isString.exists_cons
  rw [begins] at spells
  obtain ⟨atName, enters⟩ := nextMember_listed_cons first before items rest place begins
  obtain ⟨atColon, reads⟩ := read_of_spells spells atName
    (entry.name.after.bytes ++ byte ':' :: (entry.value.before.bytes ++
      (entry.value.inner ++ (listed .curly false entry.value.after items ++ rest))))
  obtain ⟨atValue, skips⟩ := skipColon_padded (isBlank_bytes entry.name.after)
    (entry.value.before.bytes ++
      (entry.value.inner ++ (listed .curly false entry.value.after items ++ rest))) atColon
  exact ⟨_, _, atValue, enters, reads, skips⟩

end Cursor

end Json
end FieldLine
