import FieldLine.Proofs.Toml.Integers
import FieldLine.Proofs.Toml.Strings
import FieldLine.Toml.Document

/-!
# Reading back written statements

A key with a scalar value on a line of its own is read as one more entry of the table.
-/

namespace FieldLine
namespace Toml

/-! ## Values -/

theorem readValue_switch (value : Bool) (depth : Nat) (rest : List Char) :
    readValue depth ((if value then "true" else "false").toList ++ rest) =
      some (.boolean value, rest) := by
  cases value with
  | false => exact readValue_eq_readPlain (c := 'f') (by decide) (by decide) depth _
  | true => exact readValue_eq_readPlain (c := 't') (by decide) (by decide) depth _

theorem renderChars_eq_cons (chars : List Char) :
    ∃ quote later, Text.renderChars chars = quote :: later ∧ (quote = '"' ∨ quote = '\'') := by
  unfold Text.renderChars
  cases Text.form chars with
  | basic => exact ⟨'"', _, rfl, .inl rfl⟩
  | literal => exact ⟨'\'', _, rfl, .inr rfl⟩
  | tripledBasic => exact ⟨'"', _, rfl, .inl rfl⟩
  | tripledLiteral => exact ⟨'\'', _, rfl, .inr rfl⟩

theorem readValue_text (text : String) (depth : Nat) (rest : List Char) :
    readValue depth ((Text.render text).toList ++ '\n' :: rest) =
      some (.text text, '\n' :: rest) := by
  have reads : Text.read (Text.renderChars text.toList ++ '\n' :: rest) =
      some (.ofList text.toList, '\n' :: rest) :=
    Text.read_renderChars text.toList (by simp) (by simp)
  rw [String.ofList_toList] at reads
  obtain ⟨quote, later, begins, isQuote⟩ := renderChars_eq_cons text.toList
  rw [begins, List.cons_append] at reads
  rw [Text.render, String.toList_ofList, begins, List.cons_append]
  rcases isQuote with rfl | rfl
  · rw [readValue_eq_readPlain (by decide) (by decide), readPlain, reads]
    rfl
  · rw [readValue_eq_readPlain (by decide) (by decide), readPlain, reads]
    rfl

/-! ## Statements -/

theorem ne_of_isKeyChar {c other : Char} (keyChar : isKeyChar c = true)
    (noKeyChar : isKeyChar other = false) : c ≠ other := by
  rintro rfl
  rw [keyChar] at noKeyChar
  cases noKeyChar

theorem skipBlanks_eq {c : Char} (notBlank : isBlank c = false) (later : List Char) :
    skipBlanks (c :: later) = c :: later :=
  List.dropWhile_cons_of_neg (by simp [notBlank])

theorem skipBlanks_of_isKeyChar {c : Char} (keyChar : isKeyChar c = true) (later : List Char) :
    skipBlanks (c :: later) = c :: later := by
  apply skipBlanks_eq
  rw [isBlank, decide_eq_false (ne_of_isKeyChar keyChar rfl),
    decide_eq_false (ne_of_isKeyChar keyChar rfl), Bool.or_false]

section

variable {name : List Char} (someChar : name ≠ []) (keyChars : ∀ c ∈ name, isKeyChar c = true)
include someChar keyChars

theorem readKeyPart_name (rest : List Char) :
    readKeyPart (name ++ ' ' :: rest) = some (.ofList name, ' ' :: rest) := by
  have taken : (name ++ ' ' :: rest).takeWhile isKeyChar = name := by
    rw [List.takeWhile_append_of_pos keyChars, List.takeWhile_cons_of_neg (by decide),
      List.append_nil]
  have left : (name ++ ' ' :: rest).dropWhile isKeyChar = ' ' :: rest := by
    rw [List.dropWhile_append_of_pos keyChars, List.dropWhile_cons_of_neg (by decide)]
  obtain ⟨c, later, rfl⟩ := List.exists_cons_of_ne_nil someChar
  have keyChar := keyChars c List.mem_cons_self
  rw [List.cons_append] at taken left ⊢
  rw [readKeyPart, taken, left]
  · exact if_neg someChar
  · exact fun _ same => ne_of_isKeyChar keyChar rfl (List.cons.inj same).1
  · exact fun _ same => ne_of_isKeyChar keyChar rfl (List.cons.inj same).1

theorem skipBlanks_name (rest : List Char) : skipBlanks (name ++ rest) = name ++ rest := by
  obtain ⟨c, later, rfl⟩ := List.exists_cons_of_ne_nil someChar
  exact skipBlanks_of_isKeyChar (keyChars c List.mem_cons_self) (later ++ rest)

theorem readKey_name (rest : List Char) :
    readKey (name ++ ' ' :: '=' :: rest) = some (([], .ofList name), '=' :: rest) := by
  have equals : skipBlanks (' ' :: '=' :: rest) = '=' :: rest := by
    rw [skipBlanks, List.dropWhile_cons_of_pos (by decide),
      List.dropWhile_cons_of_neg (by decide)]
  have reads : readKeyFrom (limit - 1) [] (name ++ ' ' :: '=' :: rest) =
      some ([.ofList name], '=' :: rest) := by
    change readKeyFrom (limit - 2 + 1) [] (name ++ ' ' :: '=' :: rest) = _
    rw [readKeyFrom, skipBlanks_name someChar keyChars, readKeyPart_name someChar keyChars]
    simp only [bind, Option.bind, equals]
    rfl
  rw [readKey, reads]
  rfl

end

end Toml
end FieldLine
