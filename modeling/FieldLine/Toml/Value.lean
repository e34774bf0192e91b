import FieldLine.Toml.Number

/-!
TOML values.  Arrays and inline tables nest up to some depth.
-/

namespace FieldLine
namespace Toml

/-- Where a table comes from: its own header or braces, the header of a table inside it, or the
dotted key of a value inside it. -/
inductive Origin where
  | explicit
  | header
  | dotted
deriving DecidableEq, Repr

mutual

inductive Value where
  | text (text : String)
  | number (number : Number)
  | boolean (value : Bool)
  | date
  | array (items : List Value)
  | inlineTable (entries : List (String × Item))

/-- What a key can stand for: a value, a table, or a list of tables (the latest first). -/
inductive Item where
  | value (value : Value)
  | table (origin : Origin) (entries : List (String × Item))
  | tables (elements : List (List (String × Item)))

end

structure Table where
  origin : Origin
  entries : List (String × Item)

namespace Table

/-- Puts an item in the place of the one with the same key, or at the end. -/
def set (key : String) (item : Item) : List (String × Item) → List (String × Item)
  | [] => [(key, item)]
  | (name, old) :: later =>
      if name = key then (name, item) :: later else (name, old) :: set key item later

theorem lookup_set_self (key : String) (item : Item) (entries : List (String × Item)) :
    (set key item entries).lookup key = some item := by
  induction entries with
  | nil => simp [set]
  | cons first later inductionHypothesis =>
      obtain ⟨name, old⟩ := first
      by_cases same : name = key
      · simp [set, same]
      · rw [set, if_neg same, List.lookup_cons, beq_false_of_ne (Ne.symm same),
          inductionHypothesis]

theorem lookup_set_of_ne (key other : String) (item : Item) (entries : List (String × Item))
    (different : other ≠ key) : (set key item entries).lookup other = entries.lookup other := by
  induction entries with
  | nil => simp [set, List.lookup_cons, beq_false_of_ne different]
  | cons first later inductionHypothesis =>
      obtain ⟨name, old⟩ := first
      by_cases same : name = key
      · subst same
        simp [set, List.lookup_cons, beq_false_of_ne different]
      · rw [set, if_neg same, List.lookup_cons, List.lookup_cons, inductionHypothesis]

def item? (table : Table) (key : String) : Option Item :=
  table.entries.lookup key

/-- A table with one more item, whose key must be new. -/
def add (key : String) (item : Item) (table : Table) : Option Table :=
  match table.item? key with
  | some _ => none
  | none => some { table with entries := table.entries ++ [(key, item)] }

/-- Changes the table at the end of a path.  Tables on the path are created where they are
missing, and a list of tables stands for its last element.  Dotted keys do not lead into tables that
are defined elsewhere. -/
def change (dotted : Bool) (action : Table → Option Table) :
    (path : List String) → Table → Option Table
  | [], table => action table
  | key :: path, table => do
      let item ←
        match table.item? key with
        | none =>
            let origin := if dotted then .dotted else .header
            let inner ← change dotted action path ⟨origin, []⟩
            some <| .table inner.origin inner.entries
        | some (.value _) => none
        | some (.table origin entries) =>
            if dotted && origin = .explicit then none
            else
              let inner ← change dotted action path ⟨origin, entries⟩
              some <| .table inner.origin inner.entries
        | some (.tables []) => none
        | some (.tables (last :: earlier)) =>
            let inner ← change dotted action path ⟨.explicit, last⟩
            some <| .tables (inner.entries :: earlier)
      return { table with entries := set key item table.entries }

/-- Adds a value under a dotted key.  The table that it enters must come from dotted keys too, if it
is not the one that the key starts from. -/
def addDotted (path : List String) (key : String) (value : Value) (table : Table) :
    Option Table :=
  change true
    (fun inner =>
      if path ≠ [] && inner.origin ≠ .dotted then none else inner.add key (.value value))
    path table

end Table

/-! ## Keys -/

def isKeyChar (c : Char) : Bool :=
  ('0' ≤ c && c ≤ '9') || ('a' ≤ c && c ≤ 'z') || ('A' ≤ c && c ≤ 'Z') || c = '_' || c = '-'

def skipBlanks (text : List Char) : List Char :=
  text.dropWhile isBlank

def readKeyPart (text : List Char) : Option (String × List Char) :=
  match text with
  | '"' :: _ => Text.readQuoted text
  | '\'' :: _ => Text.readQuoted text
  | _ =>
      let name := text.takeWhile isKeyChar
      if name = [] then none else some (.ofList name, text.dropWhile isKeyChar)

/-- The number of parts from which on a key is refused, and the depth from which on a value is. -/
def limit : Nat := 80

/-- Reads the parts of a key after some others, latest first, with blanks around each. -/
def readKeyFrom : (fuel : Nat) → List String → List Char → Option (List String × List Char)
  | 0, _, _ => none
  | fuel + 1, parts, text => do
      let (part, text) ← readKeyPart (skipBlanks text)
      match skipBlanks text with
      | '.' :: text => readKeyFrom fuel (part :: parts) text
      | text => some (part :: parts, text)

/-- Reads a key: the path that leads to it and its last part. -/
def readKey (text : List Char) : Option ((List String × String) × List Char) := do
  match ← readKeyFrom (limit - 1) [] text with
  | (key :: path, text) => some ((path.reverse, key), text)
  | ([], _) => none

/-! ## Values -/

def skipComment : List Char → List Char
  | '#' :: rest => rest.dropWhile isText
  | text => text

/-- Moves over blanks, comments and line breaks.  A comment ends at a line break. -/
def skipLines : (inComment : Bool) → List Char → Option (List Char)
  | inComment, [] => if inComment then none else some []
  | inComment, c :: rest =>
      if c = '\n' then skipLines false rest
      else if c = '\r' then
        match rest with
        | '\n' :: rest => skipLines false rest
        | _ => none
      else if inComment then
        if isText c then skipLines true rest else none
      else if isBlank c then skipLines false rest
      else if c = '#' then skipLines true rest
      else some (c :: rest)

abbrev Reader := List Char → Option (Value × List Char)

/-- Reads the elements of an array after some others (latest first), up to its bracket. -/
def readItems (read : Reader) : (fuel : Nat) → List Value → List Char →
    Option (List Value × List Char)
  | 0, _, _ => none
  | fuel + 1, items, text => do
      match ← skipLines false text with
      | ']' :: text => some (items.reverse, text)
      | text =>
          let (item, text) ← read text
          match ← skipLines false text with
          | ',' :: text => readItems read fuel (item :: items) text
          | ']' :: text => some ((item :: items).reverse, text)
          | _ => none

/-- Reads the entries of an inline table, up to its brace. -/
def readEntries (read : Reader) : (fuel : Nat) → Table → List Char → Option (Table × List Char)
  | 0, _, _ => none
  | fuel + 1, table, text => do
      let ((path, key), text) ← readKey text
      match text with
      | '=' :: text =>
          let (value, text) ← read (skipBlanks text)
          let table ← table.addDotted path key value
          match skipBlanks text with
          | ',' :: text => readEntries read fuel table text
          | '\x7d' :: text => some (table, text)
          | _ => none
      | _ => none

def readPlain : Reader := fun text =>
  match text with
  | '"' :: _ => (Text.read text).map fun (string, rest) => (.text string, rest)
  | '\'' :: _ => (Text.read text).map fun (string, rest) => (.text string, rest)
  | 't' :: rest => (strip? ['r', 'u', 'e'] rest).map (.boolean true, ·)
  | 'f' :: rest => (strip? ['a', 'l', 's', 'e'] rest).map (.boolean false, ·)
  | _ =>
      match skipDate? text with
      | some rest => rest.map (.date, ·)
      | none => (readNumber text).map fun (number, rest) => (.number number, rest)

/-- Reads a value in which arrays and inline tables nest up to some depth. -/
def readValue : (depth : Nat) → Reader
  | 0 => readPlain
  | depth + 1 => fun text =>
      match text with
      | '[' :: text =>
          (readItems (readValue depth) text.length [] text).map fun (items, rest) =>
            (.array items, rest)
      | '\x7b' :: text =>
          match skipBlanks text with
          | '\x7d' :: text => some (.inlineTable [], text)
          | text =>
              (readEntries (readValue depth) text.length ⟨.explicit, []⟩ text).map
                fun (table, rest) => (.inlineTable table.entries, rest)
      | text => readPlain text

end Toml
end FieldLine
