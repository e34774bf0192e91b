import FieldLine.Toml.Value

/-!
TOML documents: keys with values, and headers that say which table the keys after them belong to.
-/

namespace FieldLine
namespace Toml

namespace Table

/-- Defines a table by its own header.  A table that only headers of inner tables have created so
far keeps its entries. -/
def define (key : String) (table : Table) : Option Table :=
  match table.item? key with
  | none => table.add key (.table .explicit [])
  | some (.table .header entries) =>
      some { table with entries := set key (.table .explicit entries) table.entries }
  | some _ => none

/-- Starts one more element of a list of tables. -/
def append (key : String) (table : Table) : Option Table :=
  match table.item? key with
  | none => table.add key (.tables [[]])
  | some (.tables elements) =>
      some { table with entries := set key (.tables ([] :: elements)) table.entries }
  | some _ => none

end Table

/-- A document that is being read: its tables so far, and the path of the one that keys go to. -/
structure Draft where
  root : Table := ⟨.explicit, []⟩
  current : List String := []

namespace Draft

/-- Turns to the table of a header, which `open?` defines or appends. -/
def turnTo (open? : String → Table → Option Table) (path : List String) (key : String)
    (draft : Draft) : Option Draft := do
  let root ← Table.change false (open? key) path draft.root
  return ⟨root, path ++ [key]⟩

def add (path : List String) (key : String) (value : Value) (draft : Draft) : Option Draft := do
  let root ← Table.change false (Table.addDotted path key value) draft.current draft.root
  return { draft with root := root }

end Draft

/-- Moves over the rest of a line, which may hold a comment. -/
def skipLineEnd (text : List Char) : Option (List Char) :=
  match skipComment (skipBlanks text) with
  | [] => some []
  | text => skipNewline text

/-- The number of levels that arrays and inline tables may nest. -/
def maxDepth : Nat := limit - 1

/-- Reads a statement and the rest of its line: a header, a key with its value, or nothing. -/
def readStatement (draft : Draft) (text : List Char) : Option (Draft × List Char) :=
  match text with
  | '[' :: '[' :: text => do
      let ((path, key), text) ← readKey text
      let text ← strip? [']', ']'] text
      return (← draft.turnTo Table.append path key, ← skipLineEnd text)
  | '[' :: text => do
      let ((path, key), text) ← readKey text
      let text ← strip? [']'] text
      return (← draft.turnTo Table.define path key, ← skipLineEnd text)
  | c :: rest =>
      if c = '#' ∨ c = '\n' ∨ c = '\r' then
        (skipLineEnd (c :: rest)).map (draft, ·)
      else do
        let ((path, key), text) ← readKey (c :: rest)
        let text ← strip? ['='] text
        let (value, text) ← readValue maxDepth (skipBlanks text)
        return (← draft.add path key value, ← skipLineEnd text)
  | [] => some (draft, [])

def readStatements : (fuel : Nat) → Draft → List Char → Option Draft
  | 0, draft, _ => some draft
  | fuel + 1, draft, text =>
      match skipBlanks text with
      | [] => some draft
      | text => do
          let (draft, rest) ← readStatement draft text
          readStatements fuel draft rest

/-- A byte order mark before a document does not count. -/
def skipMark : List Char → List Char
  | '\ufeff' :: rest => rest
  | text => text

def parse (text : String) : Option Table :=
  (readStatements (text.length + 1) {} (skipMark text.toList)).map Draft.root

end Toml
end FieldLine
