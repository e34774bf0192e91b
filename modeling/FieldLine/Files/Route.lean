import FieldLine.Files.Fault

/-!
Paths of files, cut at their slashes.
-/

namespace FieldLine

/-- The path of a file, cut at its slashes.  Empty parts and single points stay where they are, and
two points lead to the directory above. -/
abbrev Route := List String

namespace Route

/-- The parts of a path, after the characters of the current one (latest first). -/
def splitAfter (part : List Char) : List Char → Route
  | [] => [.ofList part.reverse]
  | c :: rest =>
      if c = '/' then .ofList part.reverse :: splitAfter [] rest
      else splitAfter (c :: part) rest

def maxName : Nat := 255

/-- The length from which on a path is refused, in bytes. -/
def maxPath : Nat := 4096

/-- The route of a path that can be looked for at all. -/
def ofPath (path : String) : Except FileFault Route :=
  if path.toList.contains '\x00' then .error .nullInName
  else if path = "" then .error .missing
  else if maxPath ≤ path.utf8ByteSize then .error .nameTooLong
  else .ok (splitAfter [] path.toList)

def stays (part : String) : Bool :=
  part = "" || part = "."

def above : String := ".."

/-- The route without parts that stay where they are.  A slash at the start is kept. -/
def steps : Route → Route
  | "" :: next :: later => "" :: (next :: later).filter (!stays ·)
  | route => route.filter (!stays ·)

/-- The route without slashes at its end, and whether there were any. -/
def trim (route : Route) : Route × Bool :=
  let kept := (route.reverse.dropWhile (· = "")).reverse
  (kept, kept.length < route.length)

/-- The route to the directory that holds what this one leads to; nothing for the directory from
which the route starts. -/
def parent (route : Route) : Route :=
  (((route.reverse.dropWhile stays).drop 1).dropWhile stays).reverse

def name? (path : String) : Option String :=
  ((splitAfter [] path.toList).filter (!stays ·)).getLast?.filter (· ≠ above)

/-- What follows the last point of a name, if something precedes the point. -/
def extension? (name : String) : Option String :=
  let reversed := name.toList.reverse
  let ending := reversed.takeWhile (· ≠ '.')
  match reversed.drop ending.length with
  | [] => none
  | [_] => none
  | _ => some (.ofList ending.reverse)

end Route
end FieldLine
