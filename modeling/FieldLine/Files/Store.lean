import FieldLine.Files.Route

/-!
A store of files in directories.  Paths that do not start with a slash are looked for from a working
directory.
-/

namespace FieldLine

/-- The names that lead from the root of a store to a file or directory. -/
abbrev Location := List String

inductive Entry where
  | file (bytes : List UInt8)
  | directory
deriving DecidableEq, Repr

/-- Files and directories by location, and the working directory. -/
structure FileStore where
  entries : List (Location × Entry) := []
  working : Location := []

namespace FileStore

/-! ## Locations -/

/-- What is at a location.  The root is always a directory. -/
def held? (store : FileStore) (location : Location) : Option Entry :=
  if location = [] then some .directory else store.entries.lookup location

def put (location : Location) (entry : Entry) (store : FileStore) : FileStore :=
  { store with entries := (location, entry) :: store.entries.filter (·.1 ≠ location) }

def removeAt (location : Location) (store : FileStore) : FileStore :=
  { store with entries := store.entries.filter fun entry => !location.isPrefixOf entry.1 }

@[simp]
theorem held?_root (store : FileStore) : store.held? [] = some .directory :=
  rfl

theorem held?_put_self (store : FileStore) (location : Location) (entry : Entry)
    (below : location ≠ []) : (store.put location entry).held? location = some entry := by
  simp [held?, put, below]

theorem held?_put_of_ne (store : FileStore) (location other : Location) (entry : Entry)
    (different : other ≠ location) :
    (store.put location entry).held? other = store.held? other := by
  have kept (entries : List (Location × Entry)) :
      (entries.filter (·.1 ≠ location)).lookup other = entries.lookup other := by
    induction entries with
    | nil => rfl
    | cons first later inductionHypothesis =>
        obtain ⟨place, held⟩ := first
        by_cases same : place = location
        · subst same
          simpa [List.lookup_cons, beq_false_of_ne different] using inductionHypothesis
        · rw [List.filter_cons, if_pos (by simpa using same), List.lookup_cons, List.lookup_cons,
            inductionHypothesis]
  simp only [held?, put]
  split
  · rfl
  · rw [List.lookup_cons, beq_false_of_ne different, kept]

/-! ## Routes -/

def requireDirectory (store : FileStore) (location : Location) : Except FileFault Unit :=
  match store.held? location with
  | some .directory => .ok ()
  | some (.file _) => .error .notDirectory
  | none => .error .missing

/-- Goes on from a directory by one part of a route. -/
def step (store : FileStore) (location : Location) (part : String) :
    Except FileFault Location := do
  store.requireDirectory location
  if Route.stays part then return location
  else if part = Route.above then return location.dropLast
  else if Route.maxName < part.utf8ByteSize then .error .nameTooLong
  else return location ++ [part]

def origin (store : FileStore) : Route → Location
  | "" :: _ => []
  | _ => store.working

/-- The location at the end of a route, where nothing needs to be yet. -/
def locate (store : FileStore) (route : Route) : Except FileFault Location :=
  route.foldlM store.step (store.origin route)

/-! ## Files -/

def read (store : FileStore) (path : String) : Except FileFault (List UInt8) := do
  let location ← store.locate (← Route.ofPath path)
  match store.held? location with
  | some (.file bytes) => return bytes
  | some .directory => .error .isDirectory
  | none => .error .missing

/-- Where a file can be written. -/
def locateFile (store : FileStore) (path : String) : Except FileFault Location := do
  let (route, slashed) := (← Route.ofPath path).trim
  let directory ← route.dropLast.foldlM store.step (store.origin route)
  store.requireDirectory directory
  let name := route.getLastD ""
  if slashed ∨ Route.stays name ∨ name = Route.above then .error .isDirectory
  else
    let location ← store.step directory name
    if store.held? location = some .directory then .error .isDirectory
    else return location

def write (path : String) (bytes : List UInt8) (store : FileStore) :
    Except FileFault FileStore :=
  (store.locateFile path).map fun location => store.put location (.file bytes)

/-! ## Directories -/

/-- Goes on from a directory by the parts of a route, and creates the directories that are missing.
What has been created stays, even if the route leads nowhere. -/
def createFrom (location : Location) : Route → FileStore → Except FileFault Unit × FileStore
  | [], store => (.ok (), store)
  | part :: later, store =>
      match store.step location part with
      | .error fault => (.error fault, store)
      | .ok next =>
          match store.held? next with
          | some .directory => createFrom next later store
          | some (.file _) =>
              (.error (if later = [] then .taken else .notDirectory), store)
          | none => createFrom next later (store.put next .directory)

def createDirectories (route : Route) (store : FileStore) :
    Except FileFault Unit × FileStore :=
  createFrom (store.origin route) route.steps store

/-- Creates the directory that is to hold a file.  Only the path of the directory needs to be one
that can be looked for. -/
def createParent (path : String) (store : FileStore) : Except FileFault Unit × FileStore :=
  match Route.parent (Route.splitAfter [] path.toList) with
  | [] => (.ok (), store)
  | parent =>
      match Route.ofPath (String.intercalate "/" parent) with
      | .error fault => (.error fault, store)
      | .ok _ => store.createDirectories parent

end FileStore
end FieldLine
