import FieldLine.Files.Store
import Mathlib.Data.List.Basic

/-!
# Plain paths in a store of files

A plain path is a sequence of names, so that it leads from directory to directory down to the
location that is named.  Creating the directories on the way to it changes no file.
-/

namespace FieldLine

/-! ## Plain paths -/

/-- A name that leads from a directory to something in it. -/
def IsPlainName (name : String) : Prop :=
  name ≠ "" ∧ name ≠ "." ∧ name ≠ ".." ∧ '/' ∉ name.toList

instance : DecidablePred IsPlainName :=
  fun _ => inferInstanceAs (Decidable (_ ∧ _))

/-- A path that starts from the working directory and is made of names only. -/
structure PlainPath where
  names : List String
  someName : names ≠ []
  plain : ∀ name ∈ names, IsPlainName name

namespace Route

theorem splitAfter_append {chars : List Char} (noSlash : '/' ∉ chars) (part rest : List Char) :
    splitAfter part (chars ++ rest) = splitAfter (chars.reverse ++ part) rest := by
  induction chars generalizing part with
  | nil => rfl
  | cons c later inductionHypothesis =>
      rw [List.mem_cons, not_or] at noSlash
      rw [List.cons_append, splitAfter, if_neg (Ne.symm noSlash.1), inductionHypothesis noSlash.2,
        List.reverse_cons, List.append_assoc, List.singleton_append]

theorem splitAfter_name {name : String} (noSlash : '/' ∉ name.toList) :
    splitAfter [] name.toList = [name] := by
  have splits := splitAfter_append noSlash [] []
  rwa [List.append_nil, List.append_nil, splitAfter, List.reverse_reverse, String.ofList_toList]
    at splits

theorem splitAfter_intercalate {names : List String} (someName : names ≠ [])
    (plain : ∀ name ∈ names, IsPlainName name) :
    splitAfter [] (String.intercalate "/" names).toList = names := by
  induction names with
  | nil => exact absurd rfl someName
  | cons name later inductionHypothesis =>
      rw [List.forall_mem_cons] at plain
      obtain ⟨-, -, -, noSlash⟩ := plain.1
      rcases later with _ | ⟨next, others⟩
      · rw [String.intercalate_singleton, splitAfter_name noSlash]
      · have tail := inductionHypothesis (List.cons_ne_nil _ _) plain.2
        have slash : "/".toList = ['/'] := rfl
        rw [String.intercalate_cons_cons, String.toList_append, String.toList_append,
          List.append_assoc, splitAfter_append noSlash, slash, List.singleton_append, splitAfter,
          if_pos rfl, tail, List.append_nil, List.reverse_reverse, String.ofList_toList]

theorem not_stays {name : String} (plain : IsPlainName name) : stays name = false := by
  rw [stays, decide_eq_false plain.1, decide_eq_false plain.2.1, Bool.or_false]

section

variable {names : List String} (plain : ∀ name ∈ names, IsPlainName name)
include plain

theorem dropWhile_stays : names.dropWhile stays = names := by
  cases names with
  | nil => rfl
  | cons name later =>
      rw [List.dropWhile_cons_of_neg]
      rw [not_stays (plain name List.mem_cons_self)]
      exact Bool.false_ne_true

theorem parent_eq : parent names = names.dropLast := by
  have reversed : ∀ name ∈ names.reverse, IsPlainName name :=
    fun name member => plain name (List.mem_reverse.mp member)
  have above : ∀ name ∈ names.reverse.drop 1, IsPlainName name :=
    fun name member => reversed name (List.mem_of_mem_drop member)
  rw [parent, dropWhile_stays reversed, dropWhile_stays above, List.drop_one, List.tail_reverse,
    List.reverse_reverse]

theorem trim_eq : trim names = (names, false) := by
  have kept : names.reverse.dropWhile (· = "") = names.reverse := by
    rcases reversed : names.reverse with _ | ⟨name, later⟩
    · rfl
    · have member : name ∈ names := List.mem_reverse.mp (reversed ▸ List.mem_cons_self)
      rw [List.dropWhile_cons_of_neg]
      simpa using (plain name member).1
  simp [trim, kept]

theorem steps_eq : steps names = names := by
  have kept : names.filter (!stays ·) = names := by
    rw [List.filter_eq_self]
    intro name member
    rw [not_stays (plain name member)]
    rfl
  rw [steps]
  · exact kept
  · rintro next later rfl
    exact (plain "" List.mem_cons_self).1 rfl

end

end Route

namespace PlainPath

def text (path : PlainPath) : String :=
  String.intercalate "/" path.names

/-- Whether a path is one that can be looked for: it holds no null and is not too long. -/
def IsUsable (path : PlainPath) : Prop :=
  '\x00' ∉ path.text.toList ∧ path.text.utf8ByteSize < Route.maxPath

theorem text_ne_empty (path : PlainPath) : path.text ≠ "" := by
  intro isEmpty
  have splits := Route.splitAfter_intercalate path.someName path.plain
  rw [← text, isEmpty] at splits
  have emptyName : "" ∈ path.names := splits ▸ List.mem_singleton.mpr rfl
  exact (path.plain "" emptyName).1 rfl

theorem ofPath_of_isUsable {path : PlainPath} (usable : path.IsUsable) :
    Route.ofPath path.text = .ok path.names := by
  rw [Route.ofPath, if_neg (by simpa using usable.1), if_neg path.text_ne_empty,
    if_neg (Nat.not_le.mpr usable.2), text, Route.splitAfter_intercalate path.someName path.plain]

theorem isUsable_of_ofPath {path : PlainPath} {route : Route}
    (looks : Route.ofPath path.text = .ok route) : path.IsUsable ∧ route = path.names := by
  rw [Route.ofPath] at looks
  split_ifs at looks with noNull isEmpty tooLong
  rw [text, Route.splitAfter_intercalate path.someName path.plain] at looks
  exact ⟨⟨by simpa using noNull, Nat.not_le.mp tooLong⟩, (Except.ok.inj looks).symm⟩

end PlainPath

namespace FileStore

/-! ## Ways through directories -/

section

variable {store : FileStore} {location : Location}

theorem requireDirectory_eq_ok_iff :
    store.requireDirectory location = .ok () ↔ store.held? location = some .directory := by
  rw [requireDirectory]
  rcases store.held? location with _ | _ | _ <;> simp

theorem step_eq_ok_iff {name : String} (plain : IsPlainName name) {next : Location} :
    store.step location name = .ok next ↔
      store.held? location = some .directory ∧ name.utf8ByteSize ≤ Route.maxName ∧
        next = location ++ [name] := by
  rw [step, Route.not_stays plain, Route.above, if_neg (by simp), if_neg plain.2.2.1,
    ← requireDirectory_eq_ok_iff]
  rcases store.requireDirectory location with fault | ⟨⟩
  · simp [bind, Except.bind]
  · simp only [bind, Except.bind, true_and]
    split
    · rename_i tooLong
      simp [Nat.not_le.mpr tooLong]
    · rename_i fits
      simp [Nat.not_lt.mp fits, pure, Except.pure, eq_comm]

/-- Whether names lead down from a location through directories. -/
def Walkable (store : FileStore) : Location → List String → Prop
  | _, [] => True
  | location, name :: later =>
      store.held? location = some .directory ∧ name.utf8ByteSize ≤ Route.maxName ∧
        store.Walkable (location ++ [name]) later

theorem foldlM_step_eq_ok_iff {names : List String} (plain : ∀ name ∈ names, IsPlainName name)
    {last : Location} :
    names.foldlM store.step location = .ok last ↔
      store.Walkable location names ∧ last = location ++ names := by
  induction names generalizing location with
  | nil => simp [Walkable, pure, Except.pure, eq_comm]
  | cons name later inductionHypothesis =>
      rw [List.forall_mem_cons] at plain
      rw [List.foldlM_cons]
      constructor
      · intro walks
        rcases first : store.step location name with fault | next
        · rw [first] at walks
          cases walks
        · rw [first] at walks
          obtain ⟨isDirectory, fits, rfl⟩ := (step_eq_ok_iff plain.1).mp first
          obtain ⟨walkable, rfl⟩ := (inductionHypothesis plain.2).mp walks
          exact ⟨⟨isDirectory, fits, walkable⟩, by simp⟩
      · rintro ⟨⟨isDirectory, fits, walkable⟩, rfl⟩
        rw [(step_eq_ok_iff plain.1).mpr ⟨isDirectory, fits, rfl⟩]
        exact (inductionHypothesis plain.2).mpr ⟨walkable, by simp⟩

theorem Walkable.append {names others : List String} :
    store.Walkable location (names ++ others) ↔
      store.Walkable location names ∧ store.Walkable (location ++ names) others := by
  induction names generalizing location with
  | nil => simp [Walkable]
  | cons name later inductionHypothesis =>
      simp [Walkable, inductionHypothesis, and_assoc]

end

theorem origin_names {names : List String} (plain : ∀ name ∈ names, IsPlainName name)
    (store : FileStore) : store.origin names = store.working := by
  rw [origin]
  rintro later rfl
  exact (plain "" List.mem_cons_self).1 rfl

/-! ## Stores with more directories -/

/-- A store with more directories, none of them deeper than some number of names. -/
structure Grows (store later : FileStore) (depth : Nat) : Prop where
  working : later.working = store.working
  held : ∀ location, later.held? location = store.held? location ∨
    store.held? location = none ∧ later.held? location = some .directory ∧
      location.length ≤ depth

namespace Grows

variable {store later last : FileStore} {depth : Nat} {location : Location}

theorem refl (store : FileStore) (depth : Nat) : store.Grows store depth :=
  ⟨rfl, fun _ => .inl rfl⟩

theorem put (isNew : store.held? location = none) :
    store.Grows (store.put location .directory) location.length := by
  refine ⟨rfl, fun other => ?_⟩
  by_cases same : other = location
  · subst same
    have below : other ≠ [] := by
      rintro rfl
      cases isNew
    exact .inr ⟨isNew, store.held?_put_self other _ below, Nat.le_refl _⟩
  · exact .inl (store.held?_put_of_ne location other _ same)

theorem directory (grows : store.Grows later depth)
    (isDirectory : store.held? location = some .directory) :
    later.held? location = some .directory := by
  rcases grows.held location with same | ⟨isNew, -, -⟩
  · rw [same, isDirectory]
  · rw [isNew] at isDirectory
    cases isDirectory

theorem trans {between : Nat} (first : store.Grows later between)
    (second : later.Grows last depth) (shallow : between ≤ depth) : store.Grows last depth := by
  refine ⟨second.working.trans first.working, fun location => ?_⟩
  rcases second.held location with same | ⟨isNew, isDirectory, deep⟩
  · rcases first.held location with sameFirst | ⟨isNew, isDirectory, deep⟩
    · exact .inl (same.trans sameFirst)
    · exact .inr ⟨isNew, same.trans isDirectory, Nat.le_trans deep shallow⟩
  · rcases first.held location with sameFirst | ⟨-, wasDirectory, -⟩
    · exact .inr ⟨sameFirst.symm.trans isNew, isDirectory, deep⟩
    · rw [wasDirectory] at isNew
      cases isNew

end Grows

/-- The content of the file at a location. -/
def content? (store : FileStore) (location : Location) : Option (List UInt8) :=
  match store.held? location with
  | some (.file bytes) => some bytes
  | _ => none

theorem Grows.content? {store later : FileStore} {depth : Nat} (grows : store.Grows later depth)
    (location : Location) : later.content? location = store.content? location := by
  rw [FileStore.content?, FileStore.content?]
  rcases grows.held location with same | ⟨isNew, isDirectory, -⟩
  · rw [same]
  · rw [isNew, isDirectory]

/-! ## Creating directories -/

/-- What creating the directories for some names comes to: there are more directories, and if all of
them could be created, the names lead down to the last one. -/
def Creates (store : FileStore) (location : Location) (names : List String)
    (result : Except FileFault Unit × FileStore) : Prop :=
  store.Grows result.2 (location.length + names.length) ∧
    (result.1 = .ok () →
      result.2.Walkable location names ∧
        (names ≠ [] → result.2.held? (location ++ names) = some .directory))

/-- A name is created if it is a directory when the names after it are created. -/
theorem Creates.cons {store between : FileStore} {location : Location} {name : String}
    {later : List String} {result : Except FileFault Unit × FileStore}
    (isDirectory : store.held? location = some .directory)
    (fits : name.utf8ByteSize ≤ Route.maxName)
    (grows : store.Grows between (location.length + 1))
    (created : between.held? (location ++ [name]) = some .directory)
    (creates : between.Creates (location ++ [name]) later result) :
    store.Creates location (name :: later) result := by
  obtain ⟨growsLater, leads⟩ := creates
  have deeper : (location ++ [name]).length + later.length =
      location.length + (name :: later).length := by
    rw [List.length_append, List.length_singleton, List.length_cons, Nat.add_assoc, Nat.add_comm 1]
  rw [deeper] at growsLater
  have growsAll := grows.trans growsLater (by simp)
  refine ⟨growsAll, fun succeeds => ?_⟩
  obtain ⟨walkable, isLast⟩ := leads succeeds
  refine ⟨⟨growsAll.directory isDirectory, fits, walkable⟩, fun _ => ?_⟩
  rcases later with _ | ⟨next, others⟩
  · exact growsLater.directory created
  · have reached := isLast (List.cons_ne_nil _ _)
    rwa [List.append_assoc, List.singleton_append] at reached

theorem creates_createFrom {names : List String} (plain : ∀ name ∈ names, IsPlainName name)
    (location : Location) (store : FileStore) :
    store.Creates location names (createFrom location names store) := by
  induction names generalizing location store with
  | nil => exact ⟨.refl store _, fun _ => ⟨trivial, fun someName => absurd rfl someName⟩⟩
  | cons name later inductionHypothesis =>
      rw [List.forall_mem_cons] at plain
      have stops (fault : FileFault) :
          store.Creates location (name :: later) (.error fault, store) :=
        ⟨.refl store _, fun succeeds => by cases succeeds⟩
      rw [createFrom]
      rcases first : store.step location name with fault | next
      · exact stops fault
      obtain ⟨isDirectory, fits, rfl⟩ := (step_eq_ok_iff plain.1).mp first
      have below : location ++ [name] ≠ [] := by simp
      rcases held : store.held? (location ++ [name]) with _ | _ | _
      · have grows :
            store.Grows (store.put (location ++ [name]) .directory) (location.length + 1) := by
          have more := Grows.put held
          rwa [List.length_append, List.length_singleton] at more
        simp only [held]
        exact .cons isDirectory fits grows (store.held?_put_self _ _ below)
          (inductionHypothesis plain.2 _ _)
      · simp only [held]
        exact stops _
      · simp only [held]
        exact .cons isDirectory fits (.refl store _) held (inductionHypothesis plain.2 _ _)

theorem createParent_text (path : PlainPath) (store : FileStore) :
    store.createParent path.text =
      match path.names.dropLast with
      | [] => (.ok (), store)
      | parent =>
          match Route.ofPath (String.intercalate "/" parent) with
          | .error fault => (.error fault, store)
          | .ok _ => store.createDirectories parent := by
  rw [createParent, PlainPath.text, Route.splitAfter_intercalate path.someName path.plain,
    Route.parent_eq path.plain]
  rcases path.names.dropLast with _ | ⟨name, later⟩ <;> rfl

theorem creates_createParent (path : PlainPath) (store : FileStore) :
    store.Creates store.working path.names.dropLast (store.createParent path.text) := by
  have plain : ∀ name ∈ path.names.dropLast, IsPlainName name :=
    fun name member => path.plain name (List.dropLast_subset _ member)
  have nothing (result : Except FileFault Unit) (fails : result ≠ .ok ()) :
      store.Creates store.working path.names.dropLast (result, store) :=
    ⟨.refl store _, fun succeeds => absurd succeeds fails⟩
  rw [createParent_text]
  split
  · rename_i noParent
    rw [noParent]
    exact ⟨.refl store _, fun _ => ⟨trivial, fun someName => absurd rfl someName⟩⟩
  · split
    · exact nothing _ (by simp)
    · rw [createDirectories, Route.steps_eq plain, origin_names plain]
      exact creates_createFrom plain _ _

/-! ## Reading and writing -/

/-- The location that a path names. -/
def target (store : FileStore) (path : PlainPath) : Location :=
  store.working ++ path.names

theorem locate_eq_ok_iff {store : FileStore} {path : PlainPath} {location : Location} :
    store.locate path.names = .ok location ↔
      store.Walkable store.working path.names ∧ location = store.target path := by
  rw [locate, origin_names path.plain, foldlM_step_eq_ok_iff path.plain]
  rfl

theorem read_eq_ok_iff {store : FileStore} {path : PlainPath} {bytes : List UInt8} :
    store.read path.text = .ok bytes ↔
      path.IsUsable ∧ store.Walkable store.working path.names ∧
        store.held? (store.target path) = some (.file bytes) := by
  constructor
  · intro reads
    rw [read] at reads
    rcases looks : Route.ofPath path.text with fault | route
    · rw [looks] at reads
      cases reads
    obtain ⟨usable, rfl⟩ := PlainPath.isUsable_of_ofPath looks
    rcases located : store.locate path.names with fault | location
    · simp only [looks, located, bind, Except.bind] at reads
      cases reads
    obtain ⟨walkable, rfl⟩ := locate_eq_ok_iff.mp located
    simp only [looks, located, bind, Except.bind] at reads
    refine ⟨usable, walkable, ?_⟩
    rcases held : store.held? (store.target path) with _ | _ | _
    · rw [held] at reads
      cases reads
    · rw [held] at reads
      cases reads
      rfl
    · rw [held] at reads
      cases reads
  · rintro ⟨usable, walkable, held⟩
    have located := locate_eq_ok_iff.mpr ⟨walkable, rfl⟩
    simp only [read, PlainPath.ofPath_of_isUsable usable, located, held, bind, Except.bind]
    rfl

theorem locateFile_eq {store : FileStore} {path : PlainPath} (usable : path.IsUsable)
    {front : List String} {name : String} (ends : path.names = front ++ [name]) :
    store.locateFile path.text = do
      let directory ← front.foldlM store.step store.working
      let location ← store.step directory name
      if store.held? location = some .directory then .error .isDirectory else return location := by
  have plain := path.plain
  have plainName : IsPlainName name := plain name (by rw [ends]; simp)
  rw [locateFile, PlainPath.ofPath_of_isUsable usable]
  simp only [bind, Except.bind, Route.trim_eq plain, origin_names plain]
  rw [ends, List.dropLast_concat, List.getLastD_concat]
  rcases front.foldlM store.step store.working with fault | directory
  · rfl
  simp only
  rcases required : store.requireDirectory directory with fault | ⟨⟩
  · simp only [step, required, bind, Except.bind]
  · simp [Route.not_stays plainName, Route.above, plainName.2.2.1]

theorem locateFile_eq_ok_iff {store : FileStore} {path : PlainPath} {location : Location} :
    store.locateFile path.text = .ok location ↔
      path.IsUsable ∧ store.Walkable store.working path.names ∧
        store.held? (store.target path) ≠ some .directory ∧ location = store.target path := by
  obtain ⟨front, name, ends⟩ : ∃ front name, path.names = front ++ [name] :=
    ⟨_, _, (List.dropLast_concat_getLast path.someName).symm⟩
  have plain := path.plain
  rw [ends, List.forall_mem_append, List.forall_mem_singleton] at plain
  have reached : store.target path = store.working ++ front ++ [name] := by
    rw [target, ends, List.append_assoc]
  constructor
  · intro locates
    rcases looks : Route.ofPath path.text with fault | route
    · rw [locateFile, looks] at locates
      cases locates
    obtain ⟨usable, -⟩ := PlainPath.isUsable_of_ofPath looks
    rw [locateFile_eq usable ends] at locates
    rcases walks : front.foldlM store.step store.working with fault | directory
    · rw [walks] at locates
      cases locates
    obtain ⟨walkable, rfl⟩ := (foldlM_step_eq_ok_iff plain.1).mp walks
    rcases steps : store.step (store.working ++ front) name with fault | last
    · simp only [walks, steps, bind, Except.bind] at locates
      cases locates
    obtain ⟨isDirectory, fits, rfl⟩ := (step_eq_ok_iff plain.2).mp steps
    simp only [walks, steps, bind, Except.bind] at locates
    split at locates
    · cases locates
    · rename_i noDirectory
      cases locates
      rw [ends, Walkable.append, reached]
      exact ⟨usable, ⟨walkable, isDirectory, fits, trivial⟩, noDirectory, rfl⟩
  · rintro ⟨usable, walkable, noDirectory, rfl⟩
    rw [ends, Walkable.append] at walkable
    obtain ⟨walkableFront, isDirectory, fits, -⟩ := walkable
    have walks := (foldlM_step_eq_ok_iff plain.1).mpr ⟨walkableFront, rfl⟩
    have steps := (step_eq_ok_iff plain.2).mpr ⟨isDirectory, fits, rfl⟩
    rw [reached] at noDirectory
    rw [locateFile_eq usable ends, walks, reached]
    simp only [bind, Except.bind, steps, if_neg noDirectory]
    rfl

/-- A file that is written at the end of the names is not on the way to it. -/
theorem Walkable.put {store : FileStore} {location : Location} {names : List String}
    (walkable : store.Walkable location names) (entry : Entry) :
    (store.put (location ++ names) entry).Walkable location names := by
  induction names generalizing location with
  | nil => trivial
  | cons name later inductionHypothesis =>
      obtain ⟨isDirectory, fits, walkableLater⟩ := walkable
      have onTheWay : location ≠ location ++ name :: later := by simp
      refine ⟨?_, fits, ?_⟩
      · rw [held?_put_of_ne _ _ _ _ onTheWay, isDirectory]
      · have further := inductionHypothesis walkableLater
        rwa [List.append_assoc, List.singleton_append] at further

theorem content?_put_of_ne {store : FileStore} {location other : Location} (entry : Entry)
    (different : other ≠ location) :
    (store.put location entry).content? other = store.content? other := by
  rw [content?, content?, held?_put_of_ne _ _ _ _ different]

theorem write_eq_ok_iff {store after : FileStore} {path : PlainPath} {bytes : List UInt8} :
    store.write path.text bytes = .ok after ↔
      path.IsUsable ∧ store.Walkable store.working path.names ∧
        store.held? (store.target path) ≠ some .directory ∧
          after = store.put (store.target path) (.file bytes) := by
  rw [write]
  constructor
  · intro writes
    rcases locates : store.locateFile path.text with fault | location
    · rw [locates] at writes
      cases writes
    · rw [locates] at writes
      obtain ⟨usable, walkable, noDirectory, rfl⟩ := locateFile_eq_ok_iff.mp locates
      exact ⟨usable, walkable, noDirectory, (Except.ok.inj writes).symm⟩
  · rintro ⟨usable, walkable, noDirectory, rfl⟩
    rw [locateFile_eq_ok_iff.mpr ⟨usable, walkable, noDirectory, rfl⟩]
    rfl

/-- What has been written is read back. -/
theorem read_of_write {store after : FileStore} {path : PlainPath} {bytes : List UInt8}
    (writes : store.write path.text bytes = .ok after) : after.read path.text = .ok bytes := by
  obtain ⟨usable, walkable, -, rfl⟩ := write_eq_ok_iff.mp writes
  have below : store.target path ≠ [] := by
    rw [target, ne_eq, List.append_eq_nil_iff, not_and]
    exact fun _ => path.someName
  exact read_eq_ok_iff.mpr ⟨usable, walkable.put _, held?_put_self _ _ _ below⟩

end FileStore
end FieldLine
