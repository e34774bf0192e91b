import FieldLine.Proofs.Config.Loading
import FieldLine.Proofs.Config.Text
import FieldLine.Proofs.Files.Walking

/-!
# Saving settings

Settings that have been saved are loaded again, and saving them changes no other file.  If they
cannot be saved, no file changes.
-/

namespace FieldLine
namespace Config

variable {config : Config} {path : PlainPath} {store after : FileStore}

/-! ## The stages of saving -/

/-- Saving creates the directories and, if that and all that follows goes well, writes the file.
Otherwise the directories are all that there is. -/
theorem save_cases (config : Config) (path : PlainPath) (store : FileStore) :
    (∃ created text after, store.createParent path.text = (.ok (), created) ∧
        config.toText? = some text ∧ created.write path.text (Utf8.encode text) = .ok after ∧
        config.save path.text store = (.ok (), after)) ∨
      ∃ fault, config.save path.text store = (.error fault, (store.createParent path.text).2) := by
  rw [save]
  rcases store.createParent path.text with ⟨fault | ⟨⟩, created⟩
  · exact .inr ⟨_, rfl⟩
  rcases writes : config.toText? with _ | text
  · exact .inr ⟨_, rfl⟩
  rcases written : created.write path.text (Utf8.encode text) with fault | after
  · exact .inr ⟨.file fault, by simp only [written]⟩
  · exact .inl ⟨created, text, after, rfl, rfl, written, by simp only [written]⟩

/-- The directory that is to hold a file, if it was missing, can be created. -/
def CanHold (store : FileStore) (path : PlainPath) : Prop :=
  ∃ created, store.createParent path.text = (.ok (), created) ∧
    created.held? (store.working ++ path.names.dropLast) = some .directory

/-- Whether a path can name a file at all. -/
def CanName (path : PlainPath) : Prop :=
  path.IsUsable ∧ (path.names.getLast path.someName).utf8ByteSize ≤ Route.maxName

theorem exists_toText?_iff : (∃ text, config.toText? = some text) ↔ config.startLine ≤ maxLine := by
  rw [toText?]
  split
  · rename_i fits
    exact ⟨fun _ => fits, fun _ => ⟨_, rfl⟩⟩
  · rename_i tooLarge
    constructor
    · rintro ⟨text, impossible⟩
      cases impossible
    · exact fun fits => absurd fits tooLarge

theorem content?_createParent (path : PlainPath) (store : FileStore) (location : Location) :
    (store.createParent path.text).2.content? location = store.content? location :=
  (store.creates_createParent path).1.content? location

theorem target_createParent {created : FileStore} {result : Except FileFault Unit}
    (creates : store.createParent path.text = (result, created)) :
    created.target path = store.target path := by
  have grows := (store.creates_createParent path).1
  rw [creates] at grows
  rw [FileStore.target, FileStore.target, grows.working]

/-- Creating the directories does not put one where the file is to be. -/
theorem held?_target_ne_directory {created : FileStore} {result : Except FileFault Unit}
    (creates : store.createParent path.text = (result, created))
    (noDirectory : store.held? (store.target path) ≠ some .directory) :
    created.held? (store.target path) ≠ some .directory := by
  have grows := (store.creates_createParent path).1
  rw [creates] at grows
  rcases grows.held (store.target path) with same | ⟨-, -, shallow⟩
  · rwa [same]
  · have someName := List.length_pos_iff.mpr path.someName
    rw [FileStore.target, List.length_append, List.length_dropLast] at shallow
    omega

/-- Where the directory can be created and is not taken by another, only the name of the file and
the line number decide whether settings are saved. -/
theorem save_succeeds_iff (canHold : CanHold store path)
    (noDirectory : store.held? (store.target path) ≠ some .directory) :
    (config.save path.text store).1 = .ok () ↔ config.startLine ≤ maxLine ∧ CanName path := by
  obtain ⟨created, creates, isDirectory⟩ := canHold
  have ends := List.dropLast_concat_getLast path.someName
  obtain ⟨grows, leads⟩ := store.creates_createParent path
  rw [creates] at grows leads
  constructor
  · intro succeeds
    obtain ⟨other, text, after, createsOther, written, writes, -⟩ | ⟨fault, fails⟩ :=
      save_cases config path store
    · rw [creates] at createsOther
      cases createsOther
      obtain ⟨usable, walkable, -, -⟩ := FileStore.write_eq_ok_iff.mp writes
      rw [← ends, FileStore.Walkable.append] at walkable
      obtain ⟨-, -, fits, -⟩ := walkable
      exact ⟨exists_toText?_iff.mp ⟨text, written⟩, usable, fits⟩
    · rw [fails] at succeeds
      cases succeeds
  · rintro ⟨lineFits, usable, nameFits⟩
    obtain ⟨text, written⟩ := exists_toText?_iff.mpr lineFits
    have walkable : created.Walkable created.working path.names := by
      rw [← ends, FileStore.Walkable.append, grows.working]
      exact ⟨(leads rfl).1, isDirectory, nameFits, trivial⟩
    have notTaken : created.held? (created.target path) ≠ some .directory := by
      rw [target_createParent creates]
      exact held?_target_ne_directory creates noDirectory
    have writes : created.write path.text (Utf8.encode text) = .ok _ :=
      FileStore.write_eq_ok_iff.mpr ⟨usable, walkable, notTaken, rfl⟩
    simp only [save, creates, written, writes]

/-- A file that cannot be located is not written. -/
theorem save_of_locateFile_error {file : String} {created : FileStore} {fault : FileFault}
    (creates : store.createParent file = (.ok (), created)) (fits : config.startLine ≤ maxLine)
    (locates : created.locateFile file = .error fault) :
    (config.save file store).1 = .error (.file fault) := by
  obtain ⟨text, written⟩ := exists_toText?_iff.mpr fits
  have notWritten : created.write file (Utf8.encode text) = .error fault := by
    rw [FileStore.write, locates]
    rfl
  simp only [save, creates, written, notWritten]

/-- Settings that have been saved are the ones that are loaded, and no other file has changed.  If
they cannot be saved, no file has changed.  Where the directory can be created and the path is not
that of a directory, they can be saved exactly if the line number fits in 63 bits and the path can
name a file. -/
theorem load_of_save_or_unchanged (config : Config) (path : PlainPath) (store : FileStore) :
    (∀ after, config.save path.text store = (.ok (), after) →
        load after path.text = (config, []) ∧
          ∀ other, other ≠ store.target path → after.content? other = store.content? other) ∧
      (∀ fault after, config.save path.text store = (.error fault, after) →
        ∀ location, after.content? location = store.content? location) ∧
      (CanHold store path → store.held? (store.target path) ≠ some .directory →
        ((config.save path.text store).1 = .ok () ↔
          config.startLine ≤ 9223372036854775807 ∧ CanName path)) := by
  refine ⟨?saved, ?failed, fun canHold noDirectory => save_succeeds_iff canHold noDirectory⟩
  case saved =>
    intro after saves
    obtain ⟨created, text, last, creates, written, writes, savesLast⟩ | ⟨fault, fails⟩ :=
      save_cases config path store
    · rw [saves] at savesLast
      obtain rfl : after = last := congrArg Prod.snd savesLast
      refine ⟨?_, fun other different => ?_⟩
      · rw [load, FileStore.read_of_write writes, ofFile_encode, ofText?_toText? written]
        rfl
      · obtain ⟨-, -, -, rfl⟩ := FileStore.write_eq_ok_iff.mp writes
        rw [target_createParent creates, FileStore.content?_put_of_ne _ different]
        have kept := content?_createParent path store other
        rwa [creates] at kept
    · rw [saves] at fails
      cases fails
  case failed =>
    intro fault after saves location
    obtain ⟨-, -, last, -, -, -, savesLast⟩ | ⟨other, fails⟩ := save_cases config path store
    · rw [saves] at savesLast
      cases savesLast
    · rw [saves] at fails
      obtain rfl : after = (store.createParent path.text).2 := congrArg Prod.snd fails
      exact content?_createParent path store location

/-- Quotation marks, a backslash and a control character are written and read back, at the greatest
line number that can be written. -/
theorem awkward_settings_saved_and_loaded :
    let config : Config := { startLine := 9223372036854775807, outputFormat := "'\"\"\"\\\n\x01" }
    let saved := config.save "d/c.toml" {}
    saved.1 = .ok () ∧ load saved.2 "d/c.toml" = (config, []) := by
  intro config saved
  let path : PlainPath := ⟨["d", "c.toml"], by decide, by decide⟩
  have succeedsParent : (FileStore.createParent "d/c.toml" {}).1 = .ok () := by decide +kernel
  have canHold : CanHold {} path :=
    ⟨_, Prod.ext succeedsParent rfl,
      ((FileStore.creates_createParent path {}).2 succeedsParent).2 (List.cons_ne_nil _ _)⟩
  have canName : CanName path := by
    rw [CanName, PlainPath.IsUsable]
    decide
  obtain ⟨loads, -, succeeds⟩ := load_of_save_or_unchanged config path {}
  have saves : saved.1 = .ok () := (succeeds canHold (by decide)).mpr ⟨Nat.le_refl _, canName⟩
  exact ⟨saves, (loads saved.2 (Prod.ext saves rfl)).1⟩

/-- A name can be too long to be written to, whatever the line number is. -/
theorem long_name_not_saved :
    ∃ path : PlainPath, path.names = [.ofList (List.replicate 256 'a')] ∧
      CanHold {} path ∧ ({} : FileStore).held? (({} : FileStore).target path) ≠ some .directory ∧
        ({} : Config).startLine ≤ 9223372036854775807 ∧
          (({} : Config).save path.text {}).1 = .error (.file .nameTooLong) := by
  let name : String := .ofList (List.replicate 256 'a')
  have chars : name.toList = List.replicate 256 'a' := String.toList_ofList
  have differs {other : String} (short : other.toList.length ≠ 256) : name ≠ other := by
    rintro rfl
    exact short (by rw [chars, List.length_replicate])
  have noOther {c : Char} (other : c ≠ 'a') : c ∉ name.toList := by
    rw [chars]
    exact fun member => other (List.eq_of_mem_replicate member)
  have plain : IsPlainName name :=
    ⟨differs (by decide), differs (by decide), differs (by decide), noOther (by decide)⟩
  let path : PlainPath := ⟨[name], List.cons_ne_nil _ _, List.forall_mem_singleton.mpr plain⟩
  have isName : path.text = name := rfl
  have usable : path.IsUsable := by
    rw [PlainPath.IsUsable, isName]
    exact ⟨noOther (by decide), by decide +kernel⟩
  have noParent : ({} : FileStore).createParent path.text = (.ok (), {}) := by
    rw [FileStore.createParent_text]
    rfl
  have tooLong : ({} : FileStore).locateFile path.text = .error .nameTooLong := by
    have ends : path.names = [] ++ [name] := rfl
    rw [FileStore.locateFile_eq usable ends]
    decide +kernel
  refine ⟨path, rfl, ⟨{}, noParent, rfl⟩, nofun, by decide, ?_⟩
  exact save_of_locateFile_error noParent (by decide) tooLong

end Config
end FieldLine
