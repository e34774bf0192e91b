import FieldLine.Config.Text
import FieldLine.Files.Store
import FieldLine.Log
import FieldLine.Text.Utf8

/-!
Where the settings are kept, and how they are loaded and saved.
-/

namespace FieldLine
namespace Config

/-- Where the settings are kept in a home directory. -/
def pathInHome : String := ".config/iacline/config.toml"

def pathOf (home : String) : String :=
  home ++ "/" ++ pathInHome

/-- The settings in a file.  They are the usual ones if the file cannot be read or is no text, which
is not worth noting, or if it is malformed, which is. -/
def ofFile (path : String) : Except FileFault (List UInt8) → Config × List Note
  | .error _ => ({}, [])
  | .ok bytes =>
      match Utf8.decode bytes with
      | .error _ => ({}, [])
      | .ok text =>
          match ofText? (.ofList text) with
          | some config => (config, [])
          | none => ({}, [.configIgnored path])

def load (store : FileStore) (path : String) : Config × List Note :=
  ofFile path (store.read path)

inductive SaveFault where
  | file (fault : FileFault)
  | lineTooLarge
deriving DecidableEq, Repr

def SaveFault.message : SaveFault → String
  | file fault => fault.message
  | lineTooLarge => "out-of-range value for u64 type"

/-- Saves settings in a file, whose directory is created first.  The file is not touched unless the
settings can be written out. -/
def save (config : Config) (path : String) (store : FileStore) :
    Except SaveFault Unit × FileStore :=
  match store.createParent path with
  | (.error fault, store) => (.error (.file fault), store)
  | (.ok (), store) =>
      match config.toText? with
      | none => (.error .lineTooLarge, store)
      | some text =>
          match store.write path (Utf8.encode text) with
          | .error fault => (.error (.file fault), store)
          | .ok store => (.ok (), store)

end Config
end FieldLine
