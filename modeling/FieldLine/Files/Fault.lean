/-!
Why a file cannot be read or written.
-/

namespace FieldLine

/-- Why a file cannot be read or written: the common reasons, or one with a number and words of its
own. -/
inductive FileFault where
  | missing
  | taken
  | notDirectory
  | isDirectory
  | nameTooLong
  | nullInName
  | other (number : Nat) (words : String)
deriving DecidableEq, Repr

def FileFault.numbered (words : String) (number : Nat) : String :=
  words ++ " (os error " ++ toString number ++ ")"

def FileFault.message : FileFault → String
  | missing => numbered "No such file or directory" 2
  | taken => numbered "File exists" 17
  | notDirectory => numbered "Not a directory" 20
  | isDirectory => numbered "Is a directory" 21
  | nameTooLong => numbered "File name too long" 36
  | nullInName => "file name contained an unexpected NUL byte"
  | other number words => numbered words number

end FieldLine
