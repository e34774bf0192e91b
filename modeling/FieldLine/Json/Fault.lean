/-!
The ways in which bytes can fail to be the JSON that is expected, and their wording.
-/

namespace FieldLine
namespace Json

inductive Found where
  | null
  | boolean (value : Bool)
  | natural (value : Nat)
  | negative (value : Nat)
  | decimal (text : String)
  | string (quoted : String)
  | sequence
  | map
deriving DecidableEq, Repr

def Found.render : Found → String
  | null => "null"
  | boolean true => "boolean `true`"
  | boolean false => "boolean `false`"
  | natural value => "integer `" ++ toString value ++ "`"
  | negative value => "integer `-" ++ toString value ++ "`"
  | decimal text => "floating point `" ++ text ++ "`"
  | string quoted => "string " ++ quoted
  | sequence => "sequence"
  | map => "map"

inductive Cause where
  | colonMissing
  | controlCharacter
  | endsInList
  | endsInObject
  | endsInString
  | endsInValue
  | escapeInvalid
  | fieldMissing (name : String)
  | fieldRepeated (name : String)
  | identifierInvalid
  | keyNotString
  | lengthInvalid (length : Nat) (expected : String)
  | listSeparatorMissing
  | notUnicode
  | numberInvalid
  | numberOutOfRange
  | objectSeparatorMissing
  | surrogateLone
  | surrogateUnfinished
  | trailingCharacters
  | trailingComma
  | typeInvalid (found : Found) (expected : String)
  | valueInvalid (found : Found) (expected : String)
  | valueMissing
deriving DecidableEq, Repr

def Cause.message : Cause → String
  | colonMissing => "expected `:`"
  | controlCharacter =>
      "control character (\\u0000-\\u001F) found while parsing a string"
  | endsInList => "EOF while parsing a list"
  | endsInObject => "EOF while parsing an object"
  | endsInString => "EOF while parsing a string"
  | endsInValue => "EOF while parsing a value"
  | escapeInvalid => "invalid escape"
  | fieldMissing name => "missing field `" ++ name ++ "`"
  | fieldRepeated name => "duplicate field `" ++ name ++ "`"
  | identifierInvalid => "expected ident"
  | keyNotString => "key must be a string"
  | lengthInvalid length expected =>
      "invalid length " ++ toString length ++ ", expected " ++ expected
  | listSeparatorMissing => "expected `,` or `]`"
  | notUnicode => "invalid unicode code point"
  | numberInvalid => "invalid number"
  | numberOutOfRange => "number out of range"
  | objectSeparatorMissing => "expected `,` or `\x7d`"
  | surrogateLone => "lone leading surrogate in hex escape"
  | surrogateUnfinished => "unexpected end of hex escape"
  | trailingCharacters => "trailing characters"
  | trailingComma => "trailing comma"
  | typeInvalid found expected => "invalid type: " ++ found.render ++ ", expected " ++ expected
  | valueInvalid found expected => "invalid value: " ++ found.render ++ ", expected " ++ expected
  | valueMissing => "expected value"

/-- A cause and the place where it was noticed: a line, counted from one, and the number of
bytes read on it. -/
structure Fault where
  line : Nat
  column : Nat
  cause : Cause
deriving DecidableEq, Repr

def Fault.message (fault : Fault) : String :=
  fault.cause.message ++ " at line " ++ toString fault.line ++ " column " ++
    toString fault.column

end Json
end FieldLine
