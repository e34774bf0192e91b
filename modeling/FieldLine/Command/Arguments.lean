import FieldLine.Text.Decimal

/-!
The command line.  Options stand before or after the name of a command, and those after it win.
Options with one letter may share an argument, and `--` ends the options.
-/

namespace FieldLine

/-- What a command line asks for: the line of a path in a file, or the lines of violation
records. -/
inductive Request where
  | resolve (file path : String) (start : Option Nat)
  | batch (file : String)
deriving DecidableEq, Repr

structure Arguments where
  format : Option String
  verbose : Bool
  request : Request
deriving DecidableEq, Repr

namespace Arguments

/-- Why a command line asks for nothing: it wants an explanation, or it is not well formed. -/
inductive Stop where
  | help
  | version
  | usage
deriving DecidableEq, Repr

/-! ## Options -/

inductive Flag where
  | format
  | verbose
  | startLine
  | help
  | version
deriving DecidableEq, Repr

inductive Scope where
  | program
  | resolve
  | batch
deriving DecidableEq, Repr

namespace Flag

def all : List Flag :=
  [format, verbose, startLine, help, version]

def letter : Flag → Char
  | format => 'f'
  | verbose => 'v'
  | startLine => 's'
  | help => 'h'
  | version => 'V'

def word : Flag → String
  | format => "format"
  | verbose => "verbose"
  | startLine => "start-line"
  | help => "help"
  | version => "version"

def isKnown (scope : Scope) : Flag → Bool
  | startLine => scope = .resolve
  | version => scope = .program
  | _ => true

def takesValue : Flag → Bool
  | format => true
  | startLine => true
  | _ => false

def ofLetter? (scope : Scope) (c : Char) : Option Flag :=
  all.find? fun flag => flag.letter = c && flag.isKnown scope

def ofWord? (scope : Scope) (word : String) : Option Flag :=
  all.find? fun flag => flag.word = word && flag.isKnown scope

end Flag

/-! ## One scope -/

/-- What an option waits for: a value in the next argument or, with one, the check of the value. -/
inductive Waiting where
  | nothing
  | value (flag : Flag)
  | check (flag : Flag) (value : String)
deriving DecidableEq, Repr

/-- What has been given in a scope, with the latest operand first. -/
structure Given where
  format : Option String := none
  verbose : Bool := false
  start : Option Nat := none
  operands : List String := []
  waiting : Waiting := .nothing

/-- A number, which may have a plus sign. -/
def number? (text : String) : Option Nat :=
  match text.toList with
  | '+' :: digits => Decimal.word? digits
  | digits => Decimal.word? digits

namespace Given

/-- Takes an option with its value.  No option may be given twice in a scope. -/
def set (given : Given) (value : String) : Flag → Except Stop Given
  | .format =>
      if given.format.isSome then .error .usage
      else .ok { given with format := some value }
  | .startLine =>
      match given.start, number? value with
      | none, some line => .ok { given with start := some line }
      | _, _ => .error .usage
  | .verbose =>
      if given.verbose then .error .usage else .ok { given with verbose := true }
  | .help => .error .help
  | .version => .error .version

def settle (given : Given) : Except Stop Given :=
  match given.waiting with
  | .nothing => .ok given
  | .value _ => .error .usage
  | .check flag value => { given with waiting := .nothing }.set value flag

/-- Takes an option with its value, after what came before it. -/
def use (given : Given) (value : String) (flag : Flag) : Except Stop Given := do
  (← given.settle).set value flag

/-- Takes an option whose value comes in the next argument. -/
def await (given : Given) (flag : Flag) : Except Stop Given := do
  return { ← given.settle with waiting := .value flag }

/-- Takes options with one letter.  The first that takes a value takes the letters after it, but for
an equals sign. -/
def useLetters (scope : Scope) : Given → List Char → Except Stop Given
  | given, [] => .ok given
  | given, c :: rest =>
      match Flag.ofLetter? scope c with
      | none => .error .usage
      | some flag =>
          if flag.takesValue then
            match rest with
            | [] => given.await flag
            | '=' :: value => given.use (.ofList value) flag
            | value => given.use (.ofList value) flag
          else do
            useLetters scope (← given.use "" flag) rest

def useWord (scope : Scope) (given : Given) (text : List Char) : Except Stop Given :=
  let word := text.takeWhile (· ≠ '=')
  match Flag.ofWord? scope (.ofList word), text.drop word.length with
  | none, _ => .error .usage
  | some flag, [] => if flag.takesValue then given.await flag else given.use "" flag
  | some flag, _ :: value =>
      if flag.takesValue then given.use (.ofList value) flag else .error .usage

end Given

inductive Form where
  | operand
  | letters (text : List Char)
  | word (text : List Char)
  | ending

/-- What an argument looks like.  A single dash is an operand. -/
def form (argument : String) : Form :=
  match argument.toList with
  | ['-', '-'] => .ending
  | '-' :: '-' :: text => .word text
  | ['-'] => .operand
  | '-' :: text => .letters text
  | _ => .operand

/-! ## Commands -/

def Scope.arity : Scope → Nat
  | .program => 0
  | .resolve => 2
  | .batch => 1

def Given.addOperand (scope : Scope) (given : Given) (argument : String) :
    Except Stop Given := do
  let given ← given.settle
  if given.operands.length < scope.arity then
    return { given with operands := argument :: given.operands }
  else
    .error .usage

def readCommand (scope : Scope) : Given → List String → Except Stop Given
  | given, [] => given.settle
  | given, argument :: rest =>
      match form argument, given.waiting with
      | .operand, .value flag =>
          readCommand scope { given with waiting := .check flag argument } rest
      | .operand, _ => do readCommand scope (← given.addOperand scope argument) rest
      | .letters text, _ => do readCommand scope (← given.useLetters scope text) rest
      | .word text, _ => do readCommand scope (← given.useWord scope text) rest
      | .ending, _ => do rest.foldlM (Given.addOperand scope) (← given.settle)

def Given.toRequest (scope : Scope) (given : Given) : Except Stop Request :=
  match scope, given.operands with
  | .resolve, [path, file] => .ok <| .resolve file path given.start
  | .batch, [file] => .ok <| .batch file
  | _, _ => .error .usage

/-! ## The whole command line -/

def command? (name : String) : Option Scope :=
  if name = "resolve" then some .resolve
  else if name = "batch" then some .batch
  else none

def helpName : String := "help"

def explain : List String → Stop
  | [] => .help
  | [name] => if name = helpName || (command? name).isSome then .help else .usage
  | _ => .usage

/-- Reads the arguments from the name of a command on. -/
def readRequest (outer : Given) (scope : Scope) (rest : List String) : Except Stop Arguments := do
  let given ← readCommand scope {} rest
  let request ← given.toRequest scope
  let outer ← outer.settle
  return ⟨given.format <|> outer.format, given.verbose || outer.verbose, request⟩

/-- Reads the arguments after those that have been given. -/
def readProgram : Given → List String → Except Stop Arguments
  | _, [] => .error .usage
  | given, argument :: rest =>
      match form argument, given.waiting with
      | .operand, .value flag =>
          readProgram { given with waiting := .check flag argument } rest
      | .operand, _ =>
          if argument = helpName then .error (explain rest)
          else
            match command? argument with
            | some scope => readRequest given scope rest
            | none => .error .usage
      | .letters text, _ => do readProgram (← given.useLetters .program text) rest
      | .word text, _ => do readProgram (← given.useWord .program text) rest
      | .ending, _ => .error .usage

def parse (arguments : List String) : Except Stop Arguments :=
  readProgram {} arguments

end Arguments
end FieldLine
