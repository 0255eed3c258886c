/-! # Reading arguments

Options and operands come in any order.  A long option may carry its value after an equals sign, short options may
be run together behind one dash, and an option that wants a value takes the rest of its run or the next argument,
whatever that looks like.  Two dashes end the options.
-/
namespace HackToolchain.CommandLine

/-- An option: the name under which it is recorded, all its spellings, and whether it wants a value. -/
structure OptionSpec where
  key : String
  spellings : List String
  takesValue : Bool := false
  deriving DecidableEq, Repr

/-- An option as it was given. -/
structure Given where
  key : String
  value : Option String
  deriving DecidableEq, Repr

/-- What has been read: options and operands, the latest first. -/
structure Arguments where
  given : List Given := []
  operands : List String := []
  deriving DecidableEq, Repr

namespace Arguments

def record (arguments : Arguments) (key : String) (value : Option String) : Arguments :=
  { arguments with given := ⟨key, value⟩ :: arguments.given }

def operand (arguments : Arguments) (text : String) : Arguments :=
  { arguments with operands := text :: arguments.operands }

end Arguments

def find? (specs : List OptionSpec) (spelling : List Char) : Option OptionSpec :=
  specs.find? fun spec => spec.spellings.any (·.toList == spelling)

/-- What has been read, and the key of an option that waits for its value. -/
abbrev Progress := Arguments × Option String

/-- Reads a long option; a value for an option that takes none is refused. -/
def readLong (specs : List OptionSpec) (arguments : Arguments) (text : List Char) : Option Progress := do
  let name := text.takeWhile (· != '=')
  let value := (text.drop name.length).tail?
  let spec ← find? specs name
  match spec.takesValue, value with
  | true, some value => return (arguments.record spec.key (some (String.ofList value)), none)
  | true, none => return (arguments, some spec.key)
  | false, some _ => none
  | false, none => return (arguments.record spec.key none, none)

/-- Reads a run of short options. -/
def readShort (specs : List OptionSpec) (arguments : Arguments) : List Char → Option Progress
  | [] => some (arguments, none)
  | c :: rest => do
    let spec ← find? specs ['-', c]
    if spec.takesValue then
      if rest.isEmpty then return (arguments, some spec.key)
      else return (arguments.record spec.key (some (String.ofList rest)), none)
    else readShort specs (arguments.record spec.key none) rest

/-- Reads arguments on; `waiting` is the key of an option whose value comes next. -/
def readFrom (specs : List OptionSpec) (arguments : Arguments) (waiting : Option String) :
    List String → Option Arguments
  | [] => if waiting.isSome then none else some arguments
  | argument :: rest =>
    match waiting, argument.toList with
    | some key, _ => readFrom specs (arguments.record key (some argument)) none rest
    | none, ['-', '-'] => some (rest.foldl Arguments.operand arguments)
    | none, '-' :: '-' :: long => do
      let (arguments, waiting) ← readLong specs arguments ('-' :: '-' :: long)
      readFrom specs arguments waiting rest
    | none, '-' :: c :: short => do
      let (arguments, waiting) ← readShort specs arguments (c :: short)
      readFrom specs arguments waiting rest
    | none, _ => readFrom specs (arguments.operand argument) none rest

/-- The options and operands in the order in which they were given, unless the arguments break the rules. -/
def read (specs : List OptionSpec) (arguments : List String) : Option Arguments :=
  (readFrom specs {} none arguments).map fun found => ⟨found.given.reverse, found.operands.reverse⟩

namespace Arguments

/-- An option was given. -/
def has (arguments : Arguments) (key : String) : Bool := arguments.given.any (·.key == key)

/-- The value of an option that was given last. -/
def lastValue? (arguments : Arguments) (key : String) : Option String :=
  (arguments.given.reverse.find? (·.key == key)).bind (·.value)

/-- Which of two opposite options was given last. -/
def lastOf? (arguments : Arguments) (yes no : String) : Option Bool :=
  (arguments.given.reverse.find? fun given => given.key == yes || given.key == no).map (·.key == yes)

end Arguments

end HackToolchain.CommandLine
