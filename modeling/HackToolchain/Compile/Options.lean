import HackToolchain.Failure

/-! # Options of the compiler

Each option has a default, which the environment may replace.  An environment variable that is set to nothing counts
as not set.  The values of environment variables are made of Unicode scalar values.
-/
namespace HackToolchain.Compile

structure Options where
  /-- Whether to start with the bootstrap code; undecided means with two units or more. -/
  bootstrap : Option Bool := none
  comments : Bool := true
  /-- A call of an undefined function is an error and not a warning. -/
  isStrict : Bool := false
  stackBase : Int := 256
  entry : String := "Sys.init"
  /-- Look for jumps to labels that their unit lacks. -/
  checksLabels : Bool := true
  deriving DecidableEq, Repr

namespace Options

/-- The variables of the environment. -/
abbrev Environment := List (String × String)

/-- No variable can have a null character in its name or its value. -/
def Environment.failure? (environment : Environment) : Option Failure :=
  if environment.any fun (name, value) => (name ++ value).toList.contains '\x00' then some .nullCharacter else none

def setting? (environment : Environment) (name : String) : Option String :=
  (environment.lookup name).filter (!·.isEmpty)

/-- The words that switch an option on, in any case and with blanks around them. -/
def isAffirmative (text : String) : Bool :=
  ["1", "true", "yes", "on"].contains (Text.lower (String.ofList (Text.trim text.toList)))

/-- The options that the environment asks for, and a warning about a setting that cannot be used. -/
def ofEnvironment (environment : Environment) : Options × List String :=
  let setting := setting? environment
  let base := setting "HACKVM_STACK_BASE"
  let options : Options :=
    { comments := (setting "HACKVM_COMMENTS").all isAffirmative
      isStrict := (setting "HACKVM_STRICT").any isAffirmative
      stackBase := (base.bind Text.integer?).getD 256
      entry := (setting "HACKVM_ENTRY").getD "Sys.init" }
  let warnings := match base with
    | some text =>
      if (Text.integer? text).isSome then [] else ["Ignoring invalid HACKVM_STACK_BASE: " ++ Text.quoted text]
    | none => []
  (options, warnings)

def boolText (b : Bool) : String := if b then "True" else "False"

/-- All options on one line. -/
def describe (options : Options) : String :=
  let bootstrap := match options.bootstrap with
    | some b => boolText b
    | none => "None"
  s!"TranslatorOptions(bootstrap={bootstrap}, emit_comments={boolText options.comments}, " ++
    s!"strict_calls={boolText options.isStrict}, stack_base={options.stackBase}, " ++
    s!"entry_function={Text.quoted options.entry}, check_labels={boolText options.checksLabels})"

end Options

end HackToolchain.Compile
