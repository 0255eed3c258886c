import HackToolchain.Failure

/-! # Telling failures on the command line

A tool that fails tells why in its own words and ends with a code: 1 for a program that is wrong, 2 for a request
that is wrong, 3 for anything that should not have happened.  A run that breaks off before the tool is at work ends
with 1 as well.
-/
namespace HackToolchain.CommandLine

inductive ExitStatus where
  | success | badProgram | badRequest | unforeseen | brokenOff
  deriving DecidableEq, Repr

def ExitStatus.code : ExitStatus → Nat
  | .success => 0
  | .badProgram => 1
  | .badRequest => 2
  | .unforeseen => 3
  | .brokenOff => 1

def hinted (message hint : String) : String := s!"{message}\n    hint: {hint}"

def linkMessage : LinkError → String
  | .undefined name none =>
    hinted s!"error: bootstrap calls undefined function '{name}'"
      "define it or point HACKVM_ENTRY at an existing function"
  | .undefined name (some position) =>
    hinted s!"{position.text}: error: call to undefined function '{name}'"
      "define it in one of the input units, or drop --strict"
  | .duplicate name first second =>
    hinted s!"error: {(LinkError.duplicate name first second).message}"
      "function names must be unique across all input units"
  | error => s!"link error: {error.message}"

/-- The words before a failure that has no form of its own. -/
def heading (activity : String) : String := if activity.isEmpty then "error" else s!"{activity} error"

def systemMessage (error : SystemError) : String :=
  let file := match error.file? with
    | some file => s!" '{file}'"
    | none => ""
  s!"error: cannot access{file}: " ++ error.reason?.getD error.message

/-- The message for a failure of some activity, and how the tool ends. -/
def describe (activity : String) : Failure → String × ExitStatus
  | .vm error => (error.diagnostic.text, .badProgram)
  | .asm error => (error.diagnostic.text, .badProgram)
  | .located report => (s!"{heading activity}: {report.text}", .badProgram)
  | .link error => (linkMessage error, .badProgram)
  | .setup (.emptyDirectory path) =>
    (hinted s!"error: {(SetupError.emptyDirectory path).message}"
      "pass a .vm file, or a directory holding at least one .vm file", .badProgram)
  | .setup error => (s!"{heading activity}: {error.message}", .badProgram)
  | .unreadable path reason => (s!"error: {(Failure.unreadable path reason).message}", .badRequest)
  | .machine .noInstruction => (s!"Internal error: {Machine.Fault.noInstruction.message}", .unforeseen)
  | .machine .addressTooWide => (s!"Internal error: {Machine.Fault.addressTooWide.message}", .unforeseen)
  | .machine (.extent fault) => (s!"Internal error: {fault.message}", .unforeseen)
  | .machine fault => (s!"{heading activity}: {fault.message}", .badProgram)
  | .told message => (s!"{heading activity}: {message}", .badProgram)
  | .usage message => (s!"Error: {message}", .badRequest)
  | .encoding error => (s!"error: cannot read input: not UTF-8 text ({error.reason})", .badRequest)
  | .system error => (systemMessage error, .badRequest)
  | failure => (s!"Internal error: {failure.message}", .unforeseen)

end HackToolchain.CommandLine
