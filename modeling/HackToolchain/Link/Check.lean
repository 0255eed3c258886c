import HackToolchain.Link.Registry
import HackToolchain.Vm.Command

/-! # Checks across units

A call should name a function of the registry, and a jump a label of its own unit.  A missing function is told once, at
its first call; a missing label is told at every jump to it.
-/
namespace HackToolchain.Link

open Vm (Command Kind)

structure Call where
  name : String
  arguments : Int
  unit : String
  position : Option Position
  deriving DecidableEq, Repr

/-- A unit's name with its commands. -/
abbrev ParsedUnit := String × List Command

def Call.ofCommand (unit : String) (command : Command) : Except Failure Call := do
  let name ← command.first
  let arguments ← command.second
  return ⟨name, arguments, unit, command.position⟩

/-- All calls in unit and source order. -/
def callsIn (units : List ParsedUnit) : Except Failure (List Call) :=
  (units.flatMap fun (unit, commands) =>
    (commands.filter (·.kind == .call)).map (Call.ofCommand unit)).mapM id

/-- The first call of each function that the registry does not hold; `told` are those already found. -/
def undefinedCalls (registry : Registry) (told : List String) : List Call → List Call
  | [] => []
  | call :: rest =>
    if registry.contains call.name || told.contains call.name then undefinedCalls registry told rest
    else call :: undefinedCalls registry (call.name :: told) rest

/-- Where something was found: a place in a source text, or else only the unit. -/
def whereabouts (unit : String) : Option Position → String
  | some position => position.text
  | none => unit

def Call.warning (call : Call) : String :=
  s!"{whereabouts call.unit call.position}: warning: call to undefined function '{call.name}'"

def Call.error (call : Call) : LinkError := .undefined call.name call.position

/-- Undefined calls as errors under strict checking and as warnings otherwise. -/
def checkCalls (units : List ParsedUnit) (registry : Registry) (isStrict : Bool) :
    Except Failure (List LinkError × List String) := do
  let missing := undefinedCalls registry [] (← callsIn units)
  return if isStrict then (missing.map Call.error, []) else ([], missing.map Call.warning)

/-- The same check for commands from anywhere, whose places may be too long to write out. -/
def tellCalls (units : List ParsedUnit) (registry : Registry) (isStrict : Bool) :
    Except Failure (List LinkError × List String) := do
  let missing := undefinedCalls registry [] (← callsIn units)
  if missing.all fun call => Position.isPrintable call.position then checkCalls units registry isStrict
  else throw (.numeral .tooLongToPrint)

def isJump (command : Command) : Bool := command.kind == .goto || command.kind == .ifGoto

/-- The warning for a jump to a label that the unit lacks. -/
def jumpWarning? (unit : String) (labels : List String) (command : Command) : Except Failure (Option String) := do
  let target ← command.first
  return if labels.contains target then none
    else some s!"{whereabouts unit command.position}: warning: jump to undefined label '{target}'"

def labelNames (commands : List Command) : Except Failure (List String) :=
  (commands.filter (·.kind == .label)).mapM Command.first

def checkLabels (unit : String) (commands : List Command) : Except Failure (List String) := do
  let labels ← labelNames commands
  let warnings ← (commands.filter isJump).mapM (jumpWarning? unit labels)
  return warnings.reduceOption

/-- The same check for commands from anywhere, whose places may be too long to write out. -/
def tellLabels (unit : String) (commands : List Command) : Except Failure (List String) := do
  let labels ← labelNames commands
  let warnings ← (commands.filter isJump).mapM fun command => do
    let warning ← jumpWarning? unit labels command
    if warning.isSome && !Position.isPrintable command.position then throw (.numeral .tooLongToPrint)
    return warning
  return warnings.reduceOption

end HackToolchain.Link
