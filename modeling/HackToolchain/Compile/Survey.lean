import HackToolchain.Link.Registry
import HackToolchain.Log
import HackToolchain.Vm.Scanner

/-! # The survey of functions

Before a program of several units is compiled, all its functions are entered in a registry.  The survey stops at the
first line that cannot be read or defines a function for the second time, whichever comes first.
-/
namespace HackToolchain.Compile

open Link (Registry)
open Vm (Command)

/-- A piece of VM source with the name of its unit and of its file. -/
structure CompilationUnit where
  name : String
  source : String
  file : String
  deriving DecidableEq, Repr

namespace CompilationUnit

/-- A unit that was not read from a file has its file name from its unit name. -/
def inMemory (name source : String) : CompilationUnit := ⟨name, source, name ++ ".vm"⟩

/-- What scanning each line that is not blank comes to. -/
def outcomes (unit : CompilationUnit) : List (Except Failure Command) :=
  (Vm.sourceLines unit.source unit.file).filterMap Vm.Line.command?

def commands (unit : CompilationUnit) : Except Failure (List Command) := Vm.parse unit.source unit.file

end CompilationUnit

/-- Enters a function of a unit that the registry does not hold yet. -/
def addFunction (unit name : String) (registry : Registry) : Except Failure Registry :=
  match registry.lookup name with
  | some owner => .error (.link (.duplicate name owner unit))
  | none => (registry.add name unit).mapError .link

def addCommand (unit : String) (registry : Registry) (command : Command) : Except Failure Registry := do
  if command.kind = .function then addFunction unit (← command.first) registry else return registry

/-- Enters the functions of a unit, up to the first line that is at fault. -/
def surveyOutcomes (unit : String) (registry : Registry) :
    List (Except Failure Command) → Registry × Except Failure Unit
  | [] => (registry, .ok ())
  | outcome :: rest =>
    match outcome.bind (addCommand unit registry) with
    | .ok registry => surveyOutcomes unit registry rest
    | .error failure => (registry, .error failure)

def surveyUnit (registry : Registry) (unit : CompilationUnit) : Registry × Except Failure Unit :=
  surveyOutcomes unit.name registry unit.outcomes

def surveyFrom (registry : Registry) : List CompilationUnit → Registry × Except Failure Unit
  | [] => (registry, .ok ())
  | unit :: rest =>
    match surveyUnit registry unit with
    | (registry, .ok ()) => surveyFrom registry rest
    | (registry, .error failure) => (registry, .error failure)

/-- The frozen registry of all functions of a program. -/
def survey (units : List CompilationUnit) : Except Failure Registry :=
  let (registry, outcome) := surveyFrom {} units
  outcome.map fun _ => registry.freeze

/-- What the survey tells while it goes on. -/
def surveyLog (registry : Registry) : List CompilationUnit → Log
  | [] => [⟨.debug, s!"Function table:\n{registry.listing}"⟩]
  | unit :: rest =>
    let (surveyed, outcome) := surveyUnit registry unit
    let found := surveyed.entries.drop registry.entries.length
    ⟨.info, s!"First pass looking for functions in: {unit.file}"⟩ ::
      (found.map fun (name, owner) => ⟨.debug, s!"Function table: {name} -> {owner}"⟩) ++
      match outcome with
      | .ok () => surveyLog surveyed rest
      | .error _ => []

end HackToolchain.Compile
