import HackToolchain.Compile.Options
import HackToolchain.Compile.Survey
import HackToolchain.Compile.Writer
import HackToolchain.Link.Check

/-! # Compiling a program

A program is a list of units with different names.  It is first checked as a whole: every unit is read, every push
and pop is looked at, and, if there are several units, calls and the entry function are looked up among all their
functions.  What comes out is a plan, and from a plan the code is written unit by unit.
-/
namespace HackToolchain.Compile

open Link (Registry)
open Vm (Command)

/-- A program that has been checked. -/
structure Plan where
  units : List (CompilationUnit × List Command)
  functions : Registry
  bootstrap : Bool
  warnings : List String

/-- The first name that has occurred before; `seen` are the names so far. -/
def firstRepeated (seen : List String) : List String → Option String
  | [] => none
  | name :: rest => if seen.contains name then some name else firstRepeated (name :: seen) rest

def wantsBootstrap (options : Options) (units : List CompilationUnit) : Bool :=
  options.bootstrap.getD (1 < units.length)

def labelWarnings (options : Options) (unit : String) (commands : List Command) : Except Failure (List String) :=
  if options.checksLabels then Link.checkLabels unit commands else .ok []

/-- A single unit is checked by itself, and its registry stays empty. -/
def prepareOne (options : Options) (unit : CompilationUnit) : Except Failure Plan := do
  let commands ← unit.commands
  Vm.checkAccesses commands
  let warnings ← labelWarnings options unit.name commands
  return ⟨[(unit, commands)], Registry.freeze {}, wantsBootstrap options [unit], warnings⟩

/-- The entry function that the bootstrap calls has to be there. -/
def entryWarnings (options : Options) (registry : Registry) : Except Failure (List String) :=
  if registry.contains options.entry then .ok []
  else if options.isStrict then .error (.link (.undefined options.entry none))
  else .ok [s!"warning: bootstrap calls undefined function '{options.entry}'"]

def prepareMany (options : Options) (units : List CompilationUnit) : Except Failure Plan := do
  let registry ← survey units
  let parsed ← units.mapM fun unit => return (unit, ← unit.commands)
  parsed.forM fun (_, commands) => Vm.checkAccesses commands
  let (errors, callWarnings) ←
    Link.checkCalls (parsed.map fun (unit, commands) => (unit.name, commands)) registry options.isStrict
  if let some error := errors.head? then throw (.link error)
  let bootstrap := wantsBootstrap options units
  let entry ← if bootstrap then entryWarnings options registry else pure []
  let labels ← parsed.mapM fun (unit, commands) => labelWarnings options unit.name commands
  return ⟨parsed, registry, bootstrap, callWarnings ++ entry ++ labels.flatten⟩

def prepare (options : Options) (units : List CompilationUnit) : Except Failure Plan :=
  match firstRepeated [] (units.map (·.name)), units with
  | _, [] => .error (.setup .noUnits)
  | some name, _ => .error (.setup (.repeatedUnit name))
  | none, [unit] => prepareOne options unit
  | none, units => prepareMany options units

/-- What the checks tell: the course of the survey, and the warnings if the program is accepted. -/
def prepareLog (options : Options) (units : List CompilationUnit) : Log :=
  let course :=
    if 1 < units.length ∧ firstRepeated [] (units.map (·.name)) = none then surveyLog {} units else []
  let warnings := match prepare options units with
    | .ok plan => plan.warnings.map (⟨.warning, ·⟩)
    | .error _ => []
  course ++ warnings

/-- Code that is being written: the writer, the commands written so far, and what was told. -/
structure Emission where
  writer : Writer
  count : Nat := 0
  log : Array LogEntry := #[]

namespace Emission

def tell (emission : Emission) (level : Level) (message : String) : Emission :=
  { emission with log := emission.log.push ⟨level, message⟩ }

def tellNote (emission : Emission) : Option String → Emission
  | some message => emission.tell .debug message
  | none => emission

def command (emission : Emission) (command : Command) : Emission × Except Failure Unit :=
  match emission.writer.writeCommand command with
  | (writer, .ok ()) =>
    let written := { emission with writer, count := emission.count + 1 }
    (written.tellNote (command.instruction.toOption.bind (note emission.writer.nextLabel)), .ok ())
  | (writer, .error failure) => ({ emission with writer }, .error failure)

def commands (emission : Emission) : List Command → Emission × Except Failure Unit
  | [] => (emission, .ok ())
  | next :: rest =>
    match emission.command next with
    | (emission, .ok ()) => emission.commands rest
    | (emission, .error failure) => (emission, .error failure)

/-- Writes the commands of a unit under its name. -/
def unit (emission : Emission) (unit : CompilationUnit) (body : List Command) : Emission × Except Failure Unit :=
  let entered := (emission.tell .info s!"Processing file: {unit.file}").tell .debug s!"Translating unit: {unit.name}"
  { entered with writer := entered.writer.enterUnit unit.name }.commands body

def units (emission : Emission) : List (CompilationUnit × List Command) → Emission × Except Failure Unit
  | [] => (emission, .ok ())
  | (next, body) :: rest =>
    match emission.unit next body with
    | (emission, .ok ()) => emission.units rest
    | (emission, .error failure) => (emission, .error failure)

def bootstrap (emission : Emission) (entry : String) : Emission × Except Failure Unit :=
  let number := emission.writer.nextLabel
  match emission.writer.writeBootstrap entry with
  | (writer, .ok ()) =>
    let written := { emission with writer }.tellNote (note number (.call entry 0))
    (written.tell .debug s!"Wrote bootstrap (SP={writer.stackBase}, entry={entry})", .ok ())
  | (writer, .error failure) => ({ emission with writer }, .error failure)

end Emission

/-- Writes the code of a plan; what was written before a failure is kept. -/
def Plan.emit (plan : Plan) (options : Options) : Emission × Except Failure Unit :=
  let start : Emission := { writer := { comments := options.comments, stackBase := options.stackBase } }
  if plan.bootstrap then
    match start.bootstrap options.entry with
    | (emission, .ok ()) => emission.units plan.units
    | (emission, .error failure) => (emission, .error failure)
  else (start.tell .debug "Skipping bootstrap code").units plan.units

/-- What compiling a program yields besides its code. -/
structure Summary where
  units : List String
  functions : Registry
  bootstrap : Bool
  warnings : List String
  commands : Nat

def Plan.summary (plan : Plan) (emission : Emission) : Summary :=
  ⟨plan.units.map fun (unit, _) => unit.name, plan.functions, plan.bootstrap, plan.warnings, emission.count⟩

/-- Compiles a program to assembly text. -/
def compile (options : Options) (units : List CompilationUnit) : Except Failure (Summary × String) := do
  let plan ← prepare options units
  let (emission, outcome) := plan.emit options
  outcome
  return (plan.summary emission, emission.writer.text)

end HackToolchain.Compile
