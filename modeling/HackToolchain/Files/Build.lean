import HackToolchain.Asm.Session
import HackToolchain.Compile.Program
import HackToolchain.Files.Disk

/-! # Building from files

A program is one VM file, or all the VM files of a directory in the order of their names; its code goes to a file
beside it.  Building leaves a disk, a log and an outcome.
-/
namespace HackToolchain.Files

open Compile (Options CompilationUnit Summary)

/-- What an attempt to build leaves behind. -/
structure Attempt (α : Type) where
  disk : Disk
  log : Log
  outcome : Except Failure α

def isVmFile (name : String) : Bool := Text.lower (divide name).2 = ".vm"

/-- The VM files of a directory. -/
def vmFilesIn (disk : Disk) (directory : Path) : Except Failure (List Path) :=
  match disk.filesIn directory with
  | .error failure => .error failure
  | .ok files =>
    match files.filter (isVmFile ·.name) with
    | [] => .error (.setup (.emptyDirectory directory.text))
    | files => .ok files

def unitAt (disk : Disk) (path : Path) : Except Failure (Path × CompilationUnit) := do
  let source ← disk.readText path
  return (path, ⟨path.stem, source, path.name⟩)

/-- The units that a path stands for. -/
def unitsAt (disk : Disk) (input : Path) : Except Failure (List (Path × CompilationUnit)) := do
  match ← disk.probe input with
  | none => throw (.system (.remark s!"No such file or directory: '{input.text}'"))
  | some location =>
    if disk.isDirectoryAt location then (← vmFilesIn disk input).mapM (unitAt disk)
    else if isVmFile input.name then return [← unitAt disk input]
    else throw (.setup (.wrongExtension input.text))

def loadLog (disk : Disk) (input : Path) : Log :=
  if disk.isDirectory input then [⟨.info, s!"Processing directory: {input.text}"⟩] else []

/-- The file that the code goes to: inside a directory, and named after it, or beside a file. -/
def codePathFor (disk : Disk) (input : Path) : Except Failure Path := do
  match ← disk.probe input with
  | some location =>
    if disk.isDirectoryAt location then return input.child (location.getLast?.getD "" ++ ".asm")
    else return input.withSuffix ".asm"
  | none => return input.withSuffix ".asm"

/-- Compiles units into a file.  The file is opened once the program has been accepted, and closed in any case. -/
def compileInto (disk : Disk) (options : Options) (units : List CompilationUnit) (output : Path) :
    Attempt (Summary × Path) :=
  let checks := Compile.prepareLog options units
  match Compile.prepare options units with
  | .error failure => ⟨disk, checks, .error failure⟩
  | .ok plan =>
    match disk.target output with
    | .error trouble => ⟨disk, checks, .error (trouble.failure output.text)⟩
    | .ok location =>
      let (emission, outcome) := plan.emit options
      let written := disk.put location emission.writer.text.toUTF8
      let log := checks ++ [⟨.debug, s!"Opened output file: {output.text}"⟩] ++ emission.log.toList ++
        [⟨.debug, "Closed output stream"⟩]
      match outcome with
      | .ok () =>
        ⟨written, log ++ [⟨.info, s!"Wrote {output.text}"⟩], .ok (plan.summary emission, output)⟩
      | .error failure => ⟨written, log, .error failure⟩

def compilePath (disk : Disk) (options : Options) (input : Path) (output : Option Path) : Attempt (Summary × Path) :=
  let source : Except Failure (List CompilationUnit × Path) := do
    let units ← unitsAt disk input
    return (units.map (·.2), ← output.elim (codePathFor disk input) .ok)
  match source with
  | .error failure => ⟨disk, loadLog disk input, .error failure⟩
  | .ok (units, output) =>
    let attempt := compileInto disk options units output
    { attempt with log := loadLog disk input ++ attempt.log }

/-- The commands of a VM file. -/
def commandsAt (disk : Disk) (path : Path) : Except Failure (List Vm.Command) := do
  Vm.parse (← disk.readText path) path.name

/-- Assembles a file, and writes the program to another if one is named. -/
def assemblePath (disk : Disk) (input : Path) (output : Option Path) : Attempt Asm.Session :=
  match disk.readText input with
  | .error failure => ⟨disk, [], .error failure⟩
  | .ok source =>
    match Asm.Session.new.assemble source input.name with
    | (_, .error failure) => ⟨disk, [], .error failure⟩
    | (session, .ok words) =>
      let log : Log := [⟨.debug, session.note⟩]
      match output.mapM fun path => disk.writeText path (Asm.hackText words) with
      | .error failure => ⟨disk, log, .error failure⟩
      | .ok written => ⟨written.getD disk, log, .ok session⟩

end HackToolchain.Files
