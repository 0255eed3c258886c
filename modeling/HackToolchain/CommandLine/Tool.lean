import HackToolchain.CommandLine.Arguments
import HackToolchain.CommandLine.Describe
import HackToolchain.Files.Build
import HackToolchain.Text.ControlSequence

/-! # The two tools

The compiler takes a VM file or a directory of VM files, the assembler a file of assembly code; each writes one file.
A run of a tool is a function of the disk, the arguments and the environment.  All text is made of Unicode scalar
values, the disk has no links, and the console takes every line.
-/
namespace HackToolchain.CommandLine

open Compile (Options Summary)
open Files (Attempt Disk Location Path)

/-- How a run of a tool ends. -/
structure Ending where
  disk : Disk
  status : ExitStatus
  output : String := ""
  /-- What the tool has logged. -/
  log : String := ""
  /-- The failure that ended the run, in words. -/
  report : String := ""
  /-- The arguments broke the rules of the command line. -/
  isUsageError : Bool := false
  /-- The failure that broke the run off before the tool could report it. -/
  breach : Option Failure := none
  /-- An internal error was told to a reader who wants to know more. -/
  hasTrace : Bool := false

namespace Ending

def usageError (disk : Disk) : Ending := { disk, status := .badRequest, isUsageError := true }

def brokenOff (disk : Disk) (failure : Failure) : Ending := { disk, status := .brokenOff, breach := some failure }

/-- Output goes to a terminal as it is, and elsewhere without control sequences. -/
def shownOutput (ending : Ending) (toTerminal : Bool) : String :=
  if toTerminal then ending.output else Text.plain ending.output

/-- The log is shown as it is in any case, and the report after it like the output. -/
def shownMessages (ending : Ending) (toTerminal : Bool) : String :=
  ending.log ++ if toTerminal then ending.report else Text.plain ending.report

end Ending

def commonSpecs : List OptionSpec :=
  [⟨"output", ["-o", "--output"], true⟩, ⟨"verbose", ["-v", "--verbose"], false⟩,
   ⟨"version", ["--version"], false⟩, ⟨"help", ["--help"], false⟩]

def compilerSpecs : List OptionSpec :=
  commonSpecs ++
    [⟨"bootstrap", ["--bootstrap"], false⟩, ⟨"no-bootstrap", ["--no-bootstrap"], false⟩,
     ⟨"comments", ["--comments"], false⟩, ⟨"no-comments", ["--no-comments"], false⟩,
     ⟨"strict", ["--strict"], false⟩, ⟨"dump-functions", ["--dump-functions"], false⟩]

/-- Looks a path up as it was typed.  One that leads nowhere is an answer too, but not one with a null character. -/
def lookUp (disk : Disk) (text : String) : Except Ending (Option Location) :=
  match disk.locateTyped text with
  | .ok location => .ok (some location)
  | .error .nullCharacter => .error (.brokenOff disk .nullCharacter)
  | .error _ => .ok none

/-- The output file, which must not be a directory. -/
def outputPath (disk : Disk) (text : String) : Except Ending Path := do
  if (← lookUp disk text).any disk.isDirectoryAt then .error (.usageError disk) else .ok (.ofText text)

/-- The input, which has to exist. -/
def inputPath (disk : Disk) (takesDirectory : Bool) (text : String) : Except Ending Path := do
  match ← lookUp disk text with
  | some location =>
    if disk.isDirectoryAt location && !takesDirectory then .error (.usageError disk) else .ok (.ofText text)
  | none => .error (.usageError disk)

/-- The one operand and the output file; the output is looked at first, and a second operand last. -/
def inputAndOutput (disk : Disk) (takesDirectory : Bool) (arguments : Arguments) :
    Except Ending (Path × Option Path) := do
  let output ← (arguments.lastValue? "output").mapM (outputPath disk)
  match arguments.operands with
  | [] => .error (.usageError disk)
  | operand :: others =>
    let input ← inputPath disk takesDirectory operand
    if others.isEmpty then .ok (input, output) else .error (.usageError disk)

/-- Reads the arguments and answers the requests that need no input; otherwise the tool goes to work. -/
def start (disk : Disk) (tool : String) (specs : List OptionSpec) (takesDirectory : Bool) (arguments : List String)
    (work : Arguments → Path → Option Path → Ending) : Ending :=
  match read specs arguments with
  | none => .usageError disk
  | some found =>
    match found.given.find? fun given => given.key == "version" || given.key == "help" with
    | some given =>
      { disk, status := .success, output := if given.key = "version" then s!"{tool}, version 1.0.0\n" else "" }
    | none =>
      match inputAndOutput disk takesDirectory found with
      | .error ending => ending
      | .ok (input, output) => work found input output

/-- The end of an attempt that failed. -/
def failed {α : Type} (attempt : Attempt α) (failure : Failure) (activity : String) (isVerbose : Bool)
    (log : Log) (output : String) : Ending :=
  let (message, status) := describe activity failure
  { disk := attempt.disk
    status
    output
    log := log.shown isVerbose
    report := message ++ "\n"
    hasTrace := isVerbose && status = .unforeseen }

/-- The options that the arguments leave of those from the environment. -/
def adjusted (options : Options) (arguments : Arguments) : Options :=
  { options with
    bootstrap := (arguments.lastOf? "bootstrap" "no-bootstrap").orElse fun _ => options.bootstrap
    comments := (arguments.lastOf? "comments" "no-comments").getD options.comments
    isStrict := options.isStrict || arguments.has "strict" }

/-- What the compiler prints at the end. -/
def compilerOutput (arguments : Arguments) (summary : Summary) (output : Path) : String :=
  let table := summary.functions.listing
  let dump := if arguments.has "dump-functions" then
    [if table.isEmpty then "(no functions)" else table] else []
  let account := if arguments.has "verbose" then
    ["Units: " ++ ", ".intercalate summary.units,
     "Bootstrap: " ++ (if summary.bootstrap then "yes" else "no"),
     s!"Commands translated: {summary.commands}"] ++
    (if summary.warnings.isEmpty then [] else [s!"Warnings: {summary.warnings.length}"]) else []
  "".intercalate ((dump ++ account ++ [s!"Wrote {output.text}"]).map (· ++ "\n"))

def compilerWork (disk : Disk) (environment : Options.Environment) (arguments : Arguments) (input : Path)
    (output : Option Path) : Ending :=
  let isVerbose := arguments.has "verbose"
  let (fromEnvironment, warnings) := Options.ofEnvironment environment
  let options := adjusted fromEnvironment arguments
  let attempt := Files.compilePath disk options input output
  let log : Log := warnings.map (⟨.warning, ·⟩) ++
    [⟨.debug, s!"Translator options: {options.describe}"⟩] ++ attempt.log
  match attempt.outcome with
  | .ok (summary, written) =>
    { disk := attempt.disk
      status := .success
      output := compilerOutput arguments summary written
      log := log.shown isVerbose }
  | .error failure => failed attempt failure "Translation" isVerbose log ""

/-- The VM compiler. -/
def compiler (disk : Disk) (arguments : List String) (environment : Options.Environment) : Ending :=
  start disk "hackvm" compilerSpecs true arguments (compilerWork disk environment)

def assemblerWork (disk : Disk) (arguments : Arguments) (input : Path) (output : Option Path) : Ending :=
  let isVerbose := arguments.has "verbose"
  let output := output.getD (input.withSuffix ".hack")
  let attempt := Files.assemblePath disk input (some output)
  let opening := if isVerbose then s!"Assembling {input.text}...\n" else ""
  match attempt.outcome with
  | .ok session =>
    let account := if isVerbose then
      s!"Assembly complete: {session.words.length} instructions\n" ++
        s!"Defined {session.symbols.user.length} symbols\n" else ""
    { disk := attempt.disk
      status := .success
      output := opening ++ account ++ s!"Wrote {output.text}\n"
      log := attempt.log.shown isVerbose }
  | .error failure => failed attempt failure "Assembly" isVerbose attempt.log opening

/-- The assembler. -/
def assembler (disk : Disk) (arguments : List String) : Ending :=
  start disk "hackasm" commonSpecs false arguments (assemblerWork disk)

end HackToolchain.CommandLine
