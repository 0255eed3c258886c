import HackToolchain.CommandLine.Tool

/-! # The program

The first argument names the tool.  What the remaining arguments refer to is copied from the real disk into a value,
the tool runs on it, and the files that it changed are written back.
-/
namespace HackToolchain.Program

open CommandLine (Ending)
open Files (Disk Location Path)

/-- Copies a file, or a directory with its VM files. -/
def copyPlace (disk : Disk) (location : Location) : IO Disk := do
  let place := (← IO.currentDir) / ("/" ++ "/".intercalate location)
  if ← place.isDir then
    let mut copied := disk.addDirectory location
    for entry in ← place.readDir do
      if Files.isVmFile entry.fileName && !(← entry.path.isDir) then
        copied := copied.addFile (location ++ [entry.fileName]) (← IO.FS.readBinFile entry.path)
    return copied
  else if ← place.pathExists then
    return disk.addFile location (← IO.FS.readBinFile place)
  else return disk

/-- Copies everything that a path passes through. -/
def copyPath (disk : Disk) (text : String) : IO Disk := do
  let path := Path.ofText text
  let mut location := disk.start path.isAbsolute
  let mut copied ← copyPlace disk location
  for name in path.names do
    location := if name = ".." then location.dropLast else location ++ [name]
    copied ← copyPlace copied location
  return copied

/-- The part of the disk that the arguments speak of. -/
def copyDisk (texts : List String) : IO Disk := do
  let here := (← IO.currentDir).components.filter (!·.isEmpty)
  texts.foldlM copyPath (Disk.empty here)

def writeBack (before after : Disk) : IO Unit := do
  for (location, bytes) in after.files do
    unless before.file? location == some bytes do
      IO.FS.writeBinFile ("/" ++ "/".intercalate location) bytes

/-- The variables that the compiler looks at. -/
def environment : IO (List (String × String)) :=
  ["HACKVM_COMMENTS", "HACKVM_STRICT", "HACKVM_STACK_BASE", "HACKVM_ENTRY"].filterMapM fun name =>
    return (← IO.getEnv name).map fun value => (name, value)

/-- The operands and output files that arguments name. -/
def pathsIn (specs : List CommandLine.OptionSpec) (arguments : List String) : List String :=
  match CommandLine.read specs arguments with
  | some found => found.operands ++ found.given.filterMap (·.value)
  | none => []

def finish (disk : Disk) (ending : Ending) : IO UInt32 := do
  writeBack disk ending.disk
  IO.print (ending.shownOutput (← (← IO.getStdout).isTty))
  IO.eprint (ending.shownMessages (← (← IO.getStderr).isTty))
  if let some failure := ending.breach then IO.eprintln failure.message
  if ending.isUsageError then IO.eprintln "usage: hackvm INPUT [-o OUTPUT], or hackasm INPUT [-o OUTPUT]"
  return ending.status.code.toUInt32

end HackToolchain.Program

open HackToolchain HackToolchain.Program

def main (arguments : List String) : IO UInt32 := do
  match arguments with
  | "hackvm" :: rest =>
    let disk ← copyDisk (pathsIn CommandLine.compilerSpecs rest)
    finish disk (CommandLine.compiler disk rest (← environment))
  | "hackasm" :: rest =>
    let disk ← copyDisk (pathsIn CommandLine.commonSpecs rest)
    finish disk (CommandLine.assembler disk rest)
  | _ =>
    IO.eprintln "the first argument is hackvm or hackasm"
    return 2
