import HackToolchain.Failure
import HackToolchain.Files.Path
import HackToolchain.Text.Lines

/-! # A disk

Files and directories as a value.  A location is the list of names from the root; a path is followed name by name
from the working directory or the root, and every name but the last has to lead to a directory.  Names and paths
may not be too long, and no path may hold a null character.  Names and texts are made of Unicode scalar values, and
there are no links.
-/
namespace HackToolchain.Files

abbrev Location := List String

structure Disk where
  files : List (Location × ByteArray)
  directories : List Location
  /-- The working directory. -/
  here : Location

/-- Why a path leads nowhere. -/
inductive Trouble where
  | missing
  | notDirectory
  | isDirectory
  | nameTooLong
  | nullCharacter
  deriving DecidableEq, Repr

namespace Trouble

/-- The error of the file system; a null character does not get that far. -/
def error? (trouble : Trouble) (path : String) : Option SystemError :=
  match trouble with
  | .missing => some (.missing path)
  | .notDirectory => some (.notDirectory path)
  | .isDirectory => some (.isDirectory path)
  | .nameTooLong => some (.nameTooLong path)
  | .nullCharacter => none

def failure (trouble : Trouble) (path : String) : Failure := ((trouble.error? path).map .system).getD .nullCharacter

/-- The failure to read an input file. -/
def inputFailure (trouble : Trouble) (path : String) : Failure :=
  match (trouble.error? path).bind SystemError.reason? with
  | some reason => .unreadable path (Text.lower reason)
  | none => .nullCharacter

end Trouble

/-- The most bytes that a name can have. -/
def longestName : Nat := 255

/-- The most bytes that the text of a path can have. -/
def longestPath : Nat := 4095

/-- What keeps a text from being a path, wherever it leads. -/
def textTrouble? (text : String) : Option Trouble :=
  if text.toList.contains '\x00' then some .nullCharacter
  else if longestPath < text.utf8ByteSize then some .nameTooLong
  else none

namespace Disk

def file? (disk : Disk) (location : Location) : Option ByteArray := disk.files.lookup location

/-- The root is always a directory. -/
def isDirectoryAt (disk : Disk) (location : Location) : Bool :=
  location.isEmpty || disk.directories.contains location

def existsAt (disk : Disk) (location : Location) : Bool :=
  disk.isDirectoryAt location || (disk.file? location).isSome

/-- Follows names from a location. -/
def walk (disk : Disk) (location : Location) : List String → Except Trouble Location
  | [] => .ok location
  | name :: rest =>
    if !disk.isDirectoryAt location then .error .notDirectory
    else if name.isEmpty || name = "." then disk.walk location rest
    else if name = ".." then disk.walk location.dropLast rest
    else if longestName < name.utf8ByteSize then .error .nameTooLong
    else if disk.existsAt (location ++ [name]) then disk.walk (location ++ [name]) rest
    else .error .missing

def start (disk : Disk) (isAbsolute : Bool) : Location := if isAbsolute then [] else disk.here

def locate (disk : Disk) (path : Path) : Except Trouble Location :=
  match textTrouble? path.text with
  | some trouble => .error trouble
  | none => disk.walk (disk.start path.isAbsolute) path.names

/-- Follows a path as it was typed, so that a slash at its end asks for a directory. -/
def locateTyped (disk : Disk) (text : String) : Except Trouble Location :=
  match textTrouble? text with
  | some trouble => .error trouble
  | none =>
    if text.isEmpty then .error .missing
    else disk.walk (disk.start (text.startsWith "/")) ((components text.toList).map String.ofList)

def isDirectory (disk : Disk) (path : Path) : Bool := (disk.locate path).toOption.any disk.isDirectoryAt

/-- What a path leads to, if anything; a path that is too long cannot even be asked about. -/
def probe (disk : Disk) (path : Path) : Except Failure (Option Location) :=
  match disk.locate path with
  | .ok location => .ok (some location)
  | .error .nameTooLong => .error (.system (.nameTooLong path.text))
  | .error _ => .ok none

/-- The last names of those places that lie right in a directory, in ascending order. -/
def namesUnder (location : Location) (places : List Location) : List String :=
  (places.filterMap fun place => if place.dropLast = location then place.getLast? else none).mergeSort (· ≤ ·)

/-- The files of a directory, in the order of their names; every entry is asked whether it is a file. -/
def filesIn (disk : Disk) (path : Path) : Except Failure (List Path) :=
  match disk.locate path with
  | .error trouble => .error (trouble.failure path.text)
  | .ok location =>
    if disk.isDirectoryAt location then
      let files := namesUnder location (disk.files.map (·.1))
      let entries := (files ++ namesUnder location disk.directories).map path.child
      match entries.find? fun entry => longestPath < entry.text.utf8ByteSize with
      | some entry => .error (.system (.nameTooLong entry.text))
      | none => .ok (files.map path.child)
    else .error (.system (.notDirectory path.text))

def readBytes (disk : Disk) (path : Path) : Except Trouble ByteArray := do
  match disk.file? (← disk.locate path) with
  | some bytes => return bytes
  | none => throw .isDirectory

/-- Reads a text file; whatever goes wrong is blamed on the file. -/
def readText (disk : Disk) (path : Path) : Except Failure String :=
  match disk.readBytes path with
  | .error trouble => .error (trouble.inputFailure path.text)
  | .ok bytes =>
    match Text.decodeUtf8 bytes with
    | .ok text => .ok (Text.lineFeeds text)
    | .error fault => .error (.unreadable path.text (Failure.badByteReason fault.byte fault.offset))

/-- Where a file can be written under a path. -/
def target (disk : Disk) (path : Path) : Except Trouble Location :=
  match textTrouble? path.text, path.names.getLast? with
  | some trouble, _ => .error trouble
  | none, none => .error .isDirectory
  | none, some name => do
    let parent ← disk.walk (disk.start path.isAbsolute) path.names.dropLast
    if !disk.isDirectoryAt parent then throw .notDirectory
    else if name = ".." then throw .isDirectory
    else if longestName < name.utf8ByteSize then throw .nameTooLong
    else if disk.isDirectoryAt (parent ++ [name]) then throw .isDirectory
    else return parent ++ [name]

/-- The files with one of them replaced or added. -/
def putFile (location : Location) (bytes : ByteArray) : List (Location × ByteArray) → List (Location × ByteArray)
  | [] => [(location, bytes)]
  | entry :: rest =>
    if entry.1 = location then (location, bytes) :: rest else entry :: putFile location bytes rest

def put (disk : Disk) (location : Location) (bytes : ByteArray) : Disk :=
  { disk with files := putFile location bytes disk.files }

def writeBytes (disk : Disk) (path : Path) (bytes : ByteArray) : Except Failure Disk := do
  return disk.put (← (disk.target path).mapError (·.failure path.text)) bytes

def writeText (disk : Disk) (path : Path) (text : String) : Except Failure Disk := disk.writeBytes path text.toUTF8

/-- Adds a directory with all the directories above it. -/
def addDirectory (disk : Disk) (location : Location) : Disk :=
  { disk with directories :=
      (List.range location.length).map (fun n => location.take (n + 1)) ++ disk.directories }

/-- Adds a file with all the directories above it. -/
def addFile (disk : Disk) (location : Location) (bytes : ByteArray) : Disk :=
  (disk.addDirectory location.dropLast).put location bytes

/-- A place that a path has led to, provided that it is a directory. -/
def entered (disk : Disk) (path : Path) (place : Location) : Except Failure (Disk × Location) :=
  if disk.isDirectoryAt place then .ok (disk, place) else .error (.system (.fileExists path.text))

/-- Makes the directories on the way along the first names of a path that are not there yet, and says where it
leads. -/
def makeWay (disk : Disk) (path : Path) : Nat → Except Failure (Disk × Location)
  | 0 => .ok (disk, disk.start path.isAbsolute)
  | n + 1 =>
    let way := { path with names := path.names.take (n + 1) }
    match disk.locate way with
    | .ok place => disk.entered way place
    | .error .missing => do
      let (made, place) ← disk.makeWay path n
      match made.walk place (way.names.drop n) with
      | .ok place => made.entered way place
      | .error .missing =>
        let place := place ++ way.names.drop n
        .ok ({ made with directories := place :: made.directories }, place)
      | .error trouble => .error (trouble.failure way.text)
    | .error trouble => .error (trouble.failure way.text)

/-- Makes every directory that a path passes through, the last one included. -/
def makeDirectories (disk : Disk) (path : Path) : Except Failure Disk :=
  (disk.makeWay path path.names.length).map (·.1)

/-- Makes a file under a path, with the directories that the path passes through. -/
def makeFile (disk : Disk) (path : Path) (bytes : ByteArray) : Except Failure Disk := do
  let made ← disk.makeDirectories { path with names := path.names.dropLast }
  made.writeBytes path bytes

/-- A disk that holds nothing but the way to its working directory. -/
def empty (here : Location) : Disk := { files := [], directories := [], here : Disk }.addDirectory here

/-- The files under the working directory that differ from those of an earlier disk, by their paths from there. -/
def changes (before after : Disk) : List (String × ByteArray) :=
  let changed := after.files.filterMap fun (place, bytes) =>
    if after.here.isPrefixOf place && !(before.file? place == some bytes) then
      some ("/".intercalate (place.drop after.here.length), bytes)
    else none
  changed.mergeSort fun x y => x.1 ≤ y.1

end Disk

end HackToolchain.Files
