/-! # Paths

A path is written as names with slashes between them.  Empty names and single dots say nothing and are dropped, and
the path without any name is the single dot.  A file name has a suffix from its last dot on, unless that dot is its
first or its last character.
-/
namespace HackToolchain.Files

/-- The texts between the slashes of a text. -/
def components : List Char → List (List Char)
  | [] => [[]]
  | c :: rest =>
    match components rest with
    | [] => [[c]]
    | part :: parts => if c = '/' then [] :: part :: parts else (c :: part) :: parts

structure Path where
  isAbsolute : Bool
  names : List String
  deriving DecidableEq, Repr

/-- The last dot divides a name, unless it is the first or last character of it. -/
def divide (name : String) : String × String :=
  let chars := name.toList
  let suffix := (chars.reverse.takeWhile (· != '.')).reverse
  let stem := chars.take (chars.length - suffix.length - 1)
  if suffix.isEmpty || stem.isEmpty || suffix.length = chars.length then (name, "")
  else (String.ofList stem, String.ofList ('.' :: suffix))

namespace Path

def ofText (text : String) : Path :=
  ⟨text.startsWith "/",
   ((components text.toList).map String.ofList).filter fun name => !name.isEmpty && name != "."⟩

def text (path : Path) : String :=
  if path.isAbsolute then "/" ++ "/".intercalate path.names
  else if path.names.isEmpty then "."
  else "/".intercalate path.names

/-- The last name, which is empty for the root and for the single dot. -/
def name (path : Path) : String := path.names.getLast?.getD ""

def stem (path : Path) : String := (divide path.name).1

def suffix (path : Path) : String := (divide path.name).2

def child (path : Path) (name : String) : Path := { path with names := path.names ++ [name] }

/-- The path with another suffix, or with one if it has none. -/
def withSuffix (path : Path) (suffix : String) : Path :=
  { path with names := path.names.dropLast ++ [path.stem ++ suffix] }

end Path

end HackToolchain.Files
