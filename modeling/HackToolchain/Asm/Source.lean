import HackToolchain.Failure
import HackToolchain.Text.Lines

/-! # Assembly source

Source text is cut into lines; comments and all blanks are dropped, and lines that say nothing are left out.
-/
namespace HackToolchain.Asm

/-- A line that says something, with every blank removed. -/
structure SourceLine where
  text : List Char
  position : Position
  /-- The whole line up to its last character that is not blank. -/
  raw : String
  deriving DecidableEq, Repr

namespace SourceLine

def isLabel (line : SourceLine) : Bool := line.text.head? == some '('

def isLoad (line : SourceLine) : Bool := line.text.head? == some '@'

def ofLine? (file : String) (number : Nat) (chars : List Char) : Option SourceLine :=
  let code := Text.beforeComment chars
  let text := code.filter fun c => !Text.isBlank c
  if text.isEmpty then none
  else
    let column := (code.takeWhile Text.isBlank).length + 1
    some ⟨text, ⟨file, number, column⟩, String.ofList (Text.trimRight chars)⟩

def fail (line : SourceLine) (fault : AsmFault) : Failure :=
  .asm ⟨.malformed fault, some line.position, some line.raw⟩

end SourceLine

def sourceLines (source file : String) : List SourceLine :=
  (Text.lines source).zipIdx.filterMap fun (chars, i) => SourceLine.ofLine? file (i + 1) chars

end HackToolchain.Asm
