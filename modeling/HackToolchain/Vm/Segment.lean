/-! # Memory segments

The eight segments that push and pop address.  Four of them lie behind a base register, temp and pointer lie at
fixed addresses, static variables are named after their unit, and constants are no storage at all.
-/
namespace HackToolchain.Vm

inductive Segment where
  | argument | «local» | static | this | that | pointer | temp | constant
  deriving DecidableEq, Repr

namespace Segment

def all : List Segment := [.argument, .local, .static, .this, .that, .pointer, .temp, .constant]

def keyword : Segment → String
  | .argument => "argument"
  | .local => "local"
  | .static => "static"
  | .this => "this"
  | .that => "that"
  | .pointer => "pointer"
  | .temp => "temp"
  | .constant => "constant"

def ofKeyword? (word : String) : Option Segment := all.find? (·.keyword == word)

/-- The register that holds the address of entry 0. -/
def base? : Segment → Option String
  | .argument => some "ARG"
  | .local => some "LCL"
  | .this => some "THIS"
  | .that => some "THAT"
  | .static | .pointer | .temp | .constant => none

/-- The last entry of a bounded segment; entries count from 0. -/
def last? : Segment → Option Nat
  | .constant => some 32767
  | .pointer => some 1
  | .temp => some 7
  | .argument | .local | .static | .this | .that => none

/-- An index names an entry of the segment. -/
def admits (segment : Segment) (index : Int) : Bool :=
  0 ≤ index && (segment.last?.all fun last => index ≤ last)

/-- The RAM address of temp 0. -/
def tempStart : Nat := 5

end Segment

end HackToolchain.Vm
