/-! # How long things may get

Lengths and offsets are signed 64-bit numbers.  A text within that range may still be more than memory holds, and is
refused without being made.
-/
namespace HackToolchain.Text

/-- The largest length or offset. -/
def largestExtent : Int := 9223372036854775807

/-- The number is a length or an offset, counted from either end. -/
def isExtent (n : Int) : Bool := -largestExtent - 1 ≤ n && n ≤ largestExtent

/-- The most items that fit into memory. -/
def memoryExtent : Int := 4294967296

/-- Why a sequence cannot be made. -/
inductive ExtentFault where
  | notAnExtent
  | outOfMemory
  deriving DecidableEq, Repr

def ExtentFault.message : ExtentFault → String
  | .notAnExtent => "cannot fit 'int' into an index-sized integer"
  | .outOfMemory => ""

/-- What keeps a sequence of some length from being made; a negative length stands for the empty one. -/
def extentFault? (length : Int) : Option ExtentFault :=
  if !isExtent length then some .notAnExtent
  else if memoryExtent < length then some .outOfMemory
  else none

end HackToolchain.Text
