/-! # Machine words

The machine works on 16-bit words.  A word is stored without a sign and read as two's complement wherever a sign
matters; an integer that is too wide is cut to its low sixteen bits.
-/
namespace HackToolchain.Machine

abbrev Word := BitVec 16

def Word.ofInt (n : Int) : Word := BitVec.ofInt 16 n

def Word.signed (w : Word) : Int := w.toInt

/-- The number of words in each of the two memories. -/
def memorySize : Nat := 32768

abbrev Memory := Vector Word memorySize

namespace Memory

def zero : Memory := Vector.replicate memorySize 0

/-- A program from address 0 on, and zeros after it. -/
def ofProgram (words : Array Int) : Memory := Vector.ofFn fun i => Word.ofInt (words.getD i 0)

def get? (memory : Memory) (address : Int) : Option Word :=
  if 0 ≤ address then memory[address.toNat]? else none

/-- The word at an address, a negative address being counted back from the end. -/
def fromEnd? (memory : Memory) (address : Int) : Option Word :=
  memory.get? (if address < 0 then address + memorySize else address)

/-- The non-zero words with their addresses, in ascending order. -/
def nonzero (memory : Memory) : List (Nat × Word) :=
  memory.toList.zipIdx.filterMap fun (word, address) => if word = 0 then none else some (address, word)

/-- The words from `first` up to and excluding `stop`.  A negative `first` is counted back from the end, and both
bounds are moved into the memory. -/
def slice (memory : Memory) (first : Int) (stop : Nat) : List Word :=
  let start := (if first < 0 then first + memorySize else first).toNat
  (memory.toList.take stop).drop start

end Memory

end HackToolchain.Machine
