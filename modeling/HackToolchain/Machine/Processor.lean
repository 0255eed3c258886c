import HackToolchain.Machine.Alu
import HackToolchain.Text.Extent

/-! # The processor

Two registers, a program counter, a data memory and a program memory.  A word with its top bit clear loads itself
into A; any other word feeds D and either A or the memory word at A to the arithmetic-logic unit, stores the result
and may jump to A.  A step either succeeds or leaves the machine as it was.
-/
namespace HackToolchain.Machine

/-- Why the machine refused a request. -/
inductive Fault where
  | addressOutOfRange (address : Int) (pc : Nat)
  | programTooLong (length : Nat)
  | outOfCycles (budget pc : Int)
  | noInstruction
  | addressTooWide
  | extent (fault : Text.ExtentFault)
  | told (message : String)
  deriving DecidableEq, Repr

def Fault.message : Fault → String
  | .addressOutOfRange address pc => s!"RAM address {address} out of range (PC={pc})"
  | .programTooLong length => s!"program of {length} words does not fit in {memorySize}-word ROM"
  | .outOfCycles budget pc => s!"execution limit of {budget} cycles reached at PC={pc}"
  | .noInstruction => "list index out of range"
  | .addressTooWide => Text.ExtentFault.notAnExtent.message
  | .extent fault => fault.message
  | .told message => message

structure Processor where
  a : Word
  d : Word
  pc : Word
  /-- Instructions completed since the last load or reset. -/
  cycles : Nat
  ram : Memory
  rom : Memory
  /-- The length of the loaded program. -/
  size : Nat

namespace Processor

def new : Processor := ⟨0, 0, 0, 0, Memory.zero, Memory.zero, 0⟩

/-- Clears the registers, and the data memory if asked to. -/
def reset (cpu : Processor) (clearsMemory : Bool) : Processor :=
  { cpu with a := 0, d := 0, pc := 0, cycles := 0, ram := if clearsMemory then Memory.zero else cpu.ram }

def load (cpu : Processor) (program : Array Int) : Except Fault Processor :=
  if memorySize < program.size then .error (.programTooLong program.size)
  else .ok ({ cpu with rom := Memory.ofProgram program, size := program.size }.reset false)

/-- Loads a program of one word over and over. -/
def fill (cpu : Processor) (word count : Int) : Except Fault Processor :=
  match Text.extentFault? count with
  | some fault => .error (.extent fault)
  | none =>
    if memorySize < count then .error (.programTooLong count.toNat)
    else cpu.load (Array.replicate count.toNat word)

/-- The word at an address of the program memory, a negative address being counted back from the end. -/
def instructionAt (cpu : Processor) (address : Int) : Except Fault Word :=
  if !Text.isExtent address then .error .addressTooWide
  else match cpu.rom.fromEnd? address with
    | some word => .ok word
    | none => .error .noInstruction

def read (cpu : Processor) (address : Int) : Except Fault Word :=
  match cpu.ram.get? address with
  | some word => .ok word
  | none => .error (.addressOutOfRange address cpu.pc.toNat)

def write (cpu : Processor) (address : Int) (value : Word) : Except Fault Processor :=
  if 0 ≤ address ∧ address < memorySize then
    .ok { cpu with ram := cpu.ram.setIfInBounds address.toNat value }
  else .error (.addressOutOfRange address cpu.pc.toNat)

/-- A word that was written is read back, and all other addresses answer as before. -/
theorem read_of_write {cpu written : Processor} {address : Int} {value : Word}
    (h : cpu.write address value = .ok written) (other : Int) :
    written.read other = if other = address then .ok value else cpu.read other := by
  unfold write at h
  split at h
  next bounds =>
    cases h
    simp only [read, Memory.get?]
    grind
  next => cases h

/-- The signed words from `base` up to the stack pointer. -/
def stack (cpu : Processor) (base : Int) : List Int :=
  (cpu.ram.slice base (cpu.ram.get ⟨0, by decide⟩).toNat).map Word.signed

/-- The instruction at the program counter. -/
def fetch? (cpu : Processor) : Option Word := cpu.rom[cpu.pc.toNat]?

/-- The word loads A. -/
def isLoad (word : Word) : Bool := !word.msb

/-- The second input of the unit is the memory word at A and not A itself. -/
def readsMemory (word : Word) : Bool := word.getLsbD 12

def writesA (word : Word) : Bool := word.getLsbD 5

def writesD (word : Word) : Bool := word.getLsbD 4

def writesMemory (word : Word) : Bool := word.getLsbD 3

/-- The three low bits of a word choose the signs of the result that jump: negative, zero, positive. -/
def jumps (word out : Word) : Bool :=
  (word.getLsbD 2 && out.msb) || (word.getLsbD 1 && out == 0) || (word.getLsbD 0 && !out.msb && out != 0)

/-- The word computes nothing that is kept and always jumps. -/
def isBareJump (word : Word) : Bool :=
  !isLoad word && word.getLsbD 2 && word.getLsbD 1 && word.getLsbD 0 &&
    !writesA word && !writesD word && !writesMemory word

/-- A load of `address` at `address`, with a bare jump after it that is still inside the program. -/
def loopsAt (cpu : Processor) (address : Nat) : Bool :=
  address + 1 < cpu.size &&
    (cpu.rom[address]?.any fun word => word.toNat == address) && cpu.rom[address + 1]?.any isBareJump

/-- The machine has left its program or goes round in a self-loop. -/
def halted (cpu : Processor) : Bool :=
  let pc := cpu.pc.toNat
  if cpu.size ≤ pc then true
  else match cpu.fetch? with
    | none => true
    | some word =>
      if isLoad word then cpu.loopsAt pc
      else 0 < pc && cpu.loopsAt (pc - 1) && cpu.a.toNat == pc - 1

/-- What keeps the next instruction from being executed. -/
def obstacle? (cpu : Processor) : Option Fault :=
  match cpu.fetch? with
  | none => some .noInstruction
  | some word =>
    if !isLoad word && (readsMemory word || writesMemory word) && memorySize ≤ cpu.a.toNat then
      some (.addressOutOfRange cpu.a.toNat cpu.pc.toNat)
    else none

/-- The memory word at A. -/
def memoryAtA (cpu : Processor) : Word := (cpu.ram[cpu.a.toNat]?).getD 0

/-- What the unit computes for a word. -/
def result (cpu : Processor) (word : Word) : Word :=
  alu (word.extractLsb' 6 6) cpu.d (if readsMemory word then cpu.memoryAtA else cpu.a)

/-- Executes a word.  Memory is addressed, and a jump made, by A as it was before. -/
def execute (cpu : Processor) (word : Word) : Processor :=
  if isLoad word then { cpu with a := word, pc := cpu.pc + 1, cycles := cpu.cycles + 1 }
  else
    let out := cpu.result word
    { cpu with
      a := if writesA word then out else cpu.a
      d := if writesD word then out else cpu.d
      pc := if jumps word out then cpu.a else cpu.pc + 1
      cycles := cpu.cycles + 1
      ram := if writesMemory word then cpu.ram.setIfInBounds cpu.a.toNat out else cpu.ram }

/-- The machine after its next instruction, if there is one. -/
def advance (cpu : Processor) : Processor :=
  match cpu.fetch? with
  | none => cpu
  | some word => cpu.execute word

def step (cpu : Processor) : Except Fault Processor :=
  match cpu.obstacle? with
  | some fault => .error fault
  | none => .ok cpu.advance

end Processor

end HackToolchain.Machine
