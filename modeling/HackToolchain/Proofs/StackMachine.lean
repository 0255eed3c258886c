import HackToolchain.Proofs.MemoryWords
import HackToolchain.Vm.Instruction

/-! # The stack machine

What the instructions of the stack machine mean.  Its state is a position in the code and a data memory; an
instruction has a meaning where all that it reads and writes lies inside the memory and all that it jumps to is in the
code.  Words count modulo 2^16, and reads and writes happen in the order in which they are told here, so that the
meaning stays exact where the stack runs into the registers.
-/
namespace HackToolchain.Vm

open Machine (Word Memory)

/-- The words of memory with a fixed use: the stack pointer, the bases of four segments and two scratch words. -/
inductive Place where
  | sp | lcl | arg | this | that | frame | back
  deriving DecidableEq, Repr

def Place.address : Place → Word
  | .sp => 0
  | .lcl => 1
  | .arg => 2
  | .this => 3
  | .that => 4
  | .frame => 13
  | .back => 14

@[simp] theorem Place.isAddress (place : Place) : place.address.IsAddress := by
  cases place <;> decide

@[simp] theorem Place.address_inj {p q : Place} : p.address = q.address ↔ p = q := by
  constructor
  · cases p <;> cases q <;> decide
  · rintro rfl
    rfl

abbrev wordAt (ram : Memory) (place : Place) : Word := ram.word place.address

abbrev setAt (ram : Memory) (place : Place) (value : Word) : Memory := ram.put place.address value

theorem word_setAt (ram : Memory) (place : Place) (value address : Word) :
    (setAt ram place value).word address = if address = place.address then value else ram.word address :=
  Memory.word_put place.isAddress ram value address

theorem wordAt_setAt (ram : Memory) (place other : Place) (value : Word) :
    wordAt (setAt ram place value) other = if other = place then value else wordAt ram other := by
  simp [word_setAt]

section Stack

def push (value : Word) (ram : Memory) : Option Memory := do
  let ram ← ram.write? (wordAt ram .sp) value
  return setAt ram .sp (wordAt ram .sp + 1#16)

def pop (ram : Memory) : Option (Word × Memory) := do
  let ram := setAt ram .sp (wordAt ram .sp - 1#16)
  let value ← ram.read? (wordAt ram .sp)
  return (value, ram)

theorem pop_eq_some {ram popped : Memory} {value : Word} : pop ram = some (value, popped) ↔
    popped = setAt ram .sp (wordAt ram .sp - 1#16) ∧ (wordAt ram .sp - 1#16).IsAddress ∧
      value = popped.word (wordAt ram .sp - 1#16) := by
  have hs : wordAt (setAt ram .sp (wordAt ram .sp - 1#16)) .sp = wordAt ram .sp - 1#16 := by
    rw [wordAt_setAt, if_pos rfl]
  simp only [pop, Option.bind_eq_bind, Option.bind_eq_some_iff, Option.pure_def, Option.some.injEq, Prod.mk.injEq,
    Memory.read?_eq_some]
  constructor
  · rintro ⟨_,⟨ha,rfl⟩,rfl,rfl⟩
    rw [hs] at ha
    exact ⟨rfl,ha,by rw [hs]⟩
  · rintro ⟨rfl,ha,rfl⟩
    exact ⟨_,⟨by rwa [hs],rfl⟩,by rw [hs],rfl⟩

def changeTop (f : Word → Word) (ram : Memory) : Option Memory := do
  let top := wordAt ram .sp - 1#16
  let value ← ram.read? top
  ram.write? top (f value)

theorem changeTop_eq_some {f : Word → Word} {ram changed : Memory} : changeTop f ram = some changed ↔
    (wordAt ram .sp - 1#16).IsAddress ∧
      changed = ram.put (wordAt ram .sp - 1#16) (f (ram.word (wordAt ram .sp - 1#16))) := by
  simp only [changeTop, Option.bind_eq_bind, Option.bind_eq_some_iff, Memory.read?_eq_some, Memory.write?_eq_some]
  constructor
  · rintro ⟨_,⟨ha,rfl⟩,_,rfl⟩
    exact ⟨ha,rfl⟩
  · rintro ⟨ha,rfl⟩
    exact ⟨_,⟨ha,rfl⟩,ha,rfl⟩

def pushZeros : Nat → Memory → Option Memory
  | 0, ram => some ram
  | n + 1, ram => push 0#16 ram >>= pushZeros n

end Stack

section Operators

/-- True is the word of ones. -/
def truth (p : Prop) [Decidable p] : Word := if p then 0xFFFF else 0

/-- What an operator makes of its operands, of which there are one or two.  A comparison looks at the sign of the
difference, which is taken modulo 2^16 too. -/
def Operator.meaning : Operator → (Word → Word) ⊕ (Word → Word → Word)
  | .neg => .inl fun x => -x
  | .not => .inl fun x => ~~~x
  | .add => .inr fun x y => x + y
  | .sub => .inr fun x y => x - y
  | .and => .inr fun x y => x &&& y
  | .or => .inr fun x y => x ||| y
  | .eq => .inr fun x y => truth ((x - y).toInt = 0)
  | .gt => .inr fun x y => truth (0 < (x - y).toInt)
  | .lt => .inr fun x y => truth ((x - y).toInt < 0)

def operate (operator : Operator) (ram : Memory) : Option Memory :=
  match operator.meaning with
  | .inl f => changeTop f ram
  | .inr f => do
    let (y, ram) ← pop ram
    changeTop (fun x => f x y) ram

end Operators

section Segments

def Segment.register? : Segment → Option Place
  | .argument => some .arg
  | .local => some .lcl
  | .this => some .this
  | .that => some .that
  | .static | .pointer | .temp | .constant => none

def staticName (unit : String) (index : Nat) : String := s!"{unit}.{index}"

/-- The addresses of the static entries of all units. -/
abbrev Statics := String → Nat → Option Nat

/-- Where an entry of a segment lies. -/
def entry? (statics : Statics) (unit : String) (segment : Segment) (index : Nat) (ram : Memory) : Option Word :=
  match segment with
  | .argument | .local | .this | .that =>
    segment.register?.map fun register => wordAt ram register + BitVec.ofNat 16 index
  | .static => (statics unit index).map (BitVec.ofNat 16)
  | .pointer => some (Place.this.address + BitVec.ofNat 16 index)
  | .temp => some (5 + BitVec.ofNat 16 index)
  | .constant => none

def pushEntry (statics : Statics) (unit : String) (segment : Segment) (index : Nat) (ram : Memory) :
    Option Memory :=
  if segment = .constant then push (BitVec.ofNat 16 index) ram
  else do
    let address ← entry? statics unit segment index ram
    let value ← ram.read? address
    push value ram

/-- The address of an entry behind a register is kept in memory while the stack is read. -/
def popEntry (statics : Statics) (unit : String) (segment : Segment) (index : Nat) (ram : Memory) :
    Option Memory := do
  let address ← entry? statics unit segment index ram
  let ram := if segment.register?.isSome then setAt ram .frame address else ram
  let (value, ram) ← pop ram
  ram.write? address value

end Segments

section Calls

/-- The registers that a call saves, in the order in which it does. -/
def savedRegisters : List Place := [.lcl, .arg, .this, .that]

def save (ram : Memory) (register : Place) : Option Memory := push (wordAt ram register) ram

/-- What a call does before it jumps. -/
def enter (back : Word) (arguments : Int) (ram : Memory) : Option Memory := do
  let ram ← push back ram
  let ram ← savedRegisters.foldlM save ram
  let ram := setAt ram .arg (wordAt ram .sp - BitVec.ofInt 16 (arguments + 5))
  return setAt ram .lcl (wordAt ram .sp)

/-- Takes a register back from the next word below the frame. -/
def restore (ram : Memory) (register : Place) : Option Memory := do
  let ram := setAt ram .frame (wordAt ram .frame - 1#16)
  let value ← ram.read? (wordAt ram .frame)
  return setAt ram register value

theorem restore_eq_some {ram changed : Memory} {register : Place} : restore ram register = some changed ↔
    (wordAt ram .frame - 1#16).IsAddress ∧ changed = setAt (setAt ram .frame (wordAt ram .frame - 1#16)) register
      ((setAt ram .frame (wordAt ram .frame - 1#16)).word (wordAt ram .frame - 1#16)) := by
  have hf : wordAt (setAt ram .frame (wordAt ram .frame - 1#16)) .frame = wordAt ram .frame - 1#16 := by
    rw [wordAt_setAt, if_pos rfl]
  simp only [restore, hf, Option.bind_eq_bind, Option.bind_eq_some_iff, Memory.read?_eq_some, Option.pure_def,
    Option.some.injEq]
  constructor
  · rintro ⟨_,⟨ha,rfl⟩,rfl⟩
    exact ⟨ha,rfl⟩
  · rintro ⟨ha,rfl⟩
    exact ⟨_,⟨ha,rfl⟩,rfl⟩

/-- What a return does before it jumps, and where it jumps to. -/
def leave (ram : Memory) : Option (Word × Memory) := do
  let ram := setAt ram .frame (wordAt ram .lcl)
  let back ← ram.read? (wordAt ram .frame - 5#16)
  let ram := setAt ram .back back
  let (value, ram) ← pop ram
  let ram ← ram.write? (wordAt ram .arg) value
  let ram := setAt ram .sp (wordAt ram .arg + 1#16)
  let ram ← savedRegisters.reverse.foldlM restore ram
  return (wordAt ram .back, ram)

/-- Memory once a return has put its frame and its return address aside. -/
def setAside (ram : Memory) : Memory :=
  let ram := setAt ram .frame (wordAt ram .lcl)
  setAt ram .back (ram.word (wordAt ram .frame - 5#16))

/-- Memory once the returned word lies where the arguments began. -/
def handOver (ram : Memory) (value : Word) : Memory :=
  let ram := ram.put (wordAt ram .arg) value
  setAt ram .sp (wordAt ram .arg + 1#16)

theorem leave_eq_some {ram changed : Memory} {back : Word} : leave ram = some (back, changed) ↔
    (wordAt ram .lcl - 5#16).IsAddress ∧ ∃ value popped, pop (setAside ram) = some (value, popped) ∧
      (wordAt popped .arg).IsAddress ∧
      savedRegisters.reverse.foldlM restore (handOver popped value) = some changed ∧ wordAt changed .back = back := by
  have hf : wordAt (setAt ram .frame (wordAt ram .lcl)) .frame = wordAt ram .lcl := by
    rw [wordAt_setAt, if_pos rfl]
  simp only [leave, Option.bind_eq_bind, Option.bind_eq_some_iff, Option.pure_def, Option.some.injEq, Prod.mk.injEq,
    Memory.read?_eq_some, Memory.write?_eq_some, hf]
  constructor
  · rintro ⟨_,⟨ha,rfl⟩,⟨value,popped⟩,hp,_,⟨harg,rfl⟩,_,hr,hb,rfl⟩
    refine ⟨ha,value,popped,?_,harg,hr,hb⟩
    rw [setAside, hf]
    exact hp
  · rintro ⟨ha,value,popped,hp,harg,hr,hb⟩
    rw [setAside, hf] at hp
    exact ⟨_,⟨ha,rfl⟩,(value,popped),hp,_,⟨harg,rfl⟩,_,hr,hb,rfl⟩

end Calls

/-- Code of the stack machine as it lies in a machine: the instructions of all units with the names of their units, the
address of each position and the addresses of the static entries. -/
structure Image where
  code : List (String × Instruction)
  address : Nat → Nat
  statics : Statics

structure State where
  position : Nat
  ram : Memory

/-- The name that an instruction gives to its position. -/
def Instruction.defines? : Instruction → Option String
  | .label name | .function name _ => some name
  | _ => none

namespace Image

def target? (image : Image) (name : String) : Option Nat :=
  image.code.findIdx? fun entry => entry.2.defines? == some name

/-- The first position at an address; the end of the code is one too. -/
def position? (image : Image) (address : Word) : Option Nat :=
  (List.range (image.code.length + 1)).find? fun position => image.address position == address.toNat

/-- The meaning of an instruction of a unit. -/
def perform (image : Image) (state : State) (unit : String) : Instruction → Option State
  | .operate operator => return ⟨state.position + 1, ← operate operator state.ram⟩
  | .push segment index => return ⟨state.position + 1, ← pushEntry image.statics unit segment index state.ram⟩
  | .pop segment index => return ⟨state.position + 1, ← popEntry image.statics unit segment index state.ram⟩
  | .label _ => return ⟨state.position + 1, state.ram⟩
  | .goto name => return ⟨← image.target? name, state.ram⟩
  | .ifGoto name => do
    let (value, ram) ← pop state.ram
    if value = 0 then return ⟨state.position + 1, ram⟩ else return ⟨← image.target? name, ram⟩
  | .function _ locals => return ⟨state.position + 1, ← pushZeros locals.toNat state.ram⟩
  | .call name arguments => do
    let back := BitVec.ofNat 16 (image.address (state.position + 1))
    return ⟨← image.target? name, ← enter back arguments state.ram⟩
  | .ret => do
    let (back, ram) ← leave state.ram
    return ⟨← image.position? back, ram⟩

def step (image : Image) (state : State) : Option State := do
  let (unit, instruction) ← image.code[state.position]?
  image.perform state unit instruction

def run (image : Image) : Nat → State → Option State
  | 0, state => some state
  | n + 1, state => image.step state >>= image.run n

end Image

end HackToolchain.Vm
