import HackToolchain.Machine.Run
import HackToolchain.Proofs.Computation
import HackToolchain.Proofs.Histories
import HackToolchain.Proofs.MemoryWords
import HackToolchain.Proofs.Rendering
import HackToolchain.Proofs.Resolution

/-! # Executing code

A stretch of code that lies in the program memory is executed line by line.  Lines without a jump make up a function
on the registers and the data memory, which fails where the processor would; jumps are taken one at a time.
-/
namespace HackToolchain.Asm

def Line.size : Line → Nat
  | .comment _ | .label _ => 0
  | .load _ | .compute _ => 1

/-- The number that a printed load stands for: the assembler reads the operand without blanks and comments. -/
def Operand.value? (table : SymbolTable) (operand : Operand) : Option Nat :=
  loadValue? table (Text.kept operand.text.toList)

theorem Operand.value?_of_isToken {operand : Operand} (h : Text.IsToken operand.text.toList) (table : SymbolTable) :
    operand.value? table = loadValue? table operand.text.toList := by
  rw [value?, Text.kept_of_isToken h]

end HackToolchain.Asm

namespace HackToolchain.Machine

open Asm (Compute Comp Jump Line Operand SymbolTable)

/-- The part of the processor that code works on. -/
structure Core where
  a : Word
  d : Word
  ram : Memory

namespace Core

def out (core : Core) (comp : Comp) : Word := comp.value core.a core.d (core.ram.word core.a)

/-- Stores a value where an instruction wants it; memory is addressed by A as it was before. -/
def compute (core : Core) (instruction : Compute) : Core :=
  let out := core.out instruction.comp
  ⟨if instruction.dest.a then out else core.a,
   if instruction.dest.d then out else core.d,
   if instruction.dest.m then core.ram.put core.a out else core.ram⟩

def admits (core : Core) (instruction : Compute) : Prop :=
  (instruction.comp.usesMemory || instruction.dest.m) = true → core.a.IsAddress

instance (core : Core) (instruction : Compute) : Decidable (core.admits instruction) :=
  inferInstanceAs (Decidable (_ → _))

/-- Executes a line that cannot jump; `table` has the addresses of all symbols. -/
def line (table : SymbolTable) (core : Core) : Line → Option Core
  | .comment _ | .label _ => some core
  | .load operand => (operand.value? table).map fun value => { core with a := BitVec.ofNat 16 value }
  | .compute instruction =>
    if instruction.jump = none ∧ core.admits instruction then some (core.compute instruction) else none

def lines (table : SymbolTable) (core : Core) (code : List Line) : Option Core := code.foldlM (line table) core

end Core

namespace Processor

def core (cpu : Processor) : Core := ⟨cpu.a, cpu.d, cpu.ram⟩

/-- The processor is about to execute the instruction at `pc` of the program memory `rom`. -/
structure IsAt (rom : Memory) (pc : Nat) (core : Core) (cpu : Processor) : Prop where
  rom : cpu.rom = rom
  pc : cpu.pc.toNat = pc
  core : cpu.core = core

theorem steps_one {cpu : Processor} (h : cpu.obstacle? = none) : cpu.steps 1 = (cpu.advance, .ok ()) := by
  simp [steps, h]

end Processor

/-- The processor gets from one place to another without a fault. -/
def Goes (rom : Memory) (pc : Nat) (core : Core) (next : Nat) (reached : Core) : Prop :=
  ∀ cpu : Processor, cpu.IsAt rom pc core →
    ∃ n last, cpu.steps n = (last, .ok ()) ∧ Processor.IsAt rom next reached last

namespace Goes

variable {rom : Memory} {pc middle last : Nat} {core between reached : Core}

theorem refl (rom : Memory) (pc : Nat) (core : Core) : Goes rom pc core pc core :=
  fun cpu h => ⟨0,cpu,rfl,h⟩

theorem trans (hx : Goes rom pc core middle between) (hy : Goes rom middle between last reached) :
    Goes rom pc core last reached := by
  intro cpu h
  obtain ⟨m,next,hm,hnext⟩ := hx cpu h
  obtain ⟨n,final,hn,hfinal⟩ := hy next hnext
  exact ⟨m + n,final,(Processor.steps_add_of_ok hm n).trans hn,hfinal⟩

theorem of_advance {word : Word} (hr : rom[pc]? = some word)
    (ho : ∀ cpu : Processor, cpu.IsAt rom pc core → cpu.obstacle? = none)
    (hs : ∀ cpu : Processor, cpu.IsAt rom pc core → (cpu.execute word).IsAt rom last reached) :
    Goes rom pc core last reached := by
  intro cpu h
  have hf : cpu.fetch? = some word := by rw [Processor.fetch?, h.rom, h.pc, hr]
  refine ⟨1,_,Processor.steps_one (ho cpu h),?_⟩
  rw [Processor.advance, hf]
  exact hs cpu h

theorem toNat_next {word counter : Word} (hr : rom[pc]? = some word) (hc : counter.toNat = pc) :
    (counter + 1).toNat = pc + 1 := by
  have hp : pc < memorySize := (Vector.getElem?_eq_some_iff.mp hr).1
  unfold memorySize at hp
  bv_omega

theorem load {value : Nat} (hr : rom[pc]? = some (BitVec.ofNat 16 value)) (hv : value < memorySize)
    (core : Core) : Goes rom pc core (pc + 1) { core with a := BitVec.ofNat 16 value } := by
  have hl := isLoad_ofNat_of_lt hv
  apply of_advance hr
  · intro cpu h
    simp [Processor.obstacle?, Processor.fetch?, h.rom, h.pc, hr, hl]
  · intro cpu h
    obtain rfl := h.core
    simp only [Processor.execute, hl, ↓reduceIte]
    exact ⟨h.rom,toNat_next hr h.pc,rfl⟩

/-- A computing word stores its value and jumps to A if the value asks for it. -/
theorem compute {instruction : Compute} (hr : rom[pc]? = some (BitVec.ofNat 16 instruction.code))
    (hl : instruction.comp.isListed = true) (core : Core) (ha : core.admits instruction) :
    Goes rom pc core
      (if instruction.jump.elim false (Jump.isTaken (core.out instruction.comp)) then core.a.toNat else pc + 1)
      (core.compute instruction) := by
  have hd := Processor.decodes_code hl
  apply of_advance hr
  · intro cpu h
    obtain rfl := h.core
    have hin : ¬ ((instruction.comp.usesMemory || instruction.dest.m) = true ∧ memorySize ≤ cpu.a.toNat) :=
      fun hin => Nat.not_le_of_lt (ha hin.1) hin.2
    simpa [Processor.obstacle?, Processor.fetch?, h.rom, h.pc, hr, hd.isLoad, hd.readsMemory, hd.writesMemory] using hin
  · intro cpu h
    obtain rfl := h.core
    have hout : cpu.result (BitVec.ofNat 16 instruction.code) = cpu.core.out instruction.comp := by
      rw [Processor.result, hd.readsMemory]
      exact hd.alu _ _ _
    simp only [Processor.execute, hd.isLoad, Bool.false_eq_true, ↓reduceIte, hout, hd.writesA, hd.writesD,
      hd.writesMemory, hd.jumps]
    refine ⟨h.rom,?_,rfl⟩
    dsimp only
    split
    · rfl
    · exact toNat_next hr h.pc

end Goes

def Standard (table : SymbolTable) : Prop := ∀ row ∈ SymbolTable.predefinedEntries, table.get? row.1 = some row.2

def codeSize (code : List Line) : Nat := (code.map Line.size).sum

/-- A line lies at an address: an instruction has its word there, and a label is a symbol for that address. -/
def Lies (rom : Memory) (table : SymbolTable) (pc : Nat) : Line → Prop
  | .comment _ => True
  | .label name => Asm.isSymbol name.toList = true ∧ table.get? name = some pc
  | .load operand => ∃ value, operand.value? table = some value ∧ value < memorySize ∧
      rom[pc]? = some (BitVec.ofNat 16 value)
  | .compute instruction => instruction.comp.isListed = true ∧ rom[pc]? = some (BitVec.ofNat 16 instruction.code)

/-- Code lies in the program memory from an address on. -/
def Holds (rom : Memory) (table : SymbolTable) : Nat → List Line → Prop
  | _, [] => True
  | pc, line :: rest => Lies rom table pc line ∧ Holds rom table (pc + line.size) rest

section Holds

variable {rom : Memory} {table : SymbolTable} {pc : Nat}

theorem codeSize_append (xs ys : List Line) : codeSize (xs ++ ys) = codeSize xs + codeSize ys := by
  simp [codeSize]

theorem holds_append {xs ys : List Line} :
    Holds rom table pc (xs ++ ys) ↔ Holds rom table pc xs ∧ Holds rom table (pc + codeSize xs) ys := by
  induction xs generalizing pc with
  | nil => simp [Holds, codeSize]
  | cons line rest ih => simp [Holds, ih, codeSize, Nat.add_assoc, and_assoc]

theorem goes_line {line : Line} (hl : Lies rom table pc line) {core reached : Core}
    (h : core.line table line = some reached) : Goes rom pc core (pc + line.size) reached := by
  cases line with
  | comment text =>
    cases h
    exact Goes.refl rom pc core
  | label name =>
    cases h
    exact Goes.refl rom pc core
  | load operand =>
    obtain ⟨value,hv,hb,hr⟩ := hl
    simp only [Core.line, hv, Option.map_some, Option.some.injEq] at h
    subst h
    exact Goes.load hr hb core
  | compute instruction =>
    obtain ⟨hlisted,hr⟩ := hl
    rw [Core.line] at h
    split at h
    next ha =>
      cases h
      have hg := Goes.compute hr hlisted core ha.2
      rwa [ha.1] at hg
    next => cases h

/-- Code without jumps is executed to its end. -/
theorem goes_lines {code : List Line} (hc : Holds rom table pc code) {core reached : Core}
    (h : core.lines table code = some reached) : Goes rom pc core (pc + codeSize code) reached := by
  induction code generalizing pc core with
  | nil =>
    cases h
    exact Goes.refl rom pc _
  | cons line rest ih =>
    obtain ⟨next,hn,hr⟩ := Option.bind_eq_some_iff.mp h
    have hg := (goes_line hc.1 hn).trans (ih hc.2 hr)
    simpa [codeSize, Nat.add_assoc] using hg

end Holds

end HackToolchain.Machine
