import HackToolchain.Proofs.Loading
import HackToolchain.Proofs.Runs

/-! # Runs on sparse memories

Nearly all words of a memory are blank.  A sparse machine lists the words of its program and the words that have been
written to its data memory, so that a run can be evaluated.  Step by step it does what the processor does.
-/
namespace HackToolchain.Machine

open Processor (isBareJump isLoad jumps readsMemory writesA writesD writesMemory)

/-- A machine whose data memory lists the words that have been written, the latest first. -/
structure Sparse where
  a : Word
  d : Word
  pc : Word
  ram : List (Word × Word)
  deriving DecidableEq, Repr

/-- How a run of a sparse machine ends. -/
structure SparseRun where
  machine : Sparse
  executed : Nat
  fault : Option Fault
  deriving DecidableEq, Repr

namespace Sparse

/-- The instruction at an address of a program. -/
def instruction? (program : List Nat) (address : Nat) : Option Word := program[address]?.map (BitVec.ofNat 16)

theorem instruction?_of_length_le {program : List Nat} {address : Nat} (h : program.length ≤ address) :
    instruction? program address = none := by
  rw [instruction?, List.getElem?_eq_none h, Option.map_none]

def loopsAt (program : List Nat) (address : Nat) : Bool :=
  address + 1 < program.length && ((instruction? program address).any fun word => word.toNat == address) &&
    (instruction? program (address + 1)).any isBareJump

/-- The word at an address of a memory. -/
def contents (ram : List (Word × Word)) (address : Word) : Word := (ram.lookup address).getD 0

/-- The word written last is found first. -/
theorem word_put {memory : Memory} {ram : List (Word × Word)}
    (h : ∀ address, memory.word address = contents ram address) {target : Word} (ht : target.IsAddress)
    (value address : Word) : (memory.put target value).word address = contents ((target, value) :: ram) address := by
  rw [Memory.word_put ht, contents, List.lookup_cons]
  by_cases he : address = target
  · rw [if_pos he, beq_iff_eq.mpr he]
    rfl
  · rw [if_neg he, beq_eq_false_iff_ne.mpr he]
    exact h address

def execute (sparse : Sparse) (instruction : Word) : Sparse :=
  if isLoad instruction then { sparse with a := instruction, pc := sparse.pc + 1 }
  else
    let out := alu (instruction.extractLsb' 6 6) sparse.d
      (if readsMemory instruction then contents sparse.ram sparse.a else sparse.a)
    { a := if writesA instruction then out else sparse.a
      d := if writesD instruction then out else sparse.d
      pc := if jumps instruction out then sparse.a else sparse.pc + 1
      ram := if writesMemory instruction then (sparse.a, out) :: sparse.ram else sparse.ram }

def halted (program : List Nat) (sparse : Sparse) : Bool :=
  match instruction? program sparse.pc.toNat with
  | none => true
  | some instruction =>
    let pc := sparse.pc.toNat
    if isLoad instruction then loopsAt program pc
    else 0 < pc && loopsAt program (pc - 1) && sparse.a.toNat == pc - 1

def obstacle? (program : List Nat) (sparse : Sparse) : Option Fault :=
  match instruction? program sparse.pc.toNat with
  | none => some .noInstruction
  | some instruction =>
    if !isLoad instruction && (readsMemory instruction || writesMemory instruction) &&
        memorySize ≤ sparse.a.toNat then
      some (.addressOutOfRange sparse.a.toNat sparse.pc.toNat)
    else none

def advance (program : List Nat) (sparse : Sparse) : Sparse :=
  match instruction? program sparse.pc.toNat with
  | none => sparse
  | some instruction => sparse.execute instruction

/-- Carries a run on for at most `fuel` more steps of a budget of `budget`. -/
def runFrom (program : List Nat) (budget : Int) (fuel executed : Nat) (sparse : Sparse) : SparseRun :=
  if sparse.halted program then ⟨sparse, executed, none⟩
  else
    match fuel with
    | 0 => ⟨sparse, executed, some (.outOfCycles budget sparse.pc.toNat)⟩
    | fuel + 1 =>
      match sparse.obstacle? program with
      | some fault => ⟨sparse, executed, some fault⟩
      | none => runFrom program budget fuel (executed + 1) (sparse.advance program)

/-- The processor is the sparse machine with all its words. -/
structure Draws (program : List Nat) (sparse : Sparse) (cpu : Processor) : Prop where
  a : cpu.a = sparse.a
  d : cpu.d = sparse.d
  pc : cpu.pc = sparse.pc
  ram : ∀ address, cpu.ram.word address = contents sparse.ram address
  rom : ∀ i < program.length, cpu.rom[i]? = instruction? program i
  size : cpu.size = program.length

/-- A run of the processor is the run of a sparse machine with all its words. -/
structure DrawsRun (program : List Nat) (run : SparseRun) (whole : Run) : Prop where
  executed : whole.executed = run.executed
  fault : whole.fault = run.fault
  machine : Draws program run.machine whole.cpu

namespace Draws

variable {program : List Nat} {sparse : Sparse} {cpu : Processor}

theorem loopsAt (h : Draws program sparse cpu) (address : Nat) :
    cpu.loopsAt address = Sparse.loopsAt program address := by
  unfold Processor.loopsAt Sparse.loopsAt
  rw [h.size]
  by_cases hlt : address + 1 < program.length
  · rw [h.rom address (by omega), h.rom (address + 1) hlt]
  · rw [decide_eq_false hlt, Bool.false_and, Bool.false_and, Bool.false_and, Bool.false_and]

/-- Inside of the program both have the same instruction before them. -/
theorem fetch? (h : Draws program sparse cpu) (hlt : sparse.pc.toNat < program.length) :
    cpu.fetch? = instruction? program sparse.pc.toNat := by
  rw [Processor.fetch?, h.pc, h.rom _ hlt]

theorem halted (h : Draws program sparse cpu) : cpu.halted = sparse.halted program := by
  unfold Processor.halted Sparse.halted
  by_cases hlt : sparse.pc.toNat < program.length
  · rw [if_neg (by rw [h.size, h.pc]; omega), h.fetch? hlt]
    cases instruction? program sparse.pc.toNat with
    | none => rfl
    | some instruction => simp only [h.loopsAt, h.pc, h.a]
  · rw [if_pos (by rw [h.size, h.pc]; omega), instruction?_of_length_le (Nat.le_of_not_lt hlt)]

/-- A machine that has not halted is inside of its program. -/
theorem lt_of_halted_eq_false (hh : sparse.halted program = false) : sparse.pc.toNat < program.length := by
  by_contra hge
  rw [Sparse.halted, instruction?_of_length_le (Nat.le_of_not_lt hge)] at hh
  cases hh

theorem obstacle? (h : Draws program sparse cpu) (hlt : sparse.pc.toNat < program.length) :
    cpu.obstacle? = sparse.obstacle? program := by
  rw [Processor.obstacle?, Sparse.obstacle?, h.fetch? hlt]
  cases instruction? program sparse.pc.toNat with
  | none => rfl
  | some instruction => simp only [h.a, h.pc]

/-- An instruction that can be executed does the same to both. -/
theorem execute (h : Draws program sparse cpu) {instruction : Word}
    (ha : isLoad instruction = false → writesMemory instruction = true → sparse.a.IsAddress) :
    Draws program (sparse.execute instruction) (cpu.execute instruction) := by
  cases hl : isLoad instruction with
  | true =>
    simp only [Processor.execute, Sparse.execute, hl, if_true]
    exact ⟨rfl,h.d,by rw [h.pc],h.ram,h.rom,h.size⟩
  | false =>
    have hout : cpu.result instruction = alu (instruction.extractLsb' 6 6) sparse.d
        (if readsMemory instruction then contents sparse.ram sparse.a else sparse.a) := by
      rw [Processor.result, h.d, h.a, ← h.ram, ← h.a]
      rfl
    simp only [Processor.execute, Sparse.execute, hl, Bool.false_eq_true, if_false, hout, h.a, h.d, h.pc]
    refine ⟨rfl,rfl,rfl,?_,h.rom,h.size⟩
    intro address
    cases hw : writesMemory instruction with
    | false => exact h.ram address
    | true => exact word_put h.ram (ha hl hw) _ address

theorem advance (h : Draws program sparse cpu) (hlt : sparse.pc.toNat < program.length)
    (ho : sparse.obstacle? program = none) : Draws program (sparse.advance program) cpu.advance := by
  rw [Processor.advance, Sparse.advance, h.fetch? hlt]
  rw [Sparse.obstacle?] at ho
  cases hi : instruction? program sparse.pc.toNat with
  | none => exact h
  | some instruction =>
    apply h.execute
    intro hl hw
    by_contra ha
    simp [hi, hl, hw, Nat.not_lt.mp ha] at ho

theorem stops_iff (h : Draws program sparse cpu) : cpu.Stops none ↔ sparse.halted program = true := by
  rw [Processor.Stops, h.halted]
  simp

theorem runFrom_of_halted (h : Draws program sparse cpu) (hh : sparse.halted program = true) (budget : Int)
    (fuel executed : Nat) : DrawsRun program (sparse.runFrom program budget fuel executed)
      (cpu.runFrom (.ofCondition none) budget fuel executed []) := by
  rw [Sparse.runFrom.eq_def, if_pos hh, Processor.runFrom_of_stops (h.stops_iff.mpr hh)]
  exact ⟨rfl,rfl,h⟩

/-- The two make the same steps and end alike. -/
theorem runFrom (h : Draws program sparse cpu) (budget : Int) (fuel executed : Nat) :
    DrawsRun program (sparse.runFrom program budget fuel executed)
      (cpu.runFrom (.ofCondition none) budget fuel executed []) := by
  induction fuel generalizing sparse cpu executed with
  | zero =>
    by_cases hh : sparse.halted program = true
    · exact h.runFrom_of_halted hh budget 0 executed
    · rw [Sparse.runFrom, if_neg hh, Processor.runFrom_of_limit (mt h.stops_iff.mp hh), h.pc]
      exact ⟨rfl,rfl,h⟩
  | succ fuel ih =>
    by_cases hh : sparse.halted program = true
    · exact h.runFrom_of_halted hh budget (fuel + 1) executed
    · have hlt := lt_of_halted_eq_false (eq_false_of_ne_true hh)
      rw [Sparse.runFrom, if_neg hh]
      cases ho : sparse.obstacle? program with
      | some fault =>
        have hs : cpu.step = .error fault := by rw [Processor.step, h.obstacle? hlt, ho]
        rw [Processor.runFrom_of_error (mt h.stops_iff.mp hh) hs]
        exact ⟨rfl,rfl,h⟩
      | none =>
        have hs : cpu.step = .ok cpu.advance := by rw [Processor.step, h.obstacle? hlt, ho]
        rw [Processor.runFrom_of_ok (mt h.stops_iff.mp hh) hs]
        exact ih (h.advance hlt ho) (executed + 1)

theorem writes_cons {next : Processor} {address : Int} {value : Word} (hw : cpu.write address value = .ok next)
    (entries : List (Int × Word)) : cpu.writes ((address, value) :: entries) = next.writes entries := by
  rw [Processor.writes, List.foldlM_cons]
  simp only [hw]
  rfl

/-- Words written to the data memory from outside are written to both. -/
theorem writes (h : Draws program sparse cpu) {entries : List (Word × Word)}
    (he : ∀ entry ∈ entries, entry.1.IsAddress) : ∃ written,
      cpu.writes (entries.map fun entry => (entry.1.toNat, entry.2)) = .ok written ∧
        Draws program { sparse with ram := entries.reverse ++ sparse.ram } written := by
  induction entries generalizing sparse cpu with
  | nil => exact ⟨cpu,rfl,h⟩
  | cons entry entries ih =>
    have hentry : entry.1.IsAddress := he entry List.mem_cons_self
    have hw : cpu.write entry.1.toNat entry.2 = .ok { cpu with ram := cpu.ram.put entry.1 entry.2 } := by
      rw [Processor.write, if_pos ⟨Int.natCast_nonneg _,Int.ofNat_lt.mpr hentry⟩]
      rfl
    have hnext : Draws program { sparse with ram := entry :: sparse.ram }
        { cpu with ram := cpu.ram.put entry.1 entry.2 } :=
      ⟨h.a,h.d,h.pc,fun address => word_put h.ram hentry entry.2 address,h.rom,h.size⟩
    obtain ⟨written,hwritten,hdraws⟩ := ih hnext fun other ho => he other (List.mem_cons_of_mem _ ho)
    refine ⟨written,?_,?_⟩
    · rw [List.map_cons, writes_cons hw, hwritten]
    · rw [List.reverse_cons, List.append_assoc]
      exact hdraws

end Draws

/-- The machine with a program loaded into it and nothing written to its memory. -/
theorem draws_of_load {program : List Nat} {loaded : Processor}
    (h : Processor.new.load (program.map Int.ofNat).toArray = .ok loaded) : Draws program ⟨0, 0, 0, []⟩ loaded := by
  obtain ⟨hsize,hrom⟩ := rom_of_load h
  unfold Processor.load at h
  split at h
  next => cases h
  next =>
    cases h
    refine ⟨rfl,rfl,rfl,?_,?_,?_⟩
    · intro address
      exact Memory.word_zero address
    · intro i hi
      rw [hrom, instruction?, List.getElem?_eq_getElem hi]
      exact getElem?_ofProgram (List.getElem?_eq_getElem hi) (by simpa using hsize)
    · exact List.length_map _

end Sparse

section Evaluation

open Compile

/-- The run of a program, started with words written to the data memory. -/
def runOf? (options : Options) (units : List CompilationUnit) (entries : List (Word × Word)) (budget : Int) :
    Option SparseRun :=
  (wordsOf? options units "out.asm").bind fun words =>
    if words.length < memorySize then some (Sparse.runFrom words budget budget.toNat 0 ⟨0, 0, 0, entries.reverse⟩)
    else none

/-- A program whose run can be evaluated is compiled, assembled and loaded, and runs like that. -/
theorem exists_run {options : Options} {units : List CompilationUnit} {entries : List (Word × Word)} {budget : Int}
    {run : SparseRun} (he : ∀ entry ∈ entries, entry.1.IsAddress) (h : runOf? options units entries budget = some run) :
    ∃ summary text assembled words loaded start, compile options units = .ok (summary, text) ∧
      Asm.Session.new.assemble text "out.asm" = (assembled, .ok words) ∧ words.length < memorySize ∧
      Processor.new.load (words.map Int.ofNat).toArray = .ok loaded ∧
      loaded.writes (entries.map fun entry => (entry.1.toNat, entry.2)) = .ok start ∧
      Sparse.DrawsRun words run (start.run {} budget) := by
  obtain ⟨words,hwords,h⟩ := Option.bind_eq_some_iff.mp h
  obtain ⟨summary,text,assembled,hc,ha⟩ := compile_of_wordsOf? hwords
  split at h
  next hsize =>
    cases h
    have hfits : ¬memorySize < (words.map Int.ofNat).toArray.size := by
      rw [List.size_toArray, List.length_map]
      omega
    obtain ⟨loaded,hl⟩ : ∃ loaded, Processor.new.load (words.map Int.ofNat).toArray = .ok loaded := ⟨_,if_neg hfits⟩
    obtain ⟨start,hstart,hdraws⟩ := (Sparse.draws_of_load hl).writes he
    rw [List.append_nil] at hdraws
    exact ⟨summary,text,assembled,words,loaded,start,hc,ha,hsize,hl,hstart,hdraws.runFrom budget budget.toNat 0⟩
  next => cases h

end Evaluation

end HackToolchain.Machine
