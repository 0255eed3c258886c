import HackToolchain.Machine.Run
import HackToolchain.Proofs.Outcomes

/-! # What a machine goes through

A machine is worked on by changing its parts one after the other, and what was changed before a failure stays changed.
All that can fail is looked at before anything is changed.  So a request that fails leaves the machine as it was, and
a run that fails leaves it as the instructions before the failure have.
-/
namespace HackToolchain.Machine

open Outcome (result result_bind result_bind_ok result_bind_error result_get_bind result_pure)
open Processor (isLoad readsMemory writesMemory writesA writesD jumps)

/-- Work on a machine.  A failure does not take back what was done before it. -/
abbrev Work := ExceptT Fault (StateM Processor)

inductive RegisterName where
  | a | d | pc
  deriving DecidableEq, Repr

namespace Processor

def register (cpu : Processor) : RegisterName → Word
  | .a => cpu.a
  | .d => cpu.d
  | .pc => cpu.pc

/-- Sets a register to the low sixteen bits of a number. -/
def setRegister (cpu : Processor) (register : RegisterName) (value : Int) : Processor :=
  match register with
  | .a => { cpu with a := Word.ofInt value }
  | .d => { cpu with d := Word.ofInt value }
  | .pc => { cpu with pc := Word.ofInt value }

end Processor

/-- Whether the observer lets a run go on. -/
def Watch.goesOn (watch : Watch) (cpu : Processor) : Bool := (watch.observe cpu []).2

namespace Work

def checkAddress (address : Int) : Work Unit := do
  if ¬(0 ≤ address ∧ address < memorySize) then throw (.addressOutOfRange address (← get).pc.toNat)

def read (address : Int) : Work Word := do
  checkAddress address
  return ((← get).ram.get? address).getD 0

def write (address value : Int) : Work Unit := do
  checkAddress address
  modify fun cpu => { cpu with ram := cpu.ram.setIfInBounds address.toNat (Word.ofInt value) }

def set (register : RegisterName) (value : Int) : Work Unit := modify (·.setRegister register value)

def count : Work Unit := modify fun cpu => { cpu with cycles := cpu.cycles + 1 }

def reset (clearsMemory : Bool) : Work Unit := do
  modify fun cpu => { cpu with a := 0, d := 0, pc := 0, cycles := 0 }
  if clearsMemory then modify fun cpu => { cpu with ram := Memory.zero }

def load (program : Array Int) : Work Unit := do
  if memorySize < program.size then throw (.programTooLong program.size)
  modify fun cpu => { cpu with rom := Memory.ofProgram program }
  modify fun cpu => { cpu with size := program.size }
  reset false

/-- The second input of the unit. -/
def second (word : Word) : Work Word := do
  let cpu ← get
  if readsMemory word then read cpu.a.toNat else pure cpu.a

def store (word out : Word) : Work Unit := do
  let cpu ← get
  if writesMemory word then write cpu.a.toNat out.toNat

/-- Sets the registers one after the other; a jump goes to A as it was found. -/
def settle (word out : Word) : Work Unit := do
  let cpu ← get
  if writesA word then set .a out.toNat
  if writesD word then set .d out.toNat
  set .pc (if jumps word out then (cpu.a.toNat : Int) else cpu.pc.toNat + 1)

def compute (word : Word) : Work Unit := do
  let y ← second word
  let cpu ← get
  let out := alu (word.extractLsb' 6 6) cpu.d y
  store word out
  settle word out

def step : Work Unit := do
  let cpu ← get
  match cpu.fetch? with
  | none => throw .noInstruction
  | some word =>
    if isLoad word then
      set .a word.toNat
      set .pc (cpu.pc.toNat + 1)
    else compute word
    count

/-- Makes step after step, for at most `fuel` more steps of a budget of `budget`, and gives back how many were made. -/
def runFrom (watch : Watch) (budget : Int) (fuel executed : Nat) : Work Nat := do
  let cpu ← get
  match watch.stops cpu with
  | .error fault => throw fault
  | .ok true => return executed
  | .ok false =>
    if watch.goesOn cpu then
      match fuel with
      | 0 => throw (.outOfCycles budget cpu.pc.toNat)
      | fuel + 1 => do
        step
        runFrom watch budget fuel (executed + 1)
    else return executed

end Work

/-- What comes of a run: the number of steps, or the fault that ended it. -/
def Run.outcome (run : Run) : Except Fault Nat := run.fault.elim (.ok run.executed) .error

/-- A machine that is as it was if nothing came of a request. -/
def kept (cpu : Processor) : Except Fault Processor → Except Fault Unit × Processor
  | .ok next => (.ok (), next)
  | .error fault => (.error fault, cpu)

theorem isSome_get?_iff (memory : Memory) (address : Int) :
    (memory.get? address).isSome ↔ 0 ≤ address ∧ address < memorySize := by
  unfold Memory.get?
  split
  next h =>
    rw [Option.isSome_iff_ne_none, ne_eq, Vector.getElem?_eq_none_iff]
    omega
  next h => simp [h]

namespace Work

section Result

variable (cpu : Processor)

@[simp] theorem result_set (register : RegisterName) (value : Int) :
    result (set register value) cpu = (.ok (), cpu.setRegister register value) := rfl

@[simp] theorem result_count : result count cpu = (.ok (), { cpu with cycles := cpu.cycles + 1 }) := rfl

theorem result_checkAddress (address : Int) : result (checkAddress address) cpu =
    if 0 ≤ address ∧ address < memorySize then (.ok (), cpu)
    else (.error (.addressOutOfRange address cpu.pc.toNat), cpu) := by
  by_cases h : 0 ≤ address ∧ address < memorySize
  · rw [if_pos h, checkAddress, if_neg (not_not.mpr h)]
    rfl
  · rw [if_neg h, checkAddress, if_pos h]
    rfl

/-- A read changes nothing. -/
theorem result_read (address : Int) : result (read address) cpu = (cpu.read address, cpu) := by
  rw [read, result_bind, result_checkAddress]
  by_cases h : 0 ≤ address ∧ address < memorySize
  · obtain ⟨word,hword⟩ := Option.isSome_iff_exists.mp ((isSome_get?_iff cpu.ram address).mpr h)
    rw [if_pos h, Processor.read, hword]
    change (Except.ok ((cpu.ram.get? address).getD 0), cpu) = _
    rw [hword]
    rfl
  · have hnone := Option.not_isSome_iff_eq_none.mp (mt (isSome_get?_iff cpu.ram address).mp h)
    rw [if_neg h, Processor.read, hnone]

theorem result_write (address value : Int) :
    result (write address value) cpu = kept cpu (cpu.write address (Word.ofInt value)) := by
  rw [write, result_bind, result_checkAddress, Processor.write]
  by_cases h : 0 ≤ address ∧ address < memorySize
  · rw [if_pos h, if_pos h]
    rfl
  · rw [if_neg h, if_neg h]
    rfl

theorem result_reset (clearsMemory : Bool) : result (reset clearsMemory) cpu = (.ok (), cpu.reset clearsMemory) := by
  cases clearsMemory <;> rfl

theorem result_load (program : Array Int) : result (load program) cpu = kept cpu (cpu.load program) := by
  by_cases h : memorySize < program.size
  · rw [load, if_pos h, Processor.load, if_pos h]
    rfl
  · rw [load, if_neg h, Processor.load, if_neg h]
    rfl

theorem ofInt_toNat (word : Word) : Word.ofInt word.toNat = word := by
  simp [Word.ofInt]

theorem ofInt_toNat_succ (word : Word) : Word.ofInt (word.toNat + 1) = word + 1 := by
  apply BitVec.eq_of_toNat_eq
  rw [Word.ofInt, ← Int.natCast_succ, BitVec.ofInt_natCast]
  simp [BitVec.toNat_add]

theorem result_settle (word out : Word) : result (settle word out) cpu = (.ok (),
    { cpu with
      a := if writesA word then out else cpu.a
      d := if writesD word then out else cpu.d
      pc := if jumps word out then cpu.a else cpu.pc + 1 }) := by
  have hpc : Word.ofInt (if jumps word out then (cpu.a.toNat : Int) else cpu.pc.toNat + 1) =
      if jumps word out then cpu.a else cpu.pc + 1 := by
    split
    · exact ofInt_toNat cpu.a
    · exact ofInt_toNat_succ cpu.pc
  rw [← hpc]
  have hout := ofInt_toNat out
  unfold settle
  cases writesA word <;> cases writesD word <;> simp [result_bind, Processor.setRegister, hout]

theorem result_second (word : Word) : result (second word) cpu =
    if readsMemory word = true ∧ memorySize ≤ cpu.a.toNat then
      (.error (.addressOutOfRange cpu.a.toNat cpu.pc.toNat), cpu)
    else (.ok (if readsMemory word then cpu.memoryAtA else cpu.a), cpu) := by
  rw [second, result_get_bind]
  by_cases hr : readsMemory word = true
  · rw [if_pos hr, if_pos hr, result_read, Processor.read, Processor.memoryAtA, Memory.get?,
      if_pos (Int.natCast_nonneg _), Int.toNat_natCast]
    split
    next word hword =>
      obtain ⟨hlt,-⟩ := Vector.getElem?_eq_some_iff.mp hword
      rw [if_neg (fun h => Nat.not_le_of_lt hlt h.2), hword]
      rfl
    next hnone => rw [if_pos ⟨hr,Vector.getElem?_eq_none_iff.mp hnone⟩]
  · rw [if_neg hr, if_neg (fun h => hr h.1), if_neg hr, result_pure]

theorem result_store (word out : Word) : result (store word out) cpu =
    if writesMemory word = true ∧ memorySize ≤ cpu.a.toNat then
      (.error (.addressOutOfRange cpu.a.toNat cpu.pc.toNat), cpu)
    else (.ok (), { cpu with ram := if writesMemory word then cpu.ram.setIfInBounds cpu.a.toNat out else cpu.ram }) := by
  rw [store, result_get_bind]
  by_cases hw : writesMemory word = true
  · rw [if_pos hw, if_pos hw, result_write, Processor.write, ofInt_toNat, Int.toNat_natCast]
    by_cases h : memorySize ≤ cpu.a.toNat
    · rw [if_neg (by omega), if_pos ⟨hw,h⟩]
      rfl
    · rw [if_pos (by omega), if_neg (fun hin => h hin.2)]
      rfl
  · rw [if_neg hw, if_neg (fun h => hw h.1), if_neg hw, result_pure]

/-- A computation that cannot be made changes nothing. -/
theorem result_compute {word : Word} (h : isLoad word = false) : result (compute word) cpu =
    if (readsMemory word = true ∨ writesMemory word = true) ∧ memorySize ≤ cpu.a.toNat then
      (.error (.addressOutOfRange cpu.a.toNat cpu.pc.toNat), cpu)
    else (.ok (), { cpu.execute word with cycles := cpu.cycles }) := by
  unfold compute
  by_cases hr : readsMemory word = true ∧ memorySize ≤ cpu.a.toNat
  · rw [result_bind_error ((result_second cpu word).trans (if_pos hr)), if_pos ⟨.inl hr.1,hr.2⟩]
  · rw [result_bind_ok ((result_second cpu word).trans (if_neg hr)), result_get_bind]
    by_cases hw : writesMemory word = true ∧ memorySize ≤ cpu.a.toNat
    · rw [result_bind_error ((result_store cpu word _).trans (if_pos hw)), if_pos ⟨.inr hw.1,hw.2⟩]
    · have hin : ¬((readsMemory word = true ∨ writesMemory word = true) ∧ memorySize ≤ cpu.a.toNat) := by
        rintro ⟨hm | hm,ha⟩
        · exact hr ⟨hm,ha⟩
        · exact hw ⟨hm,ha⟩
      rw [result_bind_ok ((result_store cpu word _).trans (if_neg hw)), result_settle, if_neg hin]
      simp only [Processor.execute, h, Bool.false_eq_true, ↓reduceIte]
      rfl

theorem step_of_some {cpu : Processor} {word : Word} (hf : cpu.fetch? = some word) : cpu.step =
    if isLoad word = false ∧ (readsMemory word = true ∨ writesMemory word = true) ∧ memorySize ≤ cpu.a.toNat then
      .error (.addressOutOfRange cpu.a.toNat cpu.pc.toNat)
    else .ok (cpu.execute word) := by
  rw [Processor.step, Processor.obstacle?, Processor.advance, hf]
  by_cases hin : isLoad word = false ∧ (readsMemory word = true ∨ writesMemory word = true) ∧ memorySize ≤ cpu.a.toNat
  · have hb : (!isLoad word && (readsMemory word || writesMemory word) && decide (memorySize ≤ cpu.a.toNat)) = true := by
      simpa [and_assoc] using hin
    simp only [hb, ↓reduceIte, if_pos hin]
  · have hb : (!isLoad word && (readsMemory word || writesMemory word) && decide (memorySize ≤ cpu.a.toNat)) = false := by
      rw [← Bool.not_eq_true]
      simpa [and_assoc] using hin
    simp only [hb, Bool.false_eq_true, ↓reduceIte, if_neg hin]

/-- An instruction that cannot be executed changes nothing. -/
theorem result_step : result step cpu = kept cpu cpu.step := by
  rw [step, result_get_bind]
  cases hf : cpu.fetch? with
  | none =>
    rw [Processor.step, Processor.obstacle?, hf]
    rfl
  | some word =>
    rw [step_of_some hf]
    cases hl : isLoad word with
    | true =>
      simp [kept, hl, result_bind, Processor.execute, Processor.setRegister, ofInt_toNat, ofInt_toNat_succ]
    | false =>
      have hcompute := result_compute cpu hl
      simp only [hl, Bool.false_eq_true, ↓reduceIte, true_and]
      by_cases hin : (readsMemory word = true ∨ writesMemory word = true) ∧ memorySize ≤ cpu.a.toNat
      · rw [result_bind_error (hcompute.trans (if_pos hin)), if_pos hin]
        rfl
      · rw [result_bind_ok (hcompute.trans (if_neg hin)), if_neg hin, result_count, kept]
        simp only [Processor.execute, hl, Bool.false_eq_true, ↓reduceIte]

theorem goesOn_of_observe {cpu : Processor} {watch : Watch} {seen more : List (Word × Word)} {goesOn : Bool}
    (h : watch.observe cpu seen = (more, goesOn)) : watch.goesOn cpu = goesOn := by
  unfold Watch.goesOn
  unfold Watch.observe at h ⊢
  split at h <;> cases h <;> rfl

/-- A run in place comes to the same end, and a fault leaves the machine where the steps before it have led. -/
theorem result_runFrom (watch : Watch) (budget : Int) (fuel executed : Nat) (seen : List (Word × Word)) :
    result (runFrom watch budget fuel executed) cpu =
      ((cpu.runFrom watch budget fuel executed seen).outcome, (cpu.runFrom watch budget fuel executed seen).cpu) := by
  fun_induction Processor.runFrom watch budget fuel executed seen cpu with
  | case1 fuel executed seen cpu fault hs =>
    rw [runFrom, result_get_bind, hs]
    rfl
  | case2 fuel executed seen cpu hs =>
    rw [runFrom, result_get_bind, hs]
    rfl
  | case3 executed seen cpu hs more ho =>
    rw [runFrom, result_get_bind, hs]
    simp only [goesOn_of_observe ho, if_true]
    rfl
  | case4 executed seen cpu hs more fuel fault hf ho =>
    have hstep : result step cpu = (.error fault, cpu) := by
      rw [result_step, Processor.step, hf]
      rfl
    rw [runFrom, result_get_bind, hs]
    simp only [goesOn_of_observe ho, if_true]
    exact result_bind_error hstep _
  | case5 executed seen cpu hs more fuel hf ho ih =>
    have hstep : result step cpu = (.ok (), cpu.advance) := by
      rw [result_step, Processor.step, hf]
      rfl
    rw [runFrom, result_get_bind, hs]
    simp only [goesOn_of_observe ho, if_true]
    exact (result_bind_ok hstep _).trans ih
  | case6 fuel executed seen cpu hs more goesOn ho hstop =>
    rw [runFrom, result_get_bind, hs]
    simp only [goesOn_of_observe ho, if_neg hstop]
    rfl

end Result

end Work

namespace Processor

section Steps

variable {cpu next last : Processor}

theorem step_cases (h : cpu.step = .ok next) : ∃ word, cpu.fetch? = some word ∧ next = cpu.execute word := by
  cases hf : cpu.fetch? with
  | none =>
    rw [step, obstacle?, hf] at h
    cases h
  | some word =>
    rw [Work.step_of_some hf] at h
    split at h
    · cases h
    · cases h
      exact ⟨word,rfl,rfl⟩

/-- What an instruction leaves alone, and that it is counted. -/
theorem step_kept (h : cpu.step = .ok next) :
    next.rom = cpu.rom ∧ next.size = cpu.size ∧ next.cycles = cpu.cycles + 1 := by
  obtain ⟨word,-,rfl⟩ := step_cases h
  unfold execute
  split
  · exact ⟨rfl,rfl,rfl⟩
  · exact ⟨rfl,rfl,rfl⟩

theorem steps_succ_of_ok (h : cpu.step = .ok next) (n : Nat) : cpu.steps (n + 1) = next.steps n := by
  rw [step] at h
  rw [steps]
  cases ho : cpu.obstacle? with
  | some fault =>
    rw [ho] at h
    cases h
  | none =>
    rw [ho] at h
    cases h
    rfl

theorem steps_succ_of_error {fault : Fault} (h : cpu.step = .error fault) (n : Nat) :
    cpu.steps (n + 1) = (cpu, .error fault) := by
  rw [step] at h
  rw [steps]
  cases ho : cpu.obstacle? with
  | some found =>
    rw [ho] at h
    cases h
    rfl
  | none =>
    rw [ho] at h
    cases h

theorem steps_succ_ok {n : Nat} : cpu.steps (n + 1) = (last, .ok ()) ↔
    ∃ next, cpu.step = .ok next ∧ next.steps n = (last, .ok ()) := by
  rw [steps, step]
  cases cpu.obstacle? with
  | some fault => simp
  | none => simp

/-- Steps that have been made are the first of more. -/
theorem steps_add_of_ok {m : Nat} (h : cpu.steps m = (next, .ok ())) (n : Nat) :
    cpu.steps (m + n) = next.steps n := by
  induction m generalizing cpu with
  | zero =>
    cases h
    rw [Nat.zero_add]
  | succ m ih =>
    obtain ⟨first,hs,hm⟩ := steps_succ_ok.mp h
    rw [Nat.add_right_comm, steps_succ_of_ok hs, ih hm]

theorem steps_kept {n : Nat} (h : cpu.steps n = (last, .ok ())) :
    last.rom = cpu.rom ∧ last.size = cpu.size ∧ last.cycles = cpu.cycles + n := by
  induction n generalizing cpu with
  | zero =>
    cases h
    exact ⟨rfl,rfl,rfl⟩
  | succ n ih =>
    obtain ⟨next,hs,hn⟩ := steps_succ_ok.mp h
    obtain ⟨hrom,hsize,hcycles⟩ := step_kept hs
    obtain ⟨hrom',hsize',hcycles'⟩ := ih hn
    exact ⟨hrom'.trans hrom,hsize'.trans hsize,by omega⟩

/-- How a run of at most `fuel` steps may fail after `n` of them. -/
def FailsAt (watch : Watch) (budget : Int) (fuel n : Nat) (last : Processor) (fault : Fault) : Prop :=
  watch.stops last = .error fault ∨ (n = fuel ∧ fault = .outOfCycles budget last.pc.toNat) ∨
    last.obstacle? = some fault

/-- A run ends where it is or goes on after a step. -/
theorem runFrom_cases (watch : Watch) (budget : Int) (fuel executed : Nat) (seen : List (Word × Word))
    (cpu : Processor) :
    (∃ seen' fault?, cpu.runFrom watch budget fuel executed seen = ⟨cpu,executed,seen',fault?⟩ ∧
      ∀ fault, fault? = some fault → FailsAt watch budget fuel 0 cpu fault) ∨
    ∃ rest seen' next, fuel = rest + 1 ∧ cpu.step = .ok next ∧
      cpu.runFrom watch budget fuel executed seen = next.runFrom watch budget rest (executed + 1) seen' := by
  rw [runFrom]
  cases hstops : watch.stops cpu with
  | error fault => exact .inl ⟨seen,some fault,rfl,fun _ h => Option.some.inj h ▸ .inl hstops⟩
  | ok stops =>
    cases stops with
    | true => exact .inl ⟨seen,none,rfl,by simp⟩
    | false =>
      obtain ⟨seen',goesOn⟩ := watch.observe cpu seen
      cases goesOn with
      | false => exact .inl ⟨seen',none,rfl,by simp⟩
      | true =>
        cases fuel with
        | zero => exact .inl ⟨seen',_,rfl,fun _ h => Option.some.inj h ▸ .inr (.inl ⟨rfl,rfl⟩)⟩
        | succ rest =>
          cases ho : cpu.obstacle? with
          | some fault => exact .inl ⟨seen',some fault,rfl,fun _ h => Option.some.inj h ▸ .inr (.inr ho)⟩
          | none => exact .inr ⟨rest,seen',cpu.advance,rfl,by rw [step, ho],rfl⟩

/-- A run makes single steps, and ends where they have led. -/
theorem runFrom_steps (watch : Watch) (budget : Int) (fuel executed : Nat) (seen : List (Word × Word))
    (cpu : Processor) : ∃ n ≤ fuel, (cpu.runFrom watch budget fuel executed seen).executed = executed + n ∧
      cpu.steps n = ((cpu.runFrom watch budget fuel executed seen).cpu, .ok ()) ∧
      ∀ fault, (cpu.runFrom watch budget fuel executed seen).fault = some fault →
        FailsAt watch budget fuel n (cpu.runFrom watch budget fuel executed seen).cpu fault := by
  induction fuel generalizing executed seen cpu with
  | zero =>
    obtain ⟨_,_,hr,hfault⟩ | ⟨rest,_,_,hrest,-⟩ := runFrom_cases watch budget 0 executed seen cpu
    · rw [hr]
      exact ⟨0,Nat.le_refl 0,rfl,rfl,hfault⟩
    · cases hrest
  | succ fuel ih =>
    obtain ⟨_,_,hr,hfault⟩ | ⟨rest,seen',next,hrest,hstep,hr⟩ := runFrom_cases watch budget (fuel + 1) executed seen cpu
    · rw [hr]
      exact ⟨0,Nat.zero_le _,rfl,rfl,hfault⟩
    · cases hrest
      obtain ⟨n,hn,hexecuted,hsteps,hfault⟩ := ih (executed + 1) seen' next
      rw [hr]
      refine ⟨n + 1,Nat.succ_le_succ hn,by omega,steps_succ_ok.mpr ⟨next,hstep,hsteps⟩,?_⟩
      intro fault h
      rcases hfault fault h with hstops | ⟨rfl,hbudget⟩ | hobstacle
      · exact .inl hstops
      · exact .inr (.inl ⟨rfl,hbudget⟩)
      · exact .inr (.inr hobstacle)

end Steps

end Processor

/-- What can be asked of a machine. -/
inductive Operation where
  | load (program : Array Int)
  | reset (clearsMemory : Bool)
  | read (address : Int)
  | write (address value : Int)
  | set (register : RegisterName) (value : Int)
  | step
  | run (watch : Watch) (budget : Int)

namespace Operation

def work : Operation → Work Unit
  | .load program => Work.load program
  | .reset clearsMemory => Work.reset clearsMemory
  | .read address => do let _ ← Work.read address
  | .write address value => Work.write address value
  | .set register value => Work.set register value
  | .step => Work.step
  | .run watch budget => do let _ ← Work.runFrom watch budget budget.toNat 0

def result (operation : Operation) (cpu : Processor) : Except Fault Unit × Processor := Outcome.result operation.work cpu

/-- The number of instructions completed since the last load or reset, if it was `completed` before. -/
def counted (cpu : Processor) (completed : Nat) : Operation → Nat
  | .load program => if memorySize < program.size then completed else 0
  | .reset _ => 0
  | .step =>
    match cpu.step with
    | .ok _ => completed + 1
    | .error _ => completed
  | .run watch budget => completed + (cpu.run watch budget).executed
  | .read _ | .write _ _ | .set _ _ => completed

def isRun : Operation → Bool
  | .run _ _ => true
  | .load _ | .reset _ | .read _ | .write _ _ | .set _ _ | .step => false

/-- What is asked for lies outside of the machine. -/
def Refused (cpu : Processor) : Operation → Prop
  | .load program => memorySize < program.size
  | .read address | .write address _ => address < 0 ∨ memorySize ≤ address
  | .step => memorySize ≤ cpu.pc.toNat ∨ ∃ word, cpu.fetch? = some word ∧ isLoad word = false ∧
      (readsMemory word = true ∨ writesMemory word = true) ∧ memorySize ≤ cpu.a.toNat
  | .reset _ | .set _ _ | .run _ _ => False

/-- Numbers of any size are cut to sixteen bits when they are stored. -/
def Stores (cpu next : Processor) : Operation → Prop
  | .load program => ∀ (i : Nat) (value : Int), program[i]? = some value →
      ∃ word : Word, next.rom[i]? = some word ∧ (word.toNat : Int) = value % 65536
  | .write address value => ∀ i : Nat, if (i : Int) = address then
      ∃ word : Word, next.ram[i]? = some word ∧ (word.toNat : Int) = value % 65536 else next.ram[i]? = cpu.ram[i]?
  | .set register value => ((next.register register).toNat : Int) = value % 65536 ∧
      ∀ other ≠ register, next.register other = cpu.register other
  | .reset _ | .read _ | .step | .run _ _ => True

end Operation

/-- The machine after an operation, with the number of instructions completed since the last load or reset. -/
def follow (state : Processor × Nat) (operation : Operation) : Processor × Nat :=
  ((operation.result state.1).2, operation.counted state.1 state.2)

/-- The same after some operations on a new machine. -/
def history (operations : List Operation) : Processor × Nat := operations.foldl follow (.new, 0)

/-- A machine in order: all its words are words, the program memory is blank behind the program, and the instructions
are counted. -/
structure Processor.IsSound (cpu : Processor) (completed : Nat) : Prop where
  registers : ∀ register, (cpu.register register).toNat < 65536
  ram : cpu.ram.toList.length = 32768 ∧ ∀ word ∈ cpu.ram.toList, word.toNat < 65536
  rom : cpu.rom.toList.length = 32768 ∧ ∀ word ∈ cpu.rom.toList, word.toNat < 65536
  size : cpu.size ≤ memorySize
  blank : ∀ i, cpu.size ≤ i → i < memorySize → cpu.rom[i]? = some 0
  cycles : cpu.cycles = completed

/-- An operation is refused just where it leaves the machine's bounds, and then changes nothing.  A run that fails has
made the instructions before the failure and nothing else. -/
structure Operation.IsAtomic (cpu : Processor) (operation : Operation) : Prop where
  fails_iff : operation.isRun = false → ((operation.result cpu).1 ≠ .ok () ↔ operation.Refused cpu)
  unchanged : operation.isRun = false → (operation.result cpu).1 ≠ .ok () → (operation.result cpu).2 = cpu
  stores : (operation.result cpu).1 = .ok () → operation.Stores cpu (operation.result cpu).2
  interrupted : ∀ watch budget, operation = .run watch budget → ∃ n ≤ budget.toNat,
    cpu.steps n = ((operation.result cpu).2, .ok ()) ∧ (cpu.run watch budget).executed = n ∧
      ∀ fault, (operation.result cpu).1 = .error fault →
        Processor.FailsAt watch budget budget.toNat n (operation.result cpu).2 fault

namespace Operation

section Results

variable (cpu : Processor)

theorem result_run (watch : Watch) (budget : Int) : (Operation.run watch budget).result cpu =
    ((cpu.run watch budget).fault.elim (.ok ()) .error, (cpu.run watch budget).cpu) := by
  rw [result, work, Outcome.result_bind, Work.result_runFrom cpu watch budget budget.toNat 0 [], ← Processor.run,
    Run.outcome]
  cases (cpu.run watch budget).fault with
  | none => rfl
  | some fault => rfl

theorem result_read (address : Int) :
    (Operation.read address).result cpu = ((cpu.read address).map fun _ => (), cpu) := by
  rw [result, work, Outcome.result_bind, Work.result_read]
  cases cpu.read address with
  | ok word => rfl
  | error fault => rfl

theorem result_load (program : Array Int) : (Operation.load program).result cpu = kept cpu (cpu.load program) :=
  Work.result_load cpu program

theorem result_write (address value : Int) :
    (Operation.write address value).result cpu = kept cpu (cpu.write address (Word.ofInt value)) :=
  Work.result_write cpu address value

theorem result_step : Operation.step.result cpu = kept cpu cpu.step := Work.result_step cpu

theorem result_reset (clearsMemory : Bool) :
    (Operation.reset clearsMemory).result cpu = (.ok (), cpu.reset clearsMemory) :=
  Work.result_reset cpu clearsMemory

theorem result_set (register : RegisterName) (value : Int) :
    (Operation.set register value).result cpu = (.ok (), cpu.setRegister register value) := rfl

end Results

end Operation

section Kept

variable {cpu : Processor} {outcome : Except Fault Processor}

theorem kept_of_failed (h : (kept cpu outcome).1 ≠ .ok ()) : (kept cpu outcome).2 = cpu := by
  cases outcome with
  | ok next => exact absurd rfl h
  | error fault => rfl

theorem failed_kept_iff : (kept cpu outcome).1 ≠ .ok () ↔ ∃ fault, outcome = .error fault := by
  cases outcome with
  | ok next => simp [kept]
  | error fault => simp [kept]

end Kept

section Words

theorem toNat_ofInt (value : Int) : ((Word.ofInt value).toNat : Int) = value % 65536 := by
  rw [Word.ofInt, BitVec.toNat_ofInt]
  exact Int.toNat_of_nonneg (Int.emod_nonneg value (by decide))

theorem getElem?_ofProgram_of_lt (program : Array Int) {i : Nat} (hi : i < memorySize) :
    (Memory.ofProgram program)[i]? = some (Word.ofInt (program.getD i 0)) := by
  rw [Vector.getElem?_eq_getElem hi, Memory.ofProgram, Vector.getElem_ofFn]

theorem isLoad_ofNat_of_lt {n : Nat} (h : n < memorySize) : isLoad (BitVec.ofNat 16 n) = true := by
  unfold memorySize at h
  rw [isLoad, Bool.not_eq_true', BitVec.msb_eq_false_iff_two_mul_lt, BitVec.toNat_ofNat]
  omega

end Words

namespace Processor

variable {cpu next : Processor} {completed : Nat}

/-- Registers and memories hold words however they came about. -/
theorem isSound_of_rom (hsize : cpu.size ≤ memorySize)
    (hblank : ∀ i, cpu.size ≤ i → i < memorySize → cpu.rom[i]? = some 0) (hcycles : cpu.cycles = completed) :
    cpu.IsSound completed :=
  ⟨fun register => (cpu.register register).isLt,⟨cpu.ram.length_toList,fun word _ => word.isLt⟩,
    ⟨cpu.rom.length_toList,fun word _ => word.isLt⟩,hsize,hblank,hcycles⟩

theorem IsSound.of_kept (h : cpu.IsSound completed) (hrom : next.rom = cpu.rom) (hsize : next.size = cpu.size)
    {n : Nat} (hcycles : next.cycles = n) : next.IsSound n :=
  isSound_of_rom (hsize ▸ h.size) (hrom ▸ hsize ▸ h.blank) hcycles

theorem isSound_new : new.IsSound 0 := by
  refine isSound_of_rom (Nat.zero_le _) ?_ rfl
  intro i _ hi
  exact Vector.getElem?_replicate_of_lt hi

theorem isSound_load {program : Array Int} (h : cpu.load program = .ok next) : next.IsSound 0 := by
  unfold load at h
  split at h
  · cases h
  next hsize =>
    cases h
    refine isSound_of_rom (Nat.le_of_not_lt hsize) ?_ rfl
    intro i hi hlt
    refine (getElem?_ofProgram_of_lt program hlt).trans ?_
    rw [Array.getD_eq_getD_getElem?, Array.getElem?_eq_none hi]
    rfl

end Processor

namespace Operation

variable {cpu : Processor} {completed : Nat}

/-- An operation leaves a machine in order. -/
theorem isSound_result (h : cpu.IsSound completed) (operation : Operation) :
    (operation.result cpu).2.IsSound (operation.counted cpu completed) := by
  cases operation with
  | load program =>
    rw [result_load]
    cases hl : cpu.load program with
    | error fault =>
      have hcounted : (Operation.load program).counted cpu completed = completed := by
        unfold Processor.load at hl
        split at hl
        next hsize => exact if_pos hsize
        next => cases hl
      rw [hcounted]
      exact h
    | ok next =>
      have hcounted : (Operation.load program).counted cpu completed = 0 := by
        unfold Processor.load at hl
        split at hl
        next => cases hl
        next hsize => exact if_neg hsize
      rw [hcounted]
      exact Processor.isSound_load hl
  | reset clearsMemory =>
    rw [result_reset]
    apply h.of_kept
    all_goals rfl
  | read address =>
    rw [result_read]
    exact h
  | write address value =>
    rw [result_write, Processor.write]
    split
    · apply h.of_kept
      · rfl
      · rfl
      · exact h.cycles
    · exact h
  | set register value =>
    rw [result_set]
    cases register with
    | a | d | pc =>
      apply h.of_kept
      · rfl
      · rfl
      · exact h.cycles
  | step =>
    rw [result_step, counted]
    cases hs : cpu.step with
    | error fault => exact h
    | ok next =>
      obtain ⟨hrom,hsize,hcycles⟩ := Processor.step_kept hs
      exact h.of_kept hrom hsize (by rw [hcycles, h.cycles])
  | run watch budget =>
    obtain ⟨n,-,hexecuted,hsteps,-⟩ := Processor.runFrom_steps watch budget budget.toNat 0 [] cpu
    obtain ⟨hrom,hsize,hcycles⟩ := Processor.steps_kept hsteps
    rw [result_run]
    refine h.of_kept hrom hsize ?_
    have hcount : (cpu.run watch budget).executed = n := hexecuted.trans (Nat.zero_add n)
    rw [counted, hcount, ← h.cycles]
    exact hcycles

end Operation

theorem isSound_foldl (operations : List Operation) {state : Processor × Nat} (h : state.1.IsSound state.2) :
    (operations.foldl follow state).1.IsSound (operations.foldl follow state).2 := by
  induction operations generalizing state with
  | nil => exact h
  | cons operation rest ih => exact ih (operation.isSound_result h)

namespace Operation

variable (cpu : Processor)

theorem isAtomic_load (program : Array Int) : (Operation.load program).IsAtomic cpu := by
  have hload : (∃ fault, cpu.load program = .error fault) ↔ memorySize < program.size := by
    unfold Processor.load
    split
    next h => simp [h]
    next h => simp [h]
  refine ⟨fun _ => ?_,fun _ => ?_,?_,by simp⟩
  · rw [result_load, failed_kept_iff]
    exact hload
  · rw [result_load]
    exact kept_of_failed
  · intro hok i value hi
    have hsize : ¬memorySize < program.size := by
      rw [← hload, ← @failed_kept_iff cpu, ← result_load]
      exact not_not.mpr hok
    obtain ⟨hlt,-⟩ := Array.getElem?_eq_some_iff.mp hi
    have hrom : ((Operation.load program).result cpu).2.rom = Memory.ofProgram program := by
      rw [result_load, Processor.load, if_neg hsize]
      rfl
    refine ⟨Word.ofInt value,?_,toNat_ofInt value⟩
    rw [hrom, getElem?_ofProgram_of_lt program (by omega), Array.getD_eq_getD_getElem?, hi]
    rfl

theorem isAtomic_reset (clearsMemory : Bool) : (Operation.reset clearsMemory).IsAtomic cpu := by
  have hok : ((Operation.reset clearsMemory).result cpu).1 = .ok () := by rw [result_reset]
  refine ⟨fun _ => ?_,fun _ h => absurd hok h,fun _ => trivial,by simp⟩
  simp [hok, Refused]

theorem isAtomic_read (address : Int) : (Operation.read address).IsAtomic cpu := by
  refine ⟨fun _ => ?_,fun _ _ => by rw [result_read],fun _ => trivial,by simp⟩
  have hbounds : address < 0 ∨ memorySize ≤ address ↔ ¬(0 ≤ address ∧ address < memorySize) := by omega
  rw [result_read, Refused, hbounds, ← isSome_get?_iff cpu.ram, Processor.read]
  cases cpu.ram.get? address with
  | none => simp [Except.map]
  | some word => simp [Except.map]

theorem isAtomic_write (address value : Int) : (Operation.write address value).IsAtomic cpu := by
  have hwrite : (∃ fault, cpu.write address (Word.ofInt value) = .error fault) ↔
      address < 0 ∨ memorySize ≤ address := by
    unfold Processor.write
    split
    next h =>
      simp only [reduceCtorEq, exists_false, false_iff]
      omega
    next h =>
      simp only [Except.error.injEq, exists_eq', true_iff]
      omega
  refine ⟨fun _ => ?_,fun _ => ?_,?_,by simp⟩
  · rw [result_write, failed_kept_iff]
    exact hwrite
  · rw [result_write]
    exact kept_of_failed
  · intro hok i
    have hbounds : 0 ≤ address ∧ address < memorySize := by
      have hin : ¬(address < 0 ∨ memorySize ≤ address) := by
        rw [← hwrite, ← @failed_kept_iff cpu, ← result_write]
        exact not_not.mpr hok
      omega
    have hram : ((Operation.write address value).result cpu).2.ram =
        cpu.ram.setIfInBounds address.toNat (Word.ofInt value) := by
      rw [result_write, Processor.write, if_pos hbounds]
      rfl
    rw [hram]
    split
    next he =>
      have hi : address.toNat = i := by omega
      refine ⟨Word.ofInt value,?_,toNat_ofInt value⟩
      rw [hi, Vector.getElem?_setIfInBounds_self_of_lt (by omega)]
    next he => rw [Vector.getElem?_setIfInBounds_ne (by omega)]

theorem isAtomic_set (register : RegisterName) (value : Int) : (Operation.set register value).IsAtomic cpu := by
  refine ⟨fun _ => ?_,fun _ h => absurd rfl h,fun _ => ?_,by simp⟩
  · rw [result_set]
    simp [Refused]
  · rw [result_set]
    refine ⟨?_,?_⟩
    · cases register with
      | a | d | pc => exact toNat_ofInt value
    · intro other ho
      cases register <;> cases other <;> first | exact absurd rfl ho | rfl

theorem isAtomic_step : Operation.step.IsAtomic cpu := by
  refine ⟨fun _ => ?_,fun _ => ?_,fun _ => trivial,by simp⟩
  · rw [result_step, failed_kept_iff, Refused]
    cases hf : cpu.fetch? with
    | none =>
      have hpc : memorySize ≤ cpu.pc.toNat := Vector.getElem?_eq_none_iff.mp hf
      rw [Processor.step, Processor.obstacle?, hf]
      simp [hpc]
    | some word =>
      obtain ⟨hpc,-⟩ := Vector.getElem?_eq_some_iff.mp hf
      rw [Work.step_of_some hf]
      split
      next h => exact ⟨fun _ => .inr ⟨word,rfl,h⟩,fun _ => ⟨_,rfl⟩⟩
      next h =>
        refine ⟨by simp,?_⟩
        rintro (hle | ⟨_,he,hrest⟩)
        · exact absurd hle (Nat.not_le_of_lt hpc)
        · cases he
          exact absurd hrest h
  · rw [result_step]
    exact kept_of_failed

theorem isAtomic_run (watch : Watch) (budget : Int) : (Operation.run watch budget).IsAtomic cpu := by
  refine ⟨by simp [isRun],by simp [isRun],fun _ => trivial,?_⟩
  intro _ _ he
  cases he
  obtain ⟨n,hn,hexecuted,hsteps,hfault⟩ := Processor.runFrom_steps watch budget budget.toNat 0 [] cpu
  rw [result_run]
  refine ⟨n,hn,hsteps,hexecuted.trans (Nat.zero_add n),?_⟩
  intro fault h
  apply hfault
  change (cpu.run watch budget).fault = some fault
  cases hr : (cpu.run watch budget).fault with
  | none => simp [hr] at h
  | some found => simpa [hr] using h

end Operation

/-- Whatever is done with a machine, it stays in order and counts its instructions.  What it refuses changes nothing,
although it is worked on part by part. -/
theorem machine_stays_sound (operations : List Operation) :
    (history operations).1.IsSound (history operations).2 ∧
      ∀ operation : Operation, operation.IsAtomic (history operations).1 := by
  refine ⟨isSound_foldl operations Processor.isSound_new,?_⟩
  intro operation
  cases operation with
  | load program => exact Operation.isAtomic_load _ program
  | reset clearsMemory => exact Operation.isAtomic_reset _ clearsMemory
  | read address => exact Operation.isAtomic_read _ address
  | write address value => exact Operation.isAtomic_write _ address value
  | set register value => exact Operation.isAtomic_set _ register value
  | step => exact Operation.isAtomic_step _
  | run watch budget => exact Operation.isAtomic_run _ watch budget

end HackToolchain.Machine
