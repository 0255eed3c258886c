import HackToolchain.Machine.Processor

/-! # Running a program

A run repeats single steps until the machine halts, a condition on its state holds or an observer calls a stop.  The
budget of steps is looked at last, so a run that has reached its end needs none of it.
-/
namespace HackToolchain.Machine

/-- What may end a run early: a condition on the machine, and an observer that sees every instruction with its
address and answers whether to go on. -/
structure Watch where
  stopsAt : Option (Processor → Except Fault Bool) := none
  observer : Option (Word → Word → Bool) := none

/-- A finished run: the machine, the steps made, what the observer saw with the latest first, and the fault that
ended it, if one did. -/
structure Run where
  cpu : Processor
  executed : Nat
  seen : List (Word × Word)
  fault : Option Fault

def Watch.stops (watch : Watch) (cpu : Processor) : Except Fault Bool :=
  if cpu.halted then .ok true
  else match watch.stopsAt with
    | some condition => condition cpu
    | none => .ok false

/-- What the observer sees now, and whether it lets the run go on. -/
def Watch.observe (watch : Watch) (cpu : Processor) (seen : List (Word × Word)) : List (Word × Word) × Bool :=
  match watch.observer, cpu.rom[cpu.pc.toNat]? with
  | some goesOn, some word => ((cpu.pc, word) :: seen, goesOn cpu.pc word)
  | _, _ => (seen, true)

/-- Carries a run on for at most `fuel` more steps of a budget of `budget`. -/
def Processor.runFrom (watch : Watch) (budget : Int) (fuel executed : Nat) (seen : List (Word × Word))
    (cpu : Processor) : Run :=
  match watch.stops cpu with
  | .error fault => ⟨cpu, executed, seen, some fault⟩
  | .ok true => ⟨cpu, executed, seen, none⟩
  | .ok false =>
    let (seen, goesOn) := watch.observe cpu seen
    if goesOn then
      match fuel with
      | 0 => ⟨cpu, executed, seen, some (.outOfCycles budget cpu.pc.toNat)⟩
      | fuel + 1 =>
        match cpu.obstacle? with
        | some fault => ⟨cpu, executed, seen, some fault⟩
        | none => runFrom watch budget fuel (executed + 1) seen cpu.advance
    else ⟨cpu, executed, seen, none⟩

def Processor.run (cpu : Processor) (watch : Watch) (budget : Int) : Run :=
  cpu.runFrom watch budget budget.toNat 0 []

/-- Makes single steps, as many as asked for or up to the first that fails. -/
def Processor.steps (cpu : Processor) : Nat → Processor × Except Fault Unit
  | 0 => (cpu, .ok ())
  | n + 1 =>
    match cpu.obstacle? with
    | some fault => (cpu, .error fault)
    | none => cpu.advance.steps n

/-- Writes words to memory one after another. -/
def Processor.writes (cpu : Processor) (entries : List (Int × Word)) : Except Fault Processor :=
  entries.foldlM (fun cpu (address, value) => cpu.write address value) cpu

/-- The budget of a run that names none. -/
def defaultBudget : Int := 1000000

end HackToolchain.Machine
