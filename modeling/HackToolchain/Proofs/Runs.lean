import Mathlib.Algebra.Ring.Int.Defs
import HackToolchain.Failure
import HackToolchain.Proofs.Histories
import HackToolchain.Proofs.Numerals

/-! # Runs and single steps

A run without an observer is nothing but single steps.  It ends after the first of them that halts the machine or meets
the condition, before the first that fails, or when the budget is used up, whichever comes first.  A run that has used
up its budget may be taken up again with a further one, and ends as if it had had both from the start.
-/
namespace HackToolchain.Machine

/-- A condition on the machine ends the run, and nobody observes it. -/
def Watch.ofCondition (condition? : Option (Processor → Bool)) : Watch :=
  { stopsAt := condition?.map fun condition cpu => .ok (condition cpu) }

/-- A limit that is reached counts the cycles of earlier runs as well. -/
def Fault.after (n : Nat) : Fault → Fault
  | .outOfCycles budget pc => .outOfCycles (n + budget) pc
  | fault => fault

/-- A run that takes up another one after `n` steps. -/
def Run.after (n : Nat) (run : Run) : Run :=
  { run with executed := n + run.executed, fault := run.fault.map (Fault.after n) }

namespace Processor

/-- A run ends at this machine. -/
def Stops (condition? : Option (Processor → Bool)) (cpu : Processor) : Prop :=
  cpu.halted = true ∨ ∃ condition, condition? = some condition ∧ condition cpu = true

/-- No run ends within fewer than `k` steps. -/
def GoesOn (condition? : Option (Processor → Bool)) (cpu : Processor) (k : Nat) : Prop :=
  ∀ j < k, ∀ later, cpu.steps j = (later, .ok ()) → ¬later.Stops condition?

/-- How a run of at most `fuel` steps ends: after how many steps, with which machine and which fault. -/
inductive Ends (condition? : Option (Processor → Bool)) (budget : Int) (fuel : Nat) (cpu : Processor) :
    Nat → Processor → Option Fault → Prop
  | stopped {k : Nat} {last : Processor} (reached : cpu.steps k = (last, .ok ())) (goesOn : cpu.GoesOn condition? k)
    (stops : last.Stops condition?) (within : k ≤ fuel) : Ends condition? budget fuel cpu k last none
  | limited {last : Processor} (reached : cpu.steps fuel = (last, .ok ())) (goesOn : cpu.GoesOn condition? (fuel + 1)) :
    Ends condition? budget fuel cpu fuel last (some (.outOfCycles budget last.pc.toNat))
  | failed {k : Nat} {last : Processor} {fault : Fault} (reached : cpu.steps k = (last, .ok ()))
    (goesOn : cpu.GoesOn condition? (k + 1)) (within : k < fuel) (fails : last.step = .error fault) :
    Ends condition? budget fuel cpu k last (some fault)

variable {condition? : Option (Processor → Bool)} {cpu next middle last : Processor}

section Single

variable {budget : Int} {executed : Nat} {seen : List (Word × Word)}

theorem stops_ofCondition (h : cpu.Stops condition?) : (Watch.ofCondition condition?).stops cpu = .ok true := by
  unfold Watch.stops
  split
  next => rfl
  next hh =>
    obtain ⟨condition,rfl,hc⟩ := h.resolve_left hh
    exact congrArg Except.ok hc

theorem goesOn_ofCondition (h : ¬cpu.Stops condition?) : (Watch.ofCondition condition?).stops cpu = .ok false := by
  rw [Stops, not_or, not_exists] at h
  rw [Watch.stops, if_neg h.1]
  cases condition? with
  | none => rfl
  | some condition =>
    have hc := h.2 condition
    rw [eq_self, true_and, Bool.not_eq_true] at hc
    exact congrArg Except.ok hc

theorem runFrom_of_stops (h : cpu.Stops condition?) (fuel : Nat) :
    cpu.runFrom (.ofCondition condition?) budget fuel executed seen = ⟨cpu,executed,seen,none⟩ := by
  rw [runFrom, stops_ofCondition h]

theorem runFrom_of_limit (h : ¬cpu.Stops condition?) : cpu.runFrom (.ofCondition condition?) budget 0 executed seen =
    ⟨cpu,executed,seen,some (.outOfCycles budget cpu.pc.toNat)⟩ := by
  rw [runFrom, goesOn_ofCondition h]
  rfl

theorem runFrom_of_error (h : ¬cpu.Stops condition?) {fault : Fault} (hs : cpu.step = .error fault) (fuel : Nat) :
    cpu.runFrom (.ofCondition condition?) budget (fuel + 1) executed seen = ⟨cpu,executed,seen,some fault⟩ := by
  rw [step] at hs
  rw [runFrom, goesOn_ofCondition h]
  cases ho : cpu.obstacle? with
  | some found =>
    rw [ho] at hs
    cases hs
    rfl
  | none =>
    rw [ho] at hs
    cases hs

theorem runFrom_of_ok (h : ¬cpu.Stops condition?) (hs : cpu.step = .ok next) (fuel : Nat) :
    cpu.runFrom (.ofCondition condition?) budget (fuel + 1) executed seen =
      next.runFrom (.ofCondition condition?) budget fuel (executed + 1) seen := by
  rw [step] at hs
  rw [runFrom, goesOn_ofCondition h]
  cases ho : cpu.obstacle? with
  | some fault =>
    rw [ho] at hs
    cases hs
  | none =>
    rw [ho] at hs
    cases hs
    rfl

/-- A run goes through the steps at which it does not end. -/
theorem runFrom_of_steps {k : Nat} (hk : cpu.steps k = (last, .ok ())) (hg : cpu.GoesOn condition? k) (fuel : Nat) :
    cpu.runFrom (.ofCondition condition?) budget (k + fuel) executed seen =
      last.runFrom (.ofCondition condition?) budget fuel (executed + k) seen := by
  induction k generalizing cpu executed with
  | zero =>
    cases hk
    rw [Nat.zero_add, Nat.add_zero]
  | succ k ih =>
    obtain ⟨next,hs,hn⟩ := steps_succ_ok.mp hk
    have hnext : next.GoesOn condition? k := by
      intro j hj later hl
      exact hg (j + 1) (Nat.succ_lt_succ hj) later (steps_succ_ok.mpr ⟨next,hs,hl⟩)
    rw [Nat.add_right_comm, runFrom_of_ok (hg 0 (Nat.succ_pos k) cpu rfl) hs, ih hn hnext, Nat.add_right_comm,
      Nat.add_assoc]

/-- How a run is said to end is how it ends. -/
theorem runFrom_of_ends {fuel k : Nat} {fault? : Option Fault} (h : Ends condition? budget fuel cpu k last fault?) :
    cpu.runFrom (.ofCondition condition?) budget fuel executed seen = ⟨last,executed + k,seen,fault?⟩ := by
  cases h with
  | stopped reached goesOn stops within =>
    obtain ⟨rest,rfl⟩ := Nat.exists_eq_add_of_le within
    rw [runFrom_of_steps reached goesOn, runFrom_of_stops stops]
  | limited reached goesOn =>
    have hsteps := @runFrom_of_steps _ _ _ budget executed seen _ reached
      (fun j hj => goesOn j (Nat.lt_succ_of_lt hj)) 0
    rw [Nat.add_zero] at hsteps
    rw [hsteps, runFrom_of_limit (goesOn fuel (Nat.lt_succ_self fuel) last reached)]
  | failed reached goesOn within fails =>
    obtain ⟨rest,rfl⟩ := Nat.exists_eq_add_of_lt within
    rw [Nat.add_assoc, runFrom_of_steps reached (fun j hj => goesOn j (Nat.lt_succ_of_lt hj)),
      runFrom_of_error (goesOn k (Nat.lt_succ_self k) last reached) fails]

end Single

section Endings

variable {budget : Int}

theorem goesOn_add {m k : Nat} (hm : cpu.steps m = (middle, .ok ())) (hg : cpu.GoesOn condition? m)
    (hk : middle.GoesOn condition? k) : cpu.GoesOn condition? (m + k) := by
  intro j hj later hl
  by_cases hlt : j < m
  · exact hg j hlt later hl
  · obtain ⟨i,rfl⟩ := Nat.exists_eq_add_of_le (Nat.le_of_not_lt hlt)
    rw [steps_add_of_ok hm] at hl
    exact hk i (by omega) later hl

theorem step_error_cases {fault : Fault} (h : cpu.step = .error fault) :
    fault = .noInstruction ∨ fault = .addressOutOfRange cpu.a.toNat cpu.pc.toNat := by
  cases hf : cpu.fetch? with
  | none =>
    rw [step, obstacle?, hf] at h
    cases h
    exact .inl rfl
  | some word =>
    rw [Work.step_of_some hf] at h
    split at h
    · cases h
      exact .inr rfl
    · cases h

theorem after_of_step {fault : Fault} (h : cpu.step = .error fault) (n : Nat) : fault.after n = fault := by
  rcases step_error_cases h with rfl | rfl
  · rfl
  · rfl

/-- A run that is taken up after `m` steps ends as it would have from the start. -/
theorem Ends.add {m fuel k : Nat} {fault? : Option Fault} (hm : cpu.steps m = (middle, .ok ()))
    (hg : cpu.GoesOn condition? m) (h : Ends condition? budget fuel middle k last fault?) :
    Ends condition? (m + budget) (m + fuel) cpu (m + k) last (fault?.map (Fault.after m)) := by
  cases h with
  | stopped reached goesOn stops within =>
    exact .stopped ((steps_add_of_ok hm k).trans reached) (goesOn_add hm hg goesOn) stops (Nat.add_le_add_left within m)
  | limited reached goesOn =>
    have hall : cpu.GoesOn condition? (m + (fuel + 1)) := goesOn_add hm hg goesOn
    exact .limited ((steps_add_of_ok hm fuel).trans reached) hall
  | failed reached goesOn within fails =>
    have hall : cpu.GoesOn condition? (m + (k + 1)) := goesOn_add hm hg goesOn
    rw [Option.map_some, after_of_step fails]
    exact .failed ((steps_add_of_ok hm k).trans reached) hall (Nat.add_lt_add_left within m) fails

theorem goesOn_zero (condition? : Option (Processor → Bool)) (cpu : Processor) : cpu.GoesOn condition? 0 :=
  fun j hj => absurd hj (Nat.not_lt_zero j)

theorem goesOn_one (h : ¬cpu.Stops condition?) : cpu.GoesOn condition? 1 := by
  intro j hj later hl
  obtain rfl : j = 0 := by omega
  cases hl
  exact h

/-- Every run ends in one of the three ways. -/
theorem exists_ends (condition? : Option (Processor → Bool)) (budget : Int) (fuel : Nat) (cpu : Processor) :
    ∃ k last fault?, Ends condition? budget fuel cpu k last fault? := by
  induction fuel generalizing budget cpu with
  | zero =>
    by_cases hstops : cpu.Stops condition?
    · exact ⟨0,cpu,none,.stopped rfl (goesOn_zero condition? cpu) hstops (Nat.le_refl 0)⟩
    · exact ⟨0,cpu,_,.limited rfl (goesOn_one hstops)⟩
  | succ fuel ih =>
    by_cases hstops : cpu.Stops condition?
    · exact ⟨0,cpu,none,.stopped rfl (goesOn_zero condition? cpu) hstops (Nat.zero_le _)⟩
    · cases hs : cpu.step with
      | error fault => exact ⟨0,cpu,_,.failed rfl (goesOn_one hstops) (Nat.succ_pos fuel) hs⟩
      | ok next =>
        -- One step of the budget is for the step to `next`.
        obtain ⟨k,last,fault?,h⟩ := ih (budget - 1) next
        have hadd := h.add (steps_succ_ok.mpr ⟨next,hs,rfl⟩) (goesOn_one hstops)
        have hbudget : ((1 : Nat) : Int) + (budget - 1) = budget := by omega
        rw [hbudget, Nat.add_comm 1 fuel] at hadd
        exact ⟨_,_,_,hadd⟩

/-- Only a run that has made all its steps reaches its limit. -/
theorem Ends.of_limit {fuel k : Nat} {limit pc : Int}
    (h : Ends condition? budget fuel cpu k last (some (.outOfCycles limit pc))) :
    cpu.steps fuel = (last, .ok ()) ∧ cpu.GoesOn condition? (fuel + 1) := by
  cases h with
  | limited reached goesOn => exact ⟨reached,goesOn⟩
  | failed reached goesOn within fails =>
    rcases step_error_cases fails with he | he
    · cases he
    · cases he

theorem run_eq_iff {budget : Int} {run : Run} : cpu.run (.ofCondition condition?) budget = run ↔
    run.seen = [] ∧ Ends condition? budget budget.toNat cpu run.executed run.cpu run.fault := by
  constructor
  · rintro rfl
    obtain ⟨k,last,fault?,h⟩ := exists_ends condition? budget budget.toNat cpu
    have hrun : cpu.run (.ofCondition condition?) budget = ⟨last,0 + k,[],fault?⟩ := runFrom_of_ends h
    rw [hrun, Nat.zero_add]
    exact ⟨rfl,h⟩
  · obtain ⟨last,k,seen,fault?⟩ := run
    rintro ⟨rfl,h⟩
    have hrun : cpu.run (.ofCondition condition?) budget = ⟨last,0 + k,[],fault?⟩ := runFrom_of_ends h
    rw [hrun, Nat.zero_add]

end Endings

section Told

theorem isPrintableInteger_toNat (word : Word) : Text.isPrintableInteger word.toNat = true :=
  Text.isPrintableInteger_of_lt (by decide) (word.isLt.trans (by decide : 2 ^ 16 < 10 ^ 5))

theorem worded_machine (fault : Fault) : (Failure.machine fault).worded =
    if (Failure.machine fault).numbers.all Text.isPrintableInteger then .machine fault
    else .numeral .tooLongToPrint := by
  rw [Failure.worded, Failure.obstacle?]
  cases (Failure.machine fault).numbers.all Text.isPrintableInteger <;> rfl

theorem worded_of_step {fault : Fault} (h : cpu.step = .error fault) :
    (Failure.machine fault).worded = .machine fault := by
  rw [worded_machine]
  rcases step_error_cases h with rfl | rfl
  · rfl
  · simp [Failure.numbers, isPrintableInteger_toNat]

/-- The fault that ends a run can be told, if the budget can. -/
theorem Ends.worded {budget : Int} {fuel k : Nat} {fault : Fault}
    (h : Ends condition? budget fuel cpu k last (some fault))
    (hp : ∀ pc, fault = .outOfCycles budget pc → Text.isPrintableInteger budget = true) :
    (Failure.machine fault).worded = .machine fault := by
  cases h with
  | limited reached goesOn =>
    rw [worded_machine, if_pos]
    simp [Failure.numbers, isPrintableInteger_toNat, hp _ rfl]
  | failed reached goesOn within fails => exact worded_of_step fails

end Told

/-- A run is made of single steps. -/
structure IteratesSteps (condition? : Option (Processor → Bool)) (cpu : Processor) : Prop where
  ends : ∀ (budget : Int) (run : Run), cpu.run (.ofCondition condition?) budget = run ↔
    run.seen = [] ∧ Ends condition? budget budget.toNat cpu run.executed run.cpu run.fault
  /-- A fault can be told, unless it names a budget that is too long to print. -/
  told : ∀ (budget : Int) (fault : Fault), (cpu.run (.ofCondition condition?) budget).fault = some fault →
    (∀ pc, fault = .outOfCycles budget pc → Text.isPrintableInteger budget = true) →
      (Failure.machine fault).worded = .machine fault
  untold : ∀ (budget : Int) (pc : Int), (cpu.run (.ofCondition condition?) budget).fault = some (.outOfCycles budget pc) →
    Text.isPrintableInteger budget = false → (Failure.machine (.outOfCycles budget pc)).worded = .numeral .tooLongToPrint
  /-- A run that has reached its limit may be taken up again. -/
  resumed : ∀ (n m : Nat) (pc : Int), (cpu.run (.ofCondition condition?) n).fault = some (.outOfCycles n pc) →
    cpu.run (.ofCondition condition?) (n + m) =
      ((cpu.run (.ofCondition condition?) n).cpu.run (.ofCondition condition?) m).after n

theorem resumed_run {n : Nat} {pc : Int} (h : (cpu.run (.ofCondition condition?) n).fault = some (.outOfCycles n pc))
    (m : Nat) : cpu.run (.ofCondition condition?) (n + m) =
      ((cpu.run (.ofCondition condition?) n).cpu.run (.ofCondition condition?) m).after n := by
  obtain ⟨-,hfirst⟩ := run_eq_iff.mp (Eq.refl (cpu.run (.ofCondition condition?) n))
  rw [h] at hfirst
  obtain ⟨hreached,hgoesOn⟩ := hfirst.of_limit
  obtain ⟨hseen,hrest⟩ := run_eq_iff.mp
    (Eq.refl ((cpu.run (.ofCondition condition?) n).cpu.run (.ofCondition condition?) m))
  have hall := hrest.add hreached fun j hj => hgoesOn j (Nat.lt_succ_of_lt hj)
  have hfuel : (n : Int).toNat + (m : Int).toNat = ((n : Int) + m).toNat := by omega
  rw [hfuel, Int.toNat_natCast] at hall
  exact run_eq_iff.mpr ⟨hseen,hall⟩

end Processor

/-- A run without an observer is single steps up to the first machine at which it stops, up to the first step that
fails, or up to its budget, and it can be made in two parts. -/
theorem runs_iterate_steps (condition? : Option (Processor → Bool)) (cpu : Processor) :
    cpu.IteratesSteps condition? := by
  refine ⟨fun budget run => Processor.run_eq_iff,?_,?_,fun n m pc h => Processor.resumed_run h m⟩
  · intro budget fault hf hp
    obtain ⟨-,hends⟩ := Processor.run_eq_iff.mp (Eq.refl (cpu.run (.ofCondition condition?) budget))
    rw [hf] at hends
    exact hends.worded hp
  · intro budget pc _ hp
    rw [Processor.worded_machine, if_neg (by simp [Failure.numbers, hp])]

-- A blank program of one word, run with a budget of 4301 digits below zero.
example : (({ Processor.new with size := 1 }.run {} (-10 ^ 4300)).fault.map fun fault =>
    (Failure.machine fault).worded) = some (.numeral .tooLongToPrint) := by
  decide +kernel

end HackToolchain.Machine
