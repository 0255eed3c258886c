import HackToolchain.Proofs.Histories
import Mathlib.Tactic.IntervalCases

/-! # Machines that have halted

A machine has halted where it has left its program, or where it has come to a load of its own address with a jump after
it that is always made.  That is read off the words alone, and the machine can still make steps.  They come to nothing:
a loop goes round in two words for ever, and behind the program there are blank words up to the end of the memory, where
every further step fails.
-/
namespace HackToolchain.Machine

open Processor (isLoad isBareJump writesMemory writesA writesD jumps)

section BareJump

/-- A jump that is always made and keeps nothing.  The nine bits of `choice` say what it computes and from what. -/
def bareJump (choice : BitVec 9) : Word := 1#1 ++ choice ++ 7#6

theorem getLsbD_bareJump (choice : BitVec 9) (i : Nat) : (bareJump choice).getLsbD i =
    if i < 6 then (7#6).getLsbD i else if i < 15 then choice.getLsbD (i - 6) else i == 15 := by
  change BitVec.getLsbD ((1#1 ++ choice) ++ 7#6) i = _
  rw [BitVec.getLsbD_append, BitVec.getLsbD_append]
  split
  · rfl
  · have hi : i - 6 < 9 ↔ i < 15 := by omega
    simp only [hi]
    split
    · rfl
    · rw [BitVec.getLsbD_one, Bool.eq_iff_iff]
      simp only [Nat.lt_one_iff, decide_true, Bool.true_and, decide_eq_true_eq, beq_iff_eq]
      omega

theorem isBareJump_iff {word : Word} : isBareJump word = true ↔ ∃ choice, word = bareJump choice := by
  constructor
  · intro h
    simp only [isBareJump, isLoad, writesA, writesD, writesMemory, BitVec.msb_eq_getLsbD_last, Bool.not_not,
      Bool.and_eq_true, Bool.not_eq_true'] at h
    obtain ⟨⟨⟨⟨⟨⟨h15,h2⟩,h1⟩,h0⟩,h5⟩,h4⟩,h3⟩ := h
    refine ⟨word.extractLsb' 6 9,?_⟩
    apply BitVec.eq_of_getLsbD_eq
    intro i hi
    rw [getLsbD_bareJump]
    split
    · interval_cases i <;> assumption
    · split
      · rw [BitVec.getLsbD_extractLsb', Nat.add_sub_of_le (by omega), decide_eq_true (by omega), Bool.true_and]
      · obtain rfl : i = 15 := by omega
        exact h15
  · rintro ⟨choice,rfl⟩
    simp only [isBareJump, isLoad, writesA, writesD, writesMemory, BitVec.msb_eq_getLsbD_last, getLsbD_bareJump]
    rfl

variable (choice : BitVec 9)

@[simp] theorem isLoad_bareJump : isLoad (bareJump choice) = false := by
  rw [isLoad, BitVec.msb_eq_getLsbD_last, getLsbD_bareJump]
  rfl

@[simp] theorem writesMemory_bareJump : writesMemory (bareJump choice) = false := by
  rw [writesMemory, getLsbD_bareJump]
  rfl

theorem jumps_bareJump (out : Word) : jumps (bareJump choice) out = true := by
  simp only [jumps, getLsbD_bareJump, bne]
  cases out.msb <;> cases out == 0 <;> rfl

/-- A bare jump changes nothing but the program counter. -/
theorem execute_bareJump (cpu : Processor) :
    cpu.execute (bareJump choice) = { cpu with pc := cpu.a, cycles := cpu.cycles + 1 } := by
  have ha : writesA (bareJump choice) = false := by
    rw [writesA, getLsbD_bareJump]
    rfl
  have hd : writesD (bareJump choice) = false := by
    rw [writesD, getLsbD_bareJump]
    rfl
  simp [Processor.execute, ha, hd, jumps_bareJump]

end BareJump

namespace Processor

/-- A load of the address `x` at `x`, and a bare jump after it, both inside the program. -/
structure LoopsAt (cpu : Processor) (x : Nat) : Prop where
  within : x + 1 < cpu.size
  load : cpu.rom[x]? = some (BitVec.ofNat 16 x)
  jump : ∃ choice, cpu.rom[x + 1]? = some (bareJump choice)

/-- The machine is on one of the two words of a loop, and a jump will go back to the other. -/
structure Circles (cpu : Processor) (x : Nat) : Prop where
  loop : cpu.LoopsAt x
  place : cpu.pc.toNat = x ∨ cpu.pc.toNat = x + 1 ∧ cpu.a.toNat = x

/-- The machine after `k` of the blank words behind its program. -/
def drifted (cpu : Processor) (k : Nat) : Processor :=
  { cpu with a := if k = 0 then cpu.a else 0, pc := cpu.pc + BitVec.ofNat 16 k, cycles := cpu.cycles + k }

section Detection

variable {cpu : Processor} {x : Nat}

theorem loopsAt_iff (hs : cpu.size ≤ memorySize) : cpu.loopsAt x = true ↔ cpu.LoopsAt x := by
  simp only [loopsAt, Bool.and_eq_true, decide_eq_true_eq, Option.any_eq_true, beq_iff_eq, isBareJump_iff]
  constructor
  · rintro ⟨⟨hx,word,hw,rfl⟩,_,hj,choice,rfl⟩
    exact ⟨hx,by rw [hw, BitVec.ofNat_toNat, BitVec.setWidth_eq],choice,hj⟩
  · rintro ⟨hx,hl,choice,hj⟩
    unfold memorySize at hs
    refine ⟨⟨hx,_,hl,?_⟩,_,hj,choice,rfl⟩
    rw [BitVec.toNat_ofNat, Nat.mod_eq_of_lt (by omega)]

theorem halted_of_outside (h : cpu.size ≤ cpu.pc.toNat) : cpu.halted = true := by
  simp [halted, h]

/-- Where a machine counts as halted. -/
theorem halted_iff (hs : cpu.size ≤ memorySize) :
    cpu.halted = true ↔ cpu.size ≤ cpu.pc.toNat ∨ ∃ x, cpu.Circles x := by
  by_cases hpc : cpu.size ≤ cpu.pc.toNat
  · simp [halted_of_outside hpc, hpc]
  · obtain ⟨word,hw⟩ : ∃ word, cpu.fetch? = some word := ⟨_,Vector.getElem?_eq_getElem (by omega)⟩
    have hw' : cpu.rom[cpu.pc.toNat]? = some word := hw
    simp only [halted, hpc, hw, if_false, false_or]
    cases hl : isLoad word with
    | true =>
      simp only [if_true, loopsAt_iff hs]
      constructor
      · exact fun h => ⟨_,h,.inl rfl⟩
      · rintro ⟨x,hx,rfl | ⟨he,-⟩⟩
        · exact hx
        · -- A jump is no load.
          obtain ⟨choice,hj⟩ := hx.jump
          rw [← he, hw'] at hj
          cases hj
          simp at hl
    | false =>
      simp only [Bool.false_eq_true, if_false, Bool.and_eq_true, decide_eq_true_eq, beq_iff_eq, loopsAt_iff hs]
      constructor
      · rintro ⟨⟨hpos,hx⟩,ha⟩
        exact ⟨_,hx,.inr ⟨by omega,ha⟩⟩
      · rintro ⟨x,hx,rfl | ⟨he,ha⟩⟩
        · have hload := hx.load
          rw [hw'] at hload
          cases hload
          rw [isLoad_ofNat_of_lt (by omega)] at hl
          cases hl
        · rw [he, Nat.add_sub_cancel]
          exact ⟨⟨Nat.succ_pos x,hx⟩,ha⟩

end Detection

section Steps

variable {cpu : Processor} {x : Nat}

theorem step_of_load {word : Word} (hf : cpu.fetch? = some word) (hl : isLoad word = true) :
    cpu.step = .ok { cpu with a := word, pc := cpu.pc + 1, cycles := cpu.cycles + 1 } := by
  rw [Work.step_of_some hf, if_neg (by simp [hl]), execute, if_pos hl]

/-- A bare jump may read memory, and then needs an address in A. -/
theorem step_of_bareJump {choice : BitVec 9} (hf : cpu.fetch? = some (bareJump choice))
    (ha : cpu.a.toNat < memorySize) : cpu.step = .ok { cpu with pc := cpu.a, cycles := cpu.cycles + 1 } := by
  rw [Work.step_of_some hf, if_neg (fun h => Nat.not_le_of_lt ha h.2.2), execute_bareJump]

theorem toNat_pc_succ (h : cpu.pc.toNat < memorySize) : (cpu.pc + 1).toNat = cpu.pc.toNat + 1 := by
  unfold memorySize at h
  bv_omega

/-- A step in a loop leads to its other word. -/
theorem Circles.step (h : cpu.Circles x) (hs : cpu.size ≤ memorySize) : ∃ next, cpu.step = .ok next ∧
    next.Circles x ∧ next.ram = cpu.ram ∧ next.d = cpu.d ∧ next.pc.toNat = x + (cpu.pc.toNat - x + 1) % 2 := by
  obtain ⟨⟨hx,hl,choice,hj⟩,hplace⟩ := h
  have hlt : x < memorySize := by omega
  rcases hplace with hpc | ⟨hpc,ha⟩
  · have hf : cpu.fetch? = some (BitVec.ofNat 16 x) := by rw [fetch?, hpc, hl]
    have hnext := toNat_pc_succ (hpc.trans_lt hlt)
    rw [hpc] at hnext
    refine ⟨_,step_of_load hf (isLoad_ofNat_of_lt hlt),⟨⟨hx,hl,choice,hj⟩,.inr ⟨hnext,?_⟩⟩,rfl,rfl,?_⟩
    · unfold memorySize at hlt
      exact Nat.mod_eq_of_lt (by omega)
    · rw [hpc, Nat.sub_self]
      exact hnext
  · have hf : cpu.fetch? = some (bareJump choice) := by rw [fetch?, hpc, hj]
    refine ⟨_,step_of_bareJump hf (ha.trans_lt hlt),⟨⟨hx,hl,choice,hj⟩,.inl ha⟩,rfl,rfl,?_⟩
    rw [hpc, Nat.add_sub_cancel_left]
    exact ha

/-- However many steps a machine makes in a loop, none fails and it stays there. -/
theorem Circles.steps (h : cpu.Circles x) (hs : cpu.size ≤ memorySize) (n : Nat) : (cpu.steps n).2 = .ok () ∧
    (cpu.steps n).1.Circles x ∧ (cpu.steps n).1.ram = cpu.ram ∧ (cpu.steps n).1.d = cpu.d ∧
      (cpu.steps n).1.pc.toNat = x + (cpu.pc.toNat - x + n) % 2 := by
  induction n generalizing cpu with
  | zero =>
    refine ⟨rfl,h,rfl,rfl,?_⟩
    change cpu.pc.toNat = _
    rcases h.place with hp | ⟨hp,-⟩
    · omega
    · omega
  | succ n ih =>
    obtain ⟨next,hstep,hnext,hram,hd,hpc⟩ := h.step hs
    obtain ⟨-,hsize,-⟩ := step_kept hstep
    obtain ⟨hok,hcircles,hram',hd',hpc'⟩ := ih hnext (hsize ▸ hs)
    rw [steps_succ_of_ok hstep]
    refine ⟨hok,hcircles,hram'.trans hram,hd'.trans hd,?_⟩
    rw [hpc', hpc]
    omega

theorem step_of_noInstruction (h : memorySize ≤ cpu.pc.toNat) : cpu.step = .error .noInstruction := by
  have hf : cpu.fetch? = none := Vector.getElem?_eq_none h
  rw [step, obstacle?, hf]

theorem toNat_pc_drifted {k : Nat} (h : k ≤ memorySize - cpu.pc.toNat) :
    (cpu.drifted k).pc.toNat = cpu.pc.toNat + k := by
  have hpc := cpu.pc.isLt
  unfold memorySize at h
  change (cpu.pc + BitVec.ofNat 16 k).toNat = _
  rw [BitVec.toNat_add, BitVec.toNat_ofNat]
  omega

theorem drifted_drifted (cpu : Processor) (j k : Nat) : (cpu.drifted j).drifted k = cpu.drifted (j + k) := by
  have ha : (if k = 0 then if j = 0 then cpu.a else 0 else 0) = if j + k = 0 then cpu.a else 0 := by
    split
    next hk => rw [hk, Nat.add_zero]
    next hk => rw [if_neg (by omega)]
  simp only [drifted, ha, BitVec.ofNat_add, BitVec.add_assoc, Nat.add_assoc]

/-- A machine that has left its program goes on over blank words to the end of the memory, and gets no further. -/
theorem steps_outside {completed : Nat} (hs : cpu.IsSound completed) (h : cpu.size ≤ cpu.pc.toNat) (n : Nat) :
    cpu.steps n = (cpu.drifted (min n (memorySize - cpu.pc.toNat)),
      if n ≤ memorySize - cpu.pc.toNat then .ok () else .error .noInstruction) := by
  induction n generalizing cpu completed with
  | zero => simp [steps, drifted]
  | succ n ih =>
    by_cases hpc : memorySize ≤ cpu.pc.toNat
    · rw [steps_succ_of_error (step_of_noInstruction hpc), Nat.sub_eq_zero_of_le hpc]
      simp [drifted]
    · have hlt : cpu.pc.toNat < memorySize := Nat.lt_of_not_le hpc
      have hstep : cpu.step = .ok (cpu.drifted 1) :=
        step_of_load (hs.blank _ h hlt) (by decide : isLoad 0 = true)
      have hnext : (cpu.drifted 1).pc.toNat = cpu.pc.toNat + 1 := toNat_pc_succ hlt
      obtain ⟨hrom,hsize,hcycles⟩ := step_kept hstep
      have hsound := hs.of_kept hrom hsize hcycles
      rw [steps_succ_of_ok hstep, ih hsound (by omega), hnext, drifted_drifted]
      have hmin : 1 + min n (memorySize - (cpu.pc.toNat + 1)) = min (n + 1) (memorySize - cpu.pc.toNat) := by omega
      have hle : n ≤ memorySize - (cpu.pc.toNat + 1) ↔ n + 1 ≤ memorySize - cpu.pc.toNat := by omega
      simp only [hmin, hle]

end Steps

/-- What becomes of a machine that has halted. -/
structure Rests (cpu : Processor) : Prop where
  ram : ∀ n, (cpu.steps n).1.ram = cpu.ram
  d : ∀ n, (cpu.steps n).1.d = cpu.d
  halted : ∀ n, (cpu.steps n).1.halted = true
  /-- Inside its program it goes round in a loop and never fails. -/
  inside : cpu.pc.toNat < cpu.size → ∃ x, ∀ n, (cpu.steps n).2 = .ok () ∧ (cpu.steps n).1.LoopsAt x ∧
    (cpu.steps n).1.pc.toNat = x + (cpu.pc.toNat - x + n) % 2
  /-- Behind its program it only loads zeros, until there is no instruction left. -/
  outside : cpu.size ≤ cpu.pc.toNat → ∀ n, cpu.steps n = (cpu.drifted (min n (memorySize - cpu.pc.toNat)),
    if n ≤ memorySize - cpu.pc.toNat then .ok () else .error .noInstruction)
  ended : ∀ n, memorySize ≤ (cpu.steps n).1.pc.toNat →
    Operation.step.result (cpu.steps n).1 = (.error .noInstruction, (cpu.steps n).1)

section Rests

variable {cpu : Processor}

theorem ended_steps (cpu : Processor) (n : Nat) (h : memorySize ≤ (cpu.steps n).1.pc.toNat) :
    Operation.step.result (cpu.steps n).1 = (.error .noInstruction, (cpu.steps n).1) := by
  rw [Operation.result_step, step_of_noInstruction h]
  rfl

theorem Circles.rests {x : Nat} (h : cpu.Circles x) (hs : cpu.size ≤ memorySize) : cpu.Rests := by
  have hin : cpu.pc.toNat < cpu.size := by
    have hx := h.loop.within
    rcases h.place with hp | ⟨hp,-⟩
    · omega
    · omega
  refine ⟨?_,?_,?_,?_,fun hout => absurd hin (Nat.not_lt_of_le hout),cpu.ended_steps⟩
  · intro n
    obtain ⟨-,-,hram,-⟩ := h.steps hs n
    exact hram
  · intro n
    obtain ⟨-,-,-,hd,-⟩ := h.steps hs n
    exact hd
  · intro n
    obtain ⟨hok,hcircles,-⟩ := h.steps hs n
    obtain ⟨-,hsize,-⟩ := steps_kept (Prod.ext rfl hok)
    exact (halted_iff (hsize ▸ hs)).mpr (.inr ⟨x,hcircles⟩)
  · intro _
    refine ⟨x,fun n => ?_⟩
    obtain ⟨hok,hcircles,-,-,hpc⟩ := h.steps hs n
    exact ⟨hok,hcircles.loop,hpc⟩

theorem rests_outside {completed : Nat} (hs : cpu.IsSound completed) (h : cpu.size ≤ cpu.pc.toNat) : cpu.Rests := by
  have hsteps := steps_outside hs h
  refine ⟨?_,?_,?_,fun hin => absurd h (Nat.not_le_of_lt hin),fun _ => hsteps,cpu.ended_steps⟩
  · intro n
    rw [hsteps n]
    rfl
  · intro n
    rw [hsteps n]
    rfl
  · intro n
    rw [hsteps n]
    apply halted_of_outside
    rw [toNat_pc_drifted (Nat.min_le_right _ _)]
    exact Nat.le_add_right_of_le h

end Rests

end Processor

/-- A machine that has halted, after whatever was done with it, rests: further steps lead round a loop of two words, or
over the blank words behind the program up to the end of the memory. -/
theorem halted_machine_rests (operations : List Operation) (h : (history operations).1.halted = true) :
    (history operations).1.Rests := by
  have hs : (history operations).1.IsSound (history operations).2 :=
    @isSound_foldl operations (.new, 0) Processor.isSound_new
  rcases (Processor.halted_iff hs.size).mp h with hpc | ⟨x,hx⟩
  · exact Processor.rests_outside hs hpc
  · exact hx.rests hs.size

/-- A loop whose jump reads memory. -/
def readingLoop : List Operation := [.load #[0, 0x9C07]]

theorem reading_loop_and_blank_machine_rest :
    (history readingLoop).1.halted = true ∧
      (∀ n, ((history readingLoop).1.steps n).2 = .ok () ∧ ((history readingLoop).1.steps n).1.pc.toNat = n % 2) ∧
      (history []).1.halted = true ∧ ((history []).1.steps 40000).2 = .error .noInstruction ∧
      ((history []).1.steps 40000).1.pc.toNat = 32768 := by
  have hrom : ∀ i < memorySize, (history readingLoop).1.rom[i]? = some (Word.ofInt (#[0, 0x9C07].getD i 0)) :=
    fun i hi => getElem?_ofProgram_of_lt _ hi
  have hloop : (history readingLoop).1.LoopsAt 0 :=
    ⟨by decide,hrom 0 (by decide),0b001110000,hrom 1 (by decide)⟩
  have hhalted : (history readingLoop).1.halted = true :=
    (Processor.halted_iff (by decide)).mpr (.inr ⟨0,hloop,.inl rfl⟩)
  have hblank : (history []).1.halted = true := Processor.halted_of_outside (Nat.zero_le _)
  refine ⟨hhalted,?_,hblank,?_⟩
  · obtain ⟨x,hx⟩ := (halted_machine_rests readingLoop hhalted).inside (by decide)
    have hstart : 0 = x + (0 - x + 0) % 2 := (hx 0).2.2
    obtain rfl : x = 0 := by omega
    intro n
    obtain ⟨hok,-,hpc⟩ := hx n
    refine ⟨hok,hpc.trans ?_⟩
    have hzero : (history readingLoop).1.pc.toNat = 0 := rfl
    omega
  · rw [(halted_machine_rests [] hblank).outside (Nat.zero_le _) 40000]
    exact ⟨rfl,rfl⟩

end HackToolchain.Machine
