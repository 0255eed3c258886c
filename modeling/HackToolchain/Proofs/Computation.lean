import HackToolchain.Asm.Instruction
import HackToolchain.Machine.Processor
import Mathlib.Tactic.Common

/-! # What a computing instruction computes

A computing instruction is read back from its own text, and its code makes the processor store the value that its
text spells, in the registers that it names, and jump on the condition that it names.
-/
namespace HackToolchain.Asm

open Machine (Word alu)

section Text

theorem splitAtFirst_append {mark : Char} {before : List Char} (h : mark ∉ before) (after : List Char) :
    splitAtFirst mark (before ++ mark :: after) = some (before, after) := by
  induction before with
  | nil => simp [splitAtFirst]
  | cons c rest ih =>
    obtain ⟨hc,hr⟩ := List.ne_and_not_mem_of_not_mem_cons h
    simp [splitAtFirst, Ne.symm hc, ih hr]

theorem splitAtFirst_eq_none {mark : Char} {text : List Char} (h : mark ∉ text) : splitAtFirst mark text = none := by
  induction text with
  | nil => rfl
  | cons c rest ih =>
    obtain ⟨hc,hr⟩ := List.ne_and_not_mem_of_not_mem_cons h
    simp [splitAtFirst, Ne.symm hc, ih hr]

def Comp.isListed (comp : Comp) : Bool := (table.lookup comp).isSome

theorem Comp.ofChars?_chars (comp : Comp) : ofChars? comp.chars = if comp.isListed then some comp else none := by
  cases comp with
  | zero | one | negOne => rfl
  | copy r | not r | neg r | succ r | onePlus r | pred r => cases r <;> rfl
  | add x y | sub x y | and x y | or x y => cases x <;> cases y <;> rfl

theorem Comp.not_mem_chars (comp : Comp) :
    '=' ∉ comp.chars ∧ ';' ∉ comp.chars ∧ '(' ∉ comp.chars ∧ '@' ∉ comp.chars := by
  have hr : ∀ r : Register, '=' ≠ r.char ∧ ';' ≠ r.char ∧ '(' ≠ r.char ∧ '@' ≠ r.char := by
    intro r
    cases r <;> decide
  cases comp <;> simp [chars, hr]

theorem Dest.not_mem_chars (dest : Dest) : '=' ∉ dest.chars ∧ '(' ∉ dest.chars ∧ '@' ∉ dest.chars := by
  rcases dest with ⟨_|_,_|_,_|_⟩ <;> decide

theorem Dest.ofChars?_chars (dest : Dest) : ofChars? dest.chars = some dest := by
  rcases dest with ⟨_|_,_|_,_|_⟩ <;> rfl

theorem Jump.ofChars?_chars (jump : Jump) : ofChars? jump.chars = some jump := by
  cases jump <;> rfl

theorem Jump.not_mem_chars (jump : Jump) : '=' ∉ jump.chars := by
  cases jump <;> decide

namespace Compute

/-- The text of an instruction with the given parts. -/
def joined (dest : Option (List Char)) (comp : List Char) (jump : Option (List Char)) : List Char :=
  dest.elim [] (· ++ ['=']) ++ comp ++ jump.elim [] (';' :: ·)

theorem parts_joined {dest jump : Option (List Char)} {comp : List Char} (hd : ∀ text ∈ dest, '=' ∉ text)
    (hj : ∀ text ∈ jump, '=' ∉ text) (he : '=' ∉ comp) (hs : ';' ∉ comp) :
    parts (joined dest comp jump) = (dest, comp, jump) := by
  have hrest : '=' ∉ comp ++ jump.elim [] (';' :: ·) := by
    cases jump with
    | none => simpa using he
    | some text => simpa [he] using hj text rfl
  have hsplit : splitAtFirst ';' (comp ++ jump.elim [] (';' :: ·)) = jump.map fun text => (comp, text) := by
    cases jump with
    | none => simpa using splitAtFirst_eq_none hs
    | some text => exact splitAtFirst_append hs text
  cases dest with
  | none =>
    have hequals := splitAtFirst_eq_none hrest
    cases jump <;> simp_all [parts, joined]
  | some text =>
    have hequals := splitAtFirst_append (hd text rfl) (comp ++ jump.elim [] (';' :: ·))
    cases jump <;> simp_all [parts, joined]

theorem parts_chars (compute : Compute) :
    parts compute.chars = (if compute.dest = .none then none else some compute.dest.chars, compute.comp.chars,
      compute.jump.map Jump.chars) := by
  obtain ⟨dest,comp,jump⟩ := compute
  obtain ⟨he,hs,-,-⟩ := comp.not_mem_chars
  have hc : chars ⟨dest,comp,jump⟩ =
      joined (if dest = .none then none else some dest.chars) comp.chars (jump.map Jump.chars) := by
    by_cases hd : dest = .none <;> cases jump <;> simp [chars, joined, hd]
  rw [hc]
  apply parts_joined _ _ he hs
  · intro text ht
    split at ht
    · cases ht
    · cases ht
      exact dest.not_mem_chars.1
  · intro text ht
    obtain ⟨jump,-,rfl⟩ := Option.map_eq_some_iff.mp ht
    exact jump.not_mem_chars

/-- An instruction is read back from its text when the machine has its computation, and refused otherwise. -/
theorem parse_chars (compute other : Compute) :
    parse compute.chars = .ok other ↔ compute.comp.isListed = true ∧ other = compute := by
  have hd : destination? (if compute.dest = .none then none else some compute.dest.chars) = some compute.dest := by
    rcases compute with ⟨⟨_|_,_|_,_|_⟩,_,_⟩ <;> rfl
  have hj : jump? (compute.jump.map Jump.chars) = some compute.jump := by
    rcases compute with ⟨_,_,_|jump⟩
    · rfl
    · simp [jump?, jump.ofChars?_chars]
  rw [parse, parts_chars]
  simp only [Comp.ofChars?_chars, hd, hj]
  by_cases hl : compute.comp.isListed = true
  · simp only [hl, ↓reduceIte, Except.ok.injEq, true_and]
    exact eq_comm
  · simp [hl]

end Compute

end Text

section Value

def Register.value (a d m : Word) : Register → Word
  | .a => a
  | .d => d
  | .m => m

/-- The value that a computation spells, from the two registers and the memory word at A. -/
def Comp.value (a d m : Word) : Comp → Word
  | .zero => 0
  | .one => 1
  | .negOne => -1
  | .copy r => r.value a d m
  | .not r => ~~~r.value a d m
  | .neg r => -r.value a d m
  | .succ r | .onePlus r => r.value a d m + 1
  | .pred r => r.value a d m - 1
  | .add x y => x.value a d m + y.value a d m
  | .sub x y => x.value a d m - y.value a d m
  | .and x y => x.value a d m &&& y.value a d m
  | .or x y => x.value a d m ||| y.value a d m

def Comp.usesMemory : Comp → Bool
  | .zero | .one | .negOne => false
  | .copy r | .not r | .neg r | .succ r | .onePlus r | .pred r => r == .m
  | .add x y | .sub x y | .and x y | .or x y => x == .m || y == .m

/-- A value of the sign that the jump asks for. -/
def Jump.isTaken (out : Word) : Jump → Bool
  | .jgt => 0 < out.toInt
  | .jeq => out.toInt = 0
  | .jge => 0 ≤ out.toInt
  | .jlt => out.toInt < 0
  | .jne => out.toInt ≠ 0
  | .jle => out.toInt ≤ 0
  | .jmp => true

theorem Comp.code_lt (comp : Comp) : comp.code < 128 := by
  cases comp with
  | zero | one | negOne => decide
  | copy r | not r | neg r | succ r | onePlus r | pred r => cases r <;> decide
  | add x y | sub x y | and x y | or x y => cases x <;> cases y <;> decide

theorem Dest.code_lt (dest : Dest) : dest.code < 8 := by
  rcases dest with ⟨_|_,_|_,_|_⟩ <;> decide

theorem Jump.code_lt (jump : Option Jump) : jump.elim 0 Jump.code < 8 := by
  rcases jump with _ | _ | _ | _ | _ | _ | _ | _ <;> decide

theorem Compute.code_eq (instruction : Compute) : instruction.code =
    0xE000 + instruction.comp.code * 64 + instruction.dest.code * 8 + instruction.jump.elim 0 Jump.code := by
  obtain ⟨dest,comp,jump⟩ := instruction
  cases jump <;> rfl

/-- The top three bits of the word of a computing instruction are set. -/
theorem Compute.code_bounds (instruction : Compute) : 0xE000 ≤ instruction.code ∧ instruction.code ≤ 0xFFFF := by
  have hcomp := instruction.comp.code_lt
  have hdest := instruction.dest.code_lt
  have hjump := Jump.code_lt instruction.jump
  rw [instruction.code_eq]
  omega

theorem Comp.testBit_code {comp : Comp} (h : comp.isListed = true) : comp.code.testBit 6 = comp.usesMemory := by
  revert h
  cases comp with
  | zero | one | negOne => decide
  | copy r | not r | neg r | succ r | onePlus r | pred r => cases r <;> decide
  | add x y | sub x y | and x y | or x y => cases x <;> cases y <;> decide

theorem alu_controls (x y : Word) :
    alu 0b101010#6 x y = 0 ∧ alu 0b111111#6 x y = 1 ∧ alu 0b111010#6 x y = -1 ∧
    alu 0b001100#6 x y = x ∧ alu 0b110000#6 x y = y ∧ alu 0b001101#6 x y = ~~~x ∧ alu 0b110001#6 x y = ~~~y ∧
    alu 0b001111#6 x y = -x ∧ alu 0b110011#6 x y = -y ∧ alu 0b011111#6 x y = x + 1 ∧ alu 0b110111#6 x y = y + 1 ∧
    alu 0b001110#6 x y = x - 1 ∧ alu 0b110010#6 x y = y - 1 ∧ alu 0b000010#6 x y = x + y ∧
    alu 0b010011#6 x y = x - y ∧ alu 0b000111#6 x y = y - x ∧ alu 0b000000#6 x y = x &&& y ∧
    alu 0b010101#6 x y = x ||| y := by
  have hx : x &&& ~~~0#16 = x := BitVec.and_allOnes
  have hy : ~~~0#16 &&& y = y := BitVec.allOnes_and
  refine ⟨rfl,?_,?_,hx,hy,congrArg (~~~·) hx,congrArg (~~~·) hy,?_,?_,?_,?_,?_,?_,rfl,?_,?_,rfl,?_⟩
  · change ~~~(~~~0#16 + ~~~0#16) = 1
    decide
  · change ~~~0#16 + 0#16 = -1
    decide
  · change ~~~(x + ~~~0) = -x
    bv_omega
  · change ~~~(~~~0 + y) = -y
    bv_omega
  · change ~~~(~~~x + ~~~0) = x + 1
    bv_omega
  · change ~~~(~~~0 + ~~~y) = y + 1
    bv_omega
  · change x + ~~~0 = x - 1
    bv_omega
  · change ~~~0 + y = y - 1
    bv_omega
  · change ~~~(~~~x + y) = x - y
    bv_omega
  · change ~~~(x + ~~~y) = y - x
    bv_omega
  · change ~~~(~~~x &&& ~~~y) = x ||| y
    rw [← BitVec.not_or, BitVec.not_not]

theorem Comp.alu_of_mem_table (a d m : Word) : ∀ row ∈ table,
    alu (BitVec.ofNat 6 row.2) d (if row.1.usesMemory then m else a) = row.1.value a d m := by
  have ha := alu_controls d a
  have hm := alu_controls d m
  simp [table, usesMemory, value, Register.value, ha, hm, BitVec.add_comm, BitVec.and_comm, BitVec.or_comm]

/-- The code of a computation makes the unit compute what the computation spells. -/
theorem Comp.alu_code {comp : Comp} (h : comp.isListed = true) (a d m : Word) :
    alu (BitVec.ofNat 6 comp.code) d (if comp.usesMemory then m else a) = comp.value a d m := by
  obtain ⟨code,hc⟩ := Option.isSome_iff_exists.mp h
  have hm : (comp, code) ∈ table := by
    obtain ⟨_,_,ht,_⟩ := List.lookup_eq_some_iff.mp hc
    simp [ht]
  have he : comp.code = code := by simp [Comp.code, hc]
  rw [he]
  exact alu_of_mem_table a d m _ hm

end Value

end HackToolchain.Asm

namespace HackToolchain.Machine.Processor

open Asm (Compute Dest Jump)

/-- A computing word holds seven bits of computation, three of destination and three of jump. -/
theorem fields {comp dest jump : Nat} (hc : comp < 128) (hd : dest < 8) (hj : jump < 8) {word : Word}
    (h : word = BitVec.ofNat 16 (0xE000 + comp * 64 + dest * 8 + jump)) :
    isLoad word = false ∧ readsMemory word = comp.testBit 6 ∧ word.extractLsb' 6 6 = BitVec.ofNat 6 comp ∧
      writesA word = dest.testBit 2 ∧ writesD word = dest.testBit 1 ∧ writesMemory word = dest.testBit 0 ∧
      word.getLsbD 2 = jump.testBit 2 ∧ word.getLsbD 1 = jump.testBit 1 ∧ word.getLsbD 0 = jump.testBit 0 := by
  have hn : word.toNat = 0xE000 + comp * 64 + dest * 8 + jump := by
    rw [h, BitVec.toNat_ofNat]
    omega
  have hbit : ∀ i, word.getLsbD i = (0xE000 + comp * 64 + dest * 8 + jump).testBit i := by
    intro i
    rw [← hn]
    rfl
  simp only [isLoad, readsMemory, writesA, writesD, writesMemory, BitVec.msb_eq_getLsbD_last, hbit,
    Nat.testBit_eq_decide_div_mod_eq]
  refine ⟨?_,?_,?_,?_,?_,?_,?_,?_,?_⟩
  case refine_3 =>
    apply BitVec.eq_of_toNat_eq
    rw [BitVec.extractLsb'_toNat, hn, BitVec.toNat_ofNat, Nat.shiftRight_eq_div_pow]
    omega
  all_goals simp; omega

/-- The bits of a jump choose the signs of the values that jump. -/
theorem jumps_eq {word out : Word} {jump : Option Jump}
    (h2 : word.getLsbD 2 = (jump.elim 0 Jump.code).testBit 2) (h1 : word.getLsbD 1 = (jump.elim 0 Jump.code).testBit 1)
    (h0 : word.getLsbD 0 = (jump.elim 0 Jump.code).testBit 0) :
    jumps word out = jump.elim false (Jump.isTaken out) := by
  have hn : out.msb = decide (out.toInt < 0) := BitVec.msb_eq_toInt
  have hz : (out == 0) = decide (out.toInt = 0) := by
    rw [Bool.eq_iff_iff, beq_iff_eq, decide_eq_true_iff, ← BitVec.toInt_inj]
    rfl
  rw [jumps, h2, h1, h0, bne, hn, hz]
  cases jump with
  | none => rfl
  | some jump =>
    rw [Bool.eq_iff_iff]
    cases jump <;> simp [Jump.code, Jump.isTaken, Nat.testBit_eq_decide_div_mod_eq] <;> omega

/-- The processor takes a word apart into the parts of an instruction. -/
structure Decodes (word : Word) (instruction : Compute) : Prop where
  isLoad : isLoad word = false
  readsMemory : readsMemory word = instruction.comp.usesMemory
  alu : ∀ a d m : Word, alu (word.extractLsb' 6 6) d (if instruction.comp.usesMemory then m else a) =
    instruction.comp.value a d m
  writesA : writesA word = instruction.dest.a
  writesD : writesD word = instruction.dest.d
  writesMemory : writesMemory word = instruction.dest.m
  jumps : ∀ out, jumps word out = instruction.jump.elim false (Jump.isTaken out)

theorem decodes_code {instruction : Compute} (hl : instruction.comp.isListed = true) :
    Decodes (BitVec.ofNat 16 instruction.code) instruction := by
  have hcode := instruction.code_eq
  obtain ⟨dest,comp,jump⟩ := instruction
  have hbits : dest.code.testBit 2 = dest.a ∧ dest.code.testBit 1 = dest.d ∧ dest.code.testBit 0 = dest.m := by
    rcases dest with ⟨_|_,_|_,_|_⟩ <;> decide
  obtain ⟨hload,hreads,hcontrol,hwa,hwd,hwm,h2,h1,h0⟩ := fields comp.code_lt dest.code_lt
    (Asm.Jump.code_lt jump) (congrArg _ hcode)
  refine ⟨hload,hreads.trans (Asm.Comp.testBit_code hl),?_,hwa.trans hbits.1,hwd.trans hbits.2.1,hwm.trans hbits.2.2,
    fun out => jumps_eq h2 h1 h0⟩
  intro a d m
  rw [hcontrol]
  exact Asm.Comp.alu_code hl a d m

end HackToolchain.Machine.Processor
