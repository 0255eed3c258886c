import HackToolchain.Proofs.Computation
import HackToolchain.Proofs.MemoryWords

/-! # Instructions are obeyed as they are spelled

A computing instruction that is accepted names registers in any order, each at most once, spells one of the
computations of the machine and may name a jump.  A processor that holds its word stores the number that the
computation spells, cut to a word, in the registers that are named and in no others, and jumps if the sign of that
word asks for it.
-/
namespace HackToolchain.Asm

open Machine (Word)

section Reading

theorem eq_of_splitAtFirst {mark : Char} {text before after : List Char}
    (h : splitAtFirst mark text = some (before, after)) : before ++ mark :: after = text := by
  induction text generalizing before with
  | nil => cases h
  | cons c rest ih =>
    rw [splitAtFirst] at h
    split at h
    next hc =>
      cases h
      simp [hc]
    next hc =>
      obtain ⟨⟨l,r⟩,hs,he⟩ := Option.map_eq_some_iff.mp h
      cases he
      rw [List.cons_append, ih hs]

theorem Comp.eq_of_ofChars? {text : List Char} {comp : Comp} (h : ofChars? text = some comp) :
    comp.isListed = true ∧ text = comp.chars := by
  obtain ⟨row,hf,rfl⟩ := Option.map_eq_some_iff.mp h
  have hc : row.1.chars = text := by simpa using List.find?_some hf
  have hl : ∀ row ∈ table, row.1.isListed = true := by decide
  exact ⟨hl row (List.mem_of_find?_eq_some hf),hc.symm⟩

theorem Jump.eq_of_ofChars? {text : List Char} {jump : Jump} (h : ofChars? text = some jump) : text = jump.chars := by
  have hc : jump.chars = text := by simpa using List.find?_some h
  exact hc.symm

namespace Dest

def has (dest : Dest) : Register → Bool
  | .a => dest.a
  | .d => dest.d
  | .m => dest.m

def ofRegisters (registers : List Register) : Dest := ⟨.a ∈ registers, .d ∈ registers, .m ∈ registers⟩

@[simp] theorem has_ofRegisters (registers : List Register) (r : Register) :
    (ofRegisters registers).has r = decide (r ∈ registers) := by
  cases r <;> rfl

theorem ext_has {x y : Dest} (h : ∀ r, x.has r = y.has r) : x = y := by
  obtain ⟨xa,xd,xm⟩ := x
  obtain ⟨ya,yd,ym⟩ := y
  have ha : xa = ya := h .a
  have hd : xd = yd := h .d
  have hm : xm = ym := h .m
  rw [ha, hd, hm]

def add (dest : Dest) : Register → Dest
  | .a => { dest with a := true }
  | .d => { dest with d := true }
  | .m => { dest with m := true }

@[simp] theorem has_add (dest : Dest) (r s : Register) : (dest.add r).has s = (dest.has s || decide (s = r)) := by
  cases r <;> cases s <;> simp [add, has]

theorem add?_eq_some {dest next : Dest} {c : Char} :
    dest.add? c = some next ↔ ∃ r : Register, c = r.char ∧ dest.has r = false ∧ dest.add r = next := by
  constructor
  · intro h
    simp only [add?, Bool.not_eq_true'] at h
    split at h
    next hc => exact ⟨.a,hc.1,hc.2,Option.some.inj h⟩
    next =>
      split at h
      next hc => exact ⟨.d,hc.1,hc.2,Option.some.inj h⟩
      next =>
        split at h
        next hc => exact ⟨.m,hc.1,hc.2,Option.some.inj h⟩
        next => cases h
  · rintro ⟨r,rfl,hr,rfl⟩
    cases r <;> simp_all [add?, add, has, Register.char]

/-- Letters that add registers to those named before name new registers, each of them once. -/
theorem foldlM_add? {letters : List Char} {start dest : Dest} :
    letters.foldlM add? start = some dest ↔
      ∃ registers : List Register, letters = registers.map Register.char ∧ registers.Nodup ∧
        (∀ r ∈ registers, start.has r = false) ∧ ∀ s, dest.has s = (start.has s || decide (s ∈ registers)) := by
  induction letters generalizing start with
  | nil =>
    constructor
    · intro h
      cases h
      exact ⟨[],by simp⟩
    · rintro ⟨registers,hm,-,-,hs⟩
      obtain rfl := List.map_eq_nil_iff.mp hm.symm
      have he : start = dest := ext_has fun s => by simpa using (hs s).symm
      rw [List.foldlM_nil, he]
      rfl
  | cons c rest ih =>
    simp only [List.foldlM_cons, Option.bind_eq_bind, Option.bind_eq_some_iff, add?_eq_some, ih]
    constructor
    · rintro ⟨_,⟨r,rfl,hr,rfl⟩,registers,rfl,hnodup,hnew,hs⟩
      have hold : ∀ s ∈ registers, start.has s = false ∧ s ≠ r := by simpa using hnew
      refine ⟨r :: registers,rfl,List.nodup_cons.mpr ⟨fun hm => (hold r hm).2 rfl,hnodup⟩,?_,?_⟩
      · intro s hm
        rcases List.mem_cons.mp hm with rfl | hm
        · exact hr
        · exact (hold s hm).1
      · intro s
        simp [hs, Bool.or_assoc]
    · rintro ⟨registers,hm,hnodup,hnew,hs⟩
      obtain ⟨r,registers,rfl,rfl,rfl⟩ := List.map_eq_cons_iff.mp hm.symm
      obtain ⟨hfresh,hnodup⟩ := List.nodup_cons.mp hnodup
      refine ⟨_,⟨r,rfl,hnew r List.mem_cons_self,rfl⟩,registers,rfl,hnodup,?_,?_⟩
      · intro s hm
        have hne : s ≠ r := fun he => hfresh (he ▸ hm)
        simp [hnew s (List.mem_cons_of_mem _ hm), hne]
      · intro s
        simp [hs, Bool.or_assoc]

theorem ofChars?_eq_some {letters : List Char} {dest : Dest} :
    ofChars? letters = some dest ↔
      ∃ registers : List Register, letters = registers.map Register.char ∧ registers.Nodup ∧
        dest = ofRegisters registers := by
  rw [ofChars?, foldlM_add?]
  have hnone : ∀ r, none.has r = false := by
    intro r
    cases r <;> rfl
  constructor
  · rintro ⟨registers,hl,hnodup,-,hs⟩
    refine ⟨registers,hl,hnodup,ext_has fun r => ?_⟩
    rw [hs, hnone, Bool.false_or, has_ofRegisters]
  · rintro ⟨registers,hl,hnodup,rfl⟩
    refine ⟨registers,hl,hnodup,fun r _ => hnone r,fun r => ?_⟩
    rw [hnone, Bool.false_or, has_ofRegisters]

end Dest

namespace Compute

theorem joined_parts (text : List Char) : joined (parts text).1 (parts text).2.1 (parts text).2.2 = text := by
  unfold parts
  cases he : splitAtFirst '=' text with
  | none =>
    cases hs : splitAtFirst ';' text with
    | none => simp [joined, hs]
    | some halves => simp [joined, hs, eq_of_splitAtFirst hs]
  | some halves =>
    cases hs : splitAtFirst ';' halves.2 with
    | none => simp [joined, hs, eq_of_splitAtFirst he]
    | some rest => simp [joined, hs, eq_of_splitAtFirst he, eq_of_splitAtFirst hs]

theorem parse_eq_ok {text : List Char} {instruction : Compute} :
    parse text = .ok instruction ↔ Comp.ofChars? (parts text).2.1 = some instruction.comp ∧
      destination? (parts text).1 = some instruction.dest ∧ jump? (parts text).2.2 = some instruction.jump := by
  obtain ⟨dest,comp,jump⟩ := instruction
  simp only [parse]
  constructor
  · intro h
    split at h
    next => cases h
    next => cases h
    next => cases h
    next hc hd hj =>
      cases h
      exact ⟨hc,hd,hj⟩
  · rintro ⟨hc,hd,hj⟩
    simp only [hc, hd, hj]

theorem destination?_eq_some {text : Option (List Char)} {dest : Dest} :
    destination? text = some dest ↔ ∃ registers : List Register, registers.Nodup ∧ dest = .ofRegisters registers ∧
      text = if registers = [] then none else some (registers.map Register.char) := by
  cases text with
  | none =>
    constructor
    · intro h
      cases h
      exact ⟨[],List.nodup_nil,rfl,rfl⟩
    · rintro ⟨registers,-,rfl,ht⟩
      obtain rfl : registers = [] := by simpa using ht
      rfl
  | some letters =>
    simp only [destination?, List.isEmpty_iff]
    split
    next he =>
      simp only [reduceCtorEq, false_iff]
      rintro ⟨registers,-,-,ht⟩
      split at ht
      · cases ht
      · simp_all
    next he =>
      rw [Dest.ofChars?_eq_some]
      constructor
      · rintro ⟨registers,rfl,hnodup,rfl⟩
        refine ⟨registers,hnodup,rfl,?_⟩
        rw [if_neg (by simpa using he)]
      · rintro ⟨registers,hnodup,rfl,ht⟩
        split at ht
        · cases ht
        · exact ⟨registers,Option.some.inj ht,hnodup,rfl⟩

theorem jump?_eq_some {text : Option (List Char)} {jump : Option Jump} :
    jump? text = some jump ↔ text = jump.map Jump.chars := by
  constructor
  · intro h
    cases text with
    | none =>
      cases h
      rfl
    | some letters =>
      obtain ⟨jump,hj,rfl⟩ := Option.map_eq_some_iff.mp h
      rw [Jump.eq_of_ofChars? hj]
      rfl
  · rintro rfl
    cases jump with
    | none => rfl
    | some jump => simp [jump?, jump.ofChars?_chars]

end Compute

/-- A text names registers in any order, each at most once, spells a computation of the machine and may name a
jump. -/
structure Spells (text : List Char) (registers : List Register) (comp : Comp) (jump : Option Jump) : Prop where
  nodup : registers.Nodup
  isListed : comp.isListed = true
  text_eq : text = Compute.joined (if registers = [] then none else some (registers.map Register.char)) comp.chars
    (jump.map Jump.chars)

/-- An instruction is accepted when its text spells it, and only then. -/
theorem Compute.parse_iff_spells {text : List Char} {instruction : Compute} :
    parse text = .ok instruction ↔ ∃ registers, Spells text registers instruction.comp instruction.jump ∧
      instruction.dest = .ofRegisters registers := by
  rw [parse_eq_ok]
  constructor
  · rintro ⟨hc,hd,hj⟩
    obtain ⟨hl,hcomp⟩ := Comp.eq_of_ofChars? hc
    obtain ⟨registers,hnodup,hdest,htext⟩ := destination?_eq_some.mp hd
    refine ⟨registers,⟨hnodup,hl,?_⟩,hdest⟩
    rw [← htext, ← hcomp, ← jump?_eq_some.mp hj, joined_parts]
  · rintro ⟨registers,⟨hnodup,hl,rfl⟩,hdest⟩
    obtain ⟨he,hs,-,-⟩ := instruction.comp.not_mem_chars
    rw [parts_joined _ _ he hs]
    · refine ⟨?_,destination?_eq_some.mpr ⟨registers,hnodup,hdest,rfl⟩,jump?_eq_some.mpr rfl⟩
      rw [Comp.ofChars?_chars, if_pos hl]
    · intro text ht
      split at ht
      · cases ht
      · cases ht
        rw [List.mem_map]
        rintro ⟨r,-,hr⟩
        cases r <;> cases hr
    · intro text ht
      obtain ⟨jump,-,rfl⟩ := Option.map_eq_some_iff.mp ht
      exact jump.not_mem_chars

end Reading

section Number

def Register.number (a d m : Nat) : Register → Nat
  | .a => a
  | .d => d
  | .m => m

/-- The number that a computation spells, without a width, from the numbers in A, in D and in memory at A. -/
def Comp.number (a d m : Nat) : Comp → Int
  | .zero => 0
  | .one => 1
  | .negOne => -1
  | .copy r => r.number a d m
  | .not r => ~~~(r.number a d m : Int)
  | .neg r => -r.number a d m
  | .succ r | .onePlus r => r.number a d m + 1
  | .pred r => r.number a d m - 1
  | .add x y => x.number a d m + y.number a d m
  | .sub x y => x.number a d m - y.number a d m
  | .and x y => (x.number a d m &&& y.number a d m : Nat)
  | .or x y => (x.number a d m ||| y.number a d m : Nat)

theorem Register.toNat_value (a d m : Word) (r : Register) :
    r.number a.toNat d.toNat m.toNat = (r.value a d m).toNat := by
  cases r <;> rfl

/-- Computing with words is computing with numbers and cutting the result to a word. -/
theorem Comp.ofInt_number (a d m : Word) (comp : Comp) :
    Word.ofInt (comp.number a.toNat d.toNat m.toNat) = comp.value a d m := by
  have hcast : ∀ w : Word, BitVec.ofInt 16 (w.toNat : Int) = w := by
    intro w
    simp
  have hsub : ∀ x y : Int, BitVec.ofInt 16 (x - y) = BitVec.ofInt 16 x - BitVec.ofInt 16 y := by
    intro x y
    rw [Int.sub_eq_add_neg, BitVec.ofInt_add, BitVec.ofInt_neg, BitVec.sub_eq_add_neg]
  unfold Word.ofInt
  cases comp with
  | zero | one | negOne => rfl
  | copy r => rw [number, Register.toNat_value, hcast, value]
  | not r =>
    have hnot : ∀ n : Nat, ~~~(n : Int) = -n - 1 := fun n => by
      change Int.negSucc n = -n - 1
      omega
    rw [number, Register.toNat_value, hnot, hsub, BitVec.ofInt_neg, hcast, value]
    generalize r.value a d m = w
    change -w - 1#16 = ~~~w
    bv_omega
  | neg r => rw [number, Register.toNat_value, BitVec.ofInt_neg, hcast, value]
  | succ r | onePlus r =>
    rw [number, Register.toNat_value, BitVec.ofInt_add, hcast, value]
    rfl
  | pred r =>
    rw [number, Register.toNat_value, hsub, hcast, value]
    rfl
  | add x y => rw [number, Register.toNat_value, Register.toNat_value, BitVec.ofInt_add, hcast, hcast, value]
  | sub x y => rw [number, Register.toNat_value, Register.toNat_value, hsub, hcast, hcast, value]
  | and x y => rw [number, Register.toNat_value, Register.toNat_value, ← BitVec.toNat_and, hcast, value]
  | or x y => rw [number, Register.toNat_value, Register.toNat_value, ← BitVec.toNat_or, hcast, value]

end Number

end HackToolchain.Asm

namespace HackToolchain.Machine.Processor

open Asm (Comp Compute Jump Register Spells)

/-- The word of the number that a computation spells. -/
def spelled (cpu : Processor) (comp : Comp) : Word :=
  Word.ofInt (comp.number cpu.a.toNat cpu.d.toNat cpu.memoryAtA.toNat)

/-- The processor after it has done what an instruction spells: nothing has changed but what is told here. -/
structure Obeys (registers : List Register) (comp : Comp) (jump : Option Jump) (cpu next : Processor) : Prop where
  a : next.a = if .a ∈ registers then cpu.spelled comp else cpu.a
  d : next.d = if .d ∈ registers then cpu.spelled comp else cpu.d
  ram : ∀ address, next.ram.word address =
    if .m ∈ registers ∧ address = cpu.a then cpu.spelled comp else cpu.ram.word address
  pc : next.pc = if jump.elim false (Jump.isTaken (cpu.spelled comp)) then cpu.a else cpu.pc + 1
  cycles : next.cycles = cpu.cycles + 1
  rom : next.rom = cpu.rom
  size : next.size = cpu.size

/-- A processor that holds the word of an instruction does what its parts say, or refuses an address outside of the
memory. -/
theorem step_of_fetch? {instruction : Compute} (hl : instruction.comp.isListed = true) {cpu : Processor}
    (hf : cpu.fetch? = some (Word.ofInt instruction.code)) :
    cpu.step =
      if (instruction.comp.usesMemory || instruction.dest.m) = true ∧ memorySize ≤ cpu.a.toNat then
        .error (.addressOutOfRange cpu.a.toNat cpu.pc.toNat)
      else .ok
        { cpu with
          a := if instruction.dest.a then cpu.spelled instruction.comp else cpu.a
          d := if instruction.dest.d then cpu.spelled instruction.comp else cpu.d
          pc := if instruction.jump.elim false (Jump.isTaken (cpu.spelled instruction.comp)) then cpu.a else cpu.pc + 1
          cycles := cpu.cycles + 1
          ram := if instruction.dest.m then cpu.ram.put cpu.a (cpu.spelled instruction.comp) else cpu.ram } := by
  rw [Word.ofInt, BitVec.ofInt_natCast] at hf
  have hd := decodes_code hl
  have hout : cpu.result (BitVec.ofNat 16 instruction.code) = cpu.spelled instruction.comp := by
    rw [result, hd.readsMemory, hd.alu, spelled, Comp.ofInt_number]
  rw [step, obstacle?, hf]
  simp only [hd.isLoad, hd.readsMemory, hd.writesMemory]
  split
  next fault ho =>
    split at ho
    next hin =>
      cases ho
      rw [if_pos (by simpa using hin)]
    next => cases ho
  next ho =>
    split at ho
    next => cases ho
    next hin =>
      rw [if_neg (by simpa using hin), advance, hf]
      simp only [execute, hd.isLoad, Bool.false_eq_true, ↓reduceIte, hout, hd.writesA, hd.writesD, hd.writesMemory,
        hd.jumps]
      rfl

/-- The instructions that are accepted are those whose text spells one, and a step of the processor obeys the text. -/
theorem spelled_instructions_are_obeyed (text : List Char) :
    ((∃ instruction, Compute.parse text = .ok instruction) ↔ ∃ registers comp jump, Spells text registers comp jump) ∧
    ∀ instruction registers comp jump, Compute.parse text = .ok instruction → Spells text registers comp jump →
      ∀ cpu : Processor, cpu.fetch? = some (Word.ofInt instruction.code) →
        if (comp.usesMemory = true ∨ .m ∈ registers) ∧ memorySize ≤ cpu.a.toNat then
          cpu.step = .error (.addressOutOfRange cpu.a.toNat cpu.pc.toNat)
        else ∃ next, cpu.step = .ok next ∧ cpu.Obeys registers comp jump next := by
  have hread : ∀ registers comp jump, Spells text registers comp jump →
      Compute.parse text = .ok ⟨.ofRegisters registers,comp,jump⟩ :=
    fun registers comp jump hs => Compute.parse_iff_spells.mpr ⟨registers,hs,rfl⟩
  constructor
  · constructor
    · rintro ⟨instruction,h⟩
      obtain ⟨registers,hs,-⟩ := Compute.parse_iff_spells.mp h
      exact ⟨registers,_,_,hs⟩
    · rintro ⟨registers,comp,jump,hs⟩
      exact ⟨_,hread registers comp jump hs⟩
  · intro instruction registers comp jump h hs cpu hf
    obtain rfl : ⟨.ofRegisters registers,comp,jump⟩ = instruction :=
      Except.ok.inj ((hread registers comp jump hs).symm.trans h)
    rw [step_of_fetch? hs.isListed hf]
    have hm : (comp.usesMemory || (Asm.Dest.ofRegisters registers).m) = true ↔
        comp.usesMemory = true ∨ .m ∈ registers := by
      simp [Asm.Dest.ofRegisters]
    simp only [hm]
    split
    next => rfl
    next hin =>
      refine ⟨_,rfl,by simp [Asm.Dest.ofRegisters],by simp [Asm.Dest.ofRegisters],?_,rfl,rfl,rfl,rfl⟩
      intro address
      by_cases hr : Register.m ∈ registers
      · have ha : cpu.a.IsAddress := Nat.lt_of_not_le fun hle => hin ⟨.inr hr,hle⟩
        simp [Asm.Dest.ofRegisters, hr, Memory.word_put ha]
      · simp [Asm.Dest.ofRegisters, hr]

theorem swapped_sum_is_obeyed :
    let cpu := { new with rom := .ofProgram #[0xF09E], a := 5, d := 0xFFFF }
    Spells "DM=M+D;JLE".toList [.d, .m] (.add .m .d) (some .jle) ∧ cpu.fetch? = some (Word.ofInt 0xF09E) ∧
      ∃ next, cpu.step = .ok next ∧ cpu.Obeys [.d, .m] (.add .m .d) (some .jle) next := by
  intro cpu
  have hs : Spells "DM=M+D;JLE".toList [.d, .m] (.add .m .d) (some .jle) := ⟨by decide,by decide,by decide⟩
  have hf : cpu.fetch? = some (Word.ofInt 0xF09E) := by
    rw [fetch?, Vector.getElem?_eq_getElem (show cpu.pc.toNat < memorySize by decide)]
    simp [cpu, new, Memory.ofProgram]
  have h := (spelled_instructions_are_obeyed _).2 ⟨⟨false,true,true⟩,.add .m .d,some .jle⟩ _ _ _ (by decide) hs cpu hf
  exact ⟨hs,hf,h⟩

end HackToolchain.Machine.Processor
