import HackToolchain.Proofs.Loading
import HackToolchain.Proofs.Transfers

/-! # Comparisons

The code of a comparison subtracts its operands and looks at the sign.  The difference is a word too, so that the
answer is the signed order of the operands just where their difference is a signed word.
-/
namespace HackToolchain.Vm

open Machine (Word Memory)

section Order

/-- The order that a comparison asks for. -/
def Operator.orders (operator : Operator) (x y : Int) : Prop :=
  match operator with
  | .eq => x = y
  | .gt => y < x
  | .lt => x < y
  | .add | .sub | .and | .or | .neg | .not => False

instance (operator : Operator) (x y : Int) : Decidable (operator.orders x y) :=
  match operator with
  | .eq => inferInstanceAs (Decidable (x = y))
  | .gt => inferInstanceAs (Decidable (y < x))
  | .lt => inferInstanceAs (Decidable (x < y))
  | .add | .sub | .and | .or | .neg | .not => inferInstanceAs (Decidable False)

/-- The numbers that a word can stand for. -/
def IsSigned (number : Int) : Prop := -32768 ≤ number ∧ number < 32768

instance (number : Int) : Decidable (IsSigned number) := inferInstanceAs (Decidable (_ ∧ _))

theorem isSigned_toInt (word : Word) : IsSigned word.toInt := by
  have hl := BitVec.le_toInt word
  have hh := @BitVec.toInt_lt 16 word
  exact ⟨by simpa using hl,by simpa using hh⟩

/-- The difference of two words is off by one turn where it is not a signed word itself. -/
theorem toInt_sub_cases (x y : Word) :
    IsSigned (x.toInt - y.toInt) ∧ (x - y).toInt = x.toInt - y.toInt ∨
      32768 ≤ x.toInt - y.toInt ∧ (x - y).toInt = x.toInt - y.toInt - 65536 ∨
      x.toInt - y.toInt < -32768 ∧ (x - y).toInt = x.toInt - y.toInt + 65536 := by
  have hx := isSigned_toInt x
  have hy := isSigned_toInt y
  have hd : (x - y).toInt = (x.toInt - y.toInt).bmod 65536 := BitVec.toInt_sub
  rw [Int.bmod_def] at hd
  unfold IsSigned at *
  omega

/-- The sign of the difference tells the order of the operands if the difference is a signed word.  If it is not, only
the sign of an equality can be trusted. -/
theorem orders_sub_iff {operator : Operator} (h : operator.isComparison = true) (x y : Word) :
    (operator.orders (x - y).toInt 0 ↔ operator.orders x.toInt y.toInt) ↔
      operator = .eq ∨ IsSigned (x.toInt - y.toInt) := by
  have hx := isSigned_toInt x
  have hy := isSigned_toInt y
  have hcases := toInt_sub_cases x y
  unfold IsSigned at *
  cases operator with
  | eq | gt | lt =>
    simp only [Operator.orders, reduceCtorEq, true_or, false_or, iff_true]
    omega
  | add | sub | and | or | neg | not => cases h

theorem truth_eq_truth {p q : Prop} [Decidable p] [Decidable q] : truth p = truth q ↔ (p ↔ q) := by
  unfold truth
  by_cases hp : p <;> by_cases hq : q <;> simp [hp, hq]

end Order

section Memory

variable {operator : Operator} {ram : Memory}

/-- What a comparison leaves in memory. -/
def compared (operator : Operator) (ram : Memory) : Memory :=
  let sp := wordAt ram .sp
  (setAt ram .sp (sp - 1#16)).put (sp - 2#16)
    (truth (operator.orders (ram.word (sp - 2#16) - ram.word (sp - 1#16)).toInt 0))

theorem sub_stack {sp : Word} (hl : 3 ≤ sp.toNat) (hh : sp.toNat ≤ 32768) :
    sp - 1#16 - 1#16 = sp - 2#16 ∧ (sp - 1#16).IsAddress ∧ (sp - 2#16).IsAddress ∧
      sp - 1#16 ≠ Place.sp.address ∧ sp - 2#16 ≠ Place.sp.address := by
  unfold Word.IsAddress Machine.memorySize Place.address
  refine ⟨by bv_omega,by bv_omega,by bv_omega,by bv_omega,by bv_omega⟩

theorem operate_comparison (h : operator.isComparison = true) (hl : 3 ≤ (wordAt ram .sp).toNat)
    (hh : (wordAt ram .sp).toNat ≤ 32768) : operate operator ram = some (compared operator ram) := by
  obtain ⟨hsub,ha,hb,hna,hnb⟩ := sub_stack hl hh
  have hmeaning : operator.meaning = .inr fun x y => truth (operator.orders (x - y).toInt 0) := by
    cases operator with
    | eq | gt | lt => rfl
    | add | sub | and | or | neg | not => cases h
  have hsp : wordAt (setAt ram .sp (wordAt ram .sp - 1#16)) .sp = wordAt ram .sp - 1#16 := by
    rw [wordAt_setAt, if_pos rfl]
  have hp := pop_eq_some.mpr ⟨rfl,ha,rfl⟩
  rw [word_setAt, if_neg hna] at hp
  simp only [operate, hmeaning, hp, Option.bind_eq_bind, Option.bind_some]
  rw [changeTop_eq_some.mpr ⟨by rwa [hsp, hsub],rfl⟩, hsp, hsub, word_setAt, if_neg hnb]
  rfl

theorem word_compared (hl : 3 ≤ (wordAt ram .sp).toNat) (hh : (wordAt ram .sp).toNat ≤ 32768) (address : Word) :
    (compared operator ram).word address =
      if address = wordAt ram .sp - 2#16 then
        truth (operator.orders (ram.word (wordAt ram .sp - 2#16) - ram.word (wordAt ram .sp - 1#16)).toInt 0)
      else if address = Place.sp.address then wordAt ram .sp - 1#16
      else ram.word address := by
  obtain ⟨-,-,hb,-,-⟩ := sub_stack hl hh
  rw [compared, Memory.word_put hb, word_setAt]

end Memory

end HackToolchain.Vm

namespace HackToolchain.Machine

open Asm (Line Session)
open Compile
open Vm (Operator wordAt compared)

variable {operator : Operator} {number : Nat}

section Layout

variable (operator : Operator) (jump : Asm.Jump) (number : Nat)

theorem codeSize_comparison : codeSize (comparison operator jump number) = 15 := by
  simp only [comparison, codeSize_append]
  rfl

theorem exists_before_trueLabel : ∃ before after,
    comparison operator jump number = before ++ .label (trueLabel operator number) :: after ∧
      codeSize before = 12 := by
  refine ⟨popOverNext ++ [setD (.sub .m .d), atSymbol (trueLabel operator number), leap (.copy .d) jump] ++ atTop ++
    [setM .zero, atSymbol (endLabel operator number), leapAlways],_,rfl,?_⟩
  simp only [codeSize_append]
  rfl

theorem exists_before_endLabel : ∃ before after,
    comparison operator jump number = before ++ .label (endLabel operator number) :: after ∧
      codeSize before = 15 := by
  refine ⟨popOverNext ++ [setD (.sub .m .d), atSymbol (trueLabel operator number), leap (.copy .d) jump] ++ atTop ++
    [setM .zero, atSymbol (endLabel operator number), leapAlways, .label (trueLabel operator number)] ++ atTop ++
    [setM .negOne],[],rfl,?_⟩
  simp only [codeSize_append]
  rfl

theorem load_mem_comparison {operand : Asm.Operand} (h : .load operand ∈ comparison operator jump number) :
    operand = .symbol "SP" ∨ operand = .symbol (trueLabel operator number) ∨
      operand = .symbol (endLabel operator number) := by
  simp only [comparison, popOverNext, popD, atTop, atSymbol, setA, setAM, setD, setM, leap, leapAlways,
    List.mem_append, List.mem_cons, Line.load.injEq, reduceCtorEq, List.not_mem_nil, or_false, false_or] at h
  grind

end Layout

section Machine

variable {before after : List Line} {file : String} {session assembled : Session} {words : List Nat}
  {loader loaded cpu : Processor}

/-- The code of a comparison lies in the program memory once it was assembled and loaded, whatever stands around it. -/
theorem holds_comparison (h : operator.isComparison = true)
    (ha : session.assemble (Asm.render (before ++ operation operator number ++ after)) file = (assembled, .ok words))
    (hl : loader.load (words.map Int.ofNat).toArray = .ok loaded)
    (hend : Asm.instructionCount (Asm.sourceLines (Asm.render before) file) + 15 < memorySize) :
    Standard assembled.symbols ∧ Holds loaded.rom assembled.symbols
      (Asm.instructionCount (Asm.sourceLines (Asm.render before) file)) (operation operator number) := by
  obtain ⟨allocated,hr⟩ := Asm.resolved_of_assembleLines (Asm.Session.assemble_eq_ok.mp ha).1
  obtain ⟨xs,ys,zs,hsplit,hreads,hcount⟩ :=
    Asm.exists_reads_between (fun line => isCode_operation operator number line) before after file
  obtain ⟨hsize,hrom⟩ := rom_of_load hl
  have hs : Standard assembled.symbols := fun row hrow => hr.get?_predefined hrow
  refine ⟨hs,hcount ▸ hr.holds_within ?_ hsplit hreads ?_⟩
  · intro i word hi
    rw [hrom]
    exact getElem?_ofProgram hi (by simpa using hsize)
  · -- Besides the stack pointer only the labels of the comparison are loaded, and they stand before its end.
    intro operand value hm hv
    obtain ⟨jump,hjump⟩ := operation_of_isComparison h number
    rw [hjump] at hm hreads
    have hlabel : ∀ name, (∃ front back, comparison operator jump number = front ++ .label name :: back ∧
        codeSize front ≤ 15) → (Asm.Operand.symbol name).value? assembled.symbols = some value →
          value < memorySize := by
      rintro name ⟨front,back,he,hfront⟩ hv
      rw [he] at hreads
      obtain ⟨hsymbol,hentry⟩ := hr.label_within hsplit hreads
      rw [value?_symbol hsymbol, hr.get?_label hentry, Option.some.injEq] at hv
      omega
    rcases load_mem_comparison operator jump number hm with rfl | rfl | rfl
    · rw [value?_symbol (by decide), hs ("SP", 0) (by decide), Option.some.injEq] at hv
      rw [← hv]
      decide
    · obtain ⟨front,back,he,hfront⟩ := exists_before_trueLabel operator jump number
      exact hlabel _ ⟨front,back,he,by omega⟩ hv
    · obtain ⟨front,back,he,hfront⟩ := exists_before_endLabel operator jump number
      exact hlabel _ ⟨front,back,he,by omega⟩ hv

/-- The code of a comparison runs to its end from everywhere and puts the sign of the difference in the place of the
operands. -/
theorem comparison_runs (h : operator.isComparison = true)
    (ha : session.assemble (Asm.render (before ++ operation operator number ++ after)) file = (assembled, .ok words))
    (hload : loader.load (words.map Int.ofNat).toArray = .ok loaded) (hrom : cpu.rom = loaded.rom)
    (hpc : cpu.pc.toNat = Asm.instructionCount (Asm.sourceLines (Asm.render before) file))
    (hend : cpu.pc.toNat + 15 < memorySize) {sp x y : Word} (hsp : cpu.ram.word 0 = sp)
    (hlow : 3 ≤ sp.toNat) (hhigh : sp.toNat ≤ 32768) (hx : cpu.ram.word (sp - 2) = x)
    (hy : cpu.ram.word (sp - 1) = y) :
    ∃ n last, cpu.steps n = (last, .ok ()) ∧ last.rom = cpu.rom ∧ last.pc.toNat = cpu.pc.toNat + 15 ∧
      ∀ address, last.ram.word address =
        if address = sp - 2 then Vm.truth (operator.orders (x - y).toInt 0)
        else if address = 0 then sp - 1
        else cpu.ram.word address := by
  cases hsp
  cases hx
  cases hy
  obtain ⟨hs,hholds⟩ := holds_comparison h ha hload (hpc ▸ hend)
  obtain ⟨jump,hjump⟩ := operation_of_isComparison h number
  have hsize : codeSize (operation operator number) = 15 := by rw [hjump, codeSize_comparison]
  obtain ⟨a,d,hgoes⟩ := leads_operate hs hholds (Vm.operate_comparison h hlow hhigh) cpu.a cpu.d
  obtain ⟨n,last,hn,hlast⟩ := hgoes cpu ⟨hrom,hpc,rfl⟩
  refine ⟨n,last,hn,hlast.rom.trans hrom.symm,by rw [hlast.pc, hsize, hpc],?_⟩
  intro address
  have hram : last.ram = compared operator cpu.ram := congrArg Core.ram hlast.core
  rw [hram]
  exact Vm.word_compared hlow hhigh address

/-- A comparison runs to its end from everywhere.  It leaves the sign of the difference, which tells the signed order
of the operands just if the comparison is an equality or the difference is a signed word. -/
theorem comparison_decides_order_iff (h : operator.isComparison = true)
    (ha : session.assemble (Asm.render (before ++ operation operator number ++ after)) file = (assembled, .ok words))
    (hload : loader.load (words.map Int.ofNat).toArray = .ok loaded) (hrom : cpu.rom = loaded.rom)
    (hpc : cpu.pc.toNat = Asm.instructionCount (Asm.sourceLines (Asm.render before) file))
    (hend : cpu.pc.toNat + 15 < memorySize) {sp x y : Word} (hsp : cpu.ram.word 0 = sp)
    (hlow : 3 ≤ sp.toNat) (hhigh : sp.toNat ≤ 32768) (hx : cpu.ram.word (sp - 2) = x)
    (hy : cpu.ram.word (sp - 1) = y) :
    ∃ n last, cpu.steps n = (last, .ok ()) ∧ last.rom = cpu.rom ∧ last.pc.toNat = cpu.pc.toNat + 15 ∧
      (∀ address, last.ram.word address =
        if address = sp - 2 then Vm.truth (operator.orders (x - y).toInt 0)
        else if address = 0 then sp - 1
        else cpu.ram.word address) ∧
      (last.ram.word (sp - 2) = Vm.truth (operator.orders x.toInt y.toInt) ↔
        operator = .eq ∨ Vm.IsSigned (x.toInt - y.toInt)) := by
  obtain ⟨n,last,hn,hr,hp,hram⟩ := comparison_runs h ha hload hrom hpc hend hsp hlow hhigh hx hy
  refine ⟨n,last,hn,hr,hp,hram,?_⟩
  rw [hram, if_pos rfl, Vm.truth_eq_truth]
  exact Vm.orders_sub_iff h x y

/-- The processor with two operands on its stack. -/
def Processor.withOperands (cpu : Processor) (x y : Word) : Processor :=
  { cpu with ram := ((cpu.ram.put 0 258).put 256 x).put 257 y }

theorem word_withOperands (cpu : Processor) (x y : Word) : (cpu.withOperands x y).ram.word 0 = 258 ∧
    (cpu.withOperands x y).ram.word 256 = x ∧ (cpu.withOperands x y).ram.word 257 = y := by
  have h : ∀ address, (cpu.withOperands x y).ram.word address =
      if address = 257 then y else if address = 256 then x else if address = 0 then 258
        else cpu.ram.word address := by
    intro address
    rw [Processor.withOperands, Memory.word_put (by decide), Memory.word_put (by decide), Memory.word_put (by decide)]
  exact ⟨by simp [h],by simp [h],by simp [h]⟩

/-- Two operands on the stack of a processor that has nothing but the code of `gt` in its program memory. -/
theorem exists_comparing (x y : Word) : ∃ assembled words loaded,
    Session.new.assemble (Asm.render ([] ++ operation .gt 1 ++ [])) "gt.asm" = (assembled, .ok words) ∧
      Processor.new.load (words.map Int.ofNat).toArray = .ok loaded ∧
      (loaded.withOperands x y).rom = loaded.rom ∧ (loaded.withOperands x y).pc.toNat = 0 := by
  have hlines : (Asm.assembleLines (Asm.sourceLines (Asm.render ([] ++ operation .gt 1 ++ [])) "gt.asm")).toOption.map
      (fun result => result.2.length) = some 15 := by decide +kernel
  obtain ⟨⟨symbols,words⟩,ha,hlength⟩ := Option.map_eq_some_iff.mp hlines
  have hsize : ¬memorySize < (words.map Int.ofNat).toArray.size := by
    rw [List.size_toArray, List.length_map, hlength]
    decide
  have hload : Processor.new.load (words.map Int.ofNat).toArray = .ok _ := if_neg hsize
  exact ⟨⟨symbols,words⟩,words,_,Asm.Session.assemble_eq_ok.mpr ⟨Outcome.toOption_eq_some.mp ha,rfl⟩,hload,rfl,rfl⟩

/-- The greatest difference that a word can hold. -/
theorem greatest_difference_is_decided : ∃ assembled words loaded,
    Session.new.assemble (Asm.render ([] ++ operation .gt 1 ++ [])) "gt.asm" = (assembled, .ok words) ∧
      Processor.new.load (words.map Int.ofNat).toArray = .ok loaded ∧
      ∃ n last, (loaded.withOperands 0x7FFE 0xFFFF).steps n = (last, .ok ()) ∧ last.pc.toNat = 15 ∧
        last.ram.word 0 = 257 ∧ last.ram.word 256 = 0xFFFF := by
  obtain ⟨assembled,words,loaded,ha,hload,hrom,hpc⟩ := exists_comparing 0x7FFE 0xFFFF
  obtain ⟨hsp,hx,hy⟩ := word_withOperands loaded 0x7FFE 0xFFFF
  obtain ⟨n,last,hn,-,hlast,hram,hiff⟩ := comparison_decides_order_iff rfl ha hload hrom hpc (by rw [hpc]; decide) hsp
    (by decide) (by decide) hx hy
  exact ⟨assembled,words,loaded,ha,hload,n,last,hn,by rw [hlast, hpc],hram 0,hiff.mpr (.inr (by decide))⟩

/-- The greatest word is greater than the word of -1, but their difference is negative. -/
theorem overflow_turns_order : ∃ assembled words loaded,
    Session.new.assemble (Asm.render ([] ++ operation .gt 1 ++ [])) "gt.asm" = (assembled, .ok words) ∧
      Processor.new.load (words.map Int.ofNat).toArray = .ok loaded ∧
      Operator.gt.orders (0x7FFF : Word).toInt (0xFFFF : Word).toInt ∧
      ∃ n last, (loaded.withOperands 0x7FFF 0xFFFF).steps n = (last, .ok ()) ∧ last.pc.toNat = 15 ∧
        last.ram.word 256 = 0 := by
  obtain ⟨assembled,words,loaded,ha,hload,hrom,hpc⟩ := exists_comparing 0x7FFF 0xFFFF
  obtain ⟨hsp,hx,hy⟩ := word_withOperands loaded 0x7FFF 0xFFFF
  obtain ⟨n,last,hn,-,hlast,hram⟩ := comparison_runs rfl ha hload hrom hpc (by rw [hpc]; decide) hsp (by decide)
    (by decide) hx hy
  refine ⟨assembled,words,loaded,ha,hload,by decide,n,last,hn,by rw [hlast, hpc],?_⟩
  rw [hram, if_pos (by decide)]
  decide

end Machine

end HackToolchain.Machine
