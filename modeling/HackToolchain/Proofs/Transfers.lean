import HackToolchain.Proofs.Templates

/-! # Where the code of an instruction goes

The code of an instruction takes the processor to the code of the instruction with which the stack machine goes on, and
changes the data memory on its way as the instruction does.
-/
namespace HackToolchain.Machine

open Asm (Comp Line SymbolTable)
open Compile
open Vm (Place wordAt setAt)

/-- The processor gets from one place to another and changes memory on its way, whatever is in the registers. -/
def Leads (rom : Memory) (pc : Nat) (ram : Memory) (next : Nat) (changed : Memory) : Prop :=
  ∀ a d, ∃ a' d', Goes rom pc ⟨a,d,ram⟩ next ⟨a',d',changed⟩

section Leads

variable {rom : Memory} {table : SymbolTable} {pc middle next : Nat} {ram between changed : Memory}

theorem Leads.refl (rom : Memory) (pc : Nat) (ram : Memory) : Leads rom pc ram pc ram :=
  fun a d => ⟨a,d,Goes.refl rom pc _⟩

theorem Leads.trans (hx : Leads rom pc ram middle between) (hy : Leads rom middle between next changed) :
    Leads rom pc ram next changed := by
  intro a d
  obtain ⟨a',d',hx⟩ := hx a d
  obtain ⟨a'',d'',hy⟩ := hy a' d'
  exact ⟨a'',d'',hx.trans hy⟩

theorem Does.leads {code : List Line} (h : Does table code ram changed) (hc : Holds rom table pc code) :
    Leads rom pc ram (pc + codeSize code) changed := by
  intro a d
  obtain ⟨a',d',h⟩ := h a d
  exact ⟨a',d',goes_lines hc h⟩

theorem goes_leapAlways (hl : Lies rom table pc leapAlways) (core : Core) :
    Goes rom pc core core.a.toNat core :=
  Goes.compute hl.2 hl.1 core fun h => nomatch h

/-- A conditional jump goes to A if D has the sign asked for, and else on. -/
theorem goes_leap {jump : Asm.Jump} (hl : Lies rom table pc (leap (.copy .d) jump)) (core : Core) :
    Goes rom pc core (if jump.isTaken core.d then core.a.toNat else pc + 1) core :=
  Goes.compute hl.2 hl.1 core fun h => nomatch h

variable {name : String} {target : Nat}

theorem loads_of_lies (hl : Lies rom table pc (atSymbol name)) : ∃ value < memorySize,
    ∀ core : Core, core.line table (atSymbol name) = some { core with a := BitVec.ofNat 16 value } := by
  obtain ⟨value,hv,hb,-⟩ := hl
  exact ⟨value,hb,line_atSymbol hv⟩

theorem loads_label (hs : Asm.isSymbol name.toList = true) (hg : table.get? name = some target)
    (hl : Lies rom table pc (atSymbol name)) : target < memorySize ∧
      ∀ core : Core, core.line table (atSymbol name) = some { core with a := BitVec.ofNat 16 target } := by
  have hv := (value?_symbol hs table).trans hg
  refine ⟨?_,line_atSymbol hv⟩
  obtain ⟨value,hl,hb,-⟩ := hl
  cases hl.symm.trans hv
  exact hb

theorem leads_goto (ht : target < memorySize)
    (hl : ∀ core : Core, core.line table (atSymbol name) = some { core with a := BitVec.ofNat 16 target })
    (hc : Holds rom table pc [atSymbol name, leapAlways]) : Leads rom pc ram target ram := by
  intro a d
  obtain ⟨hload,hleap,-⟩ := hc
  have hg := goes_leapAlways hleap ⟨BitVec.ofNat 16 target,d,ram⟩
  rw [toNat_ofNat_of_lt ht] at hg
  exact ⟨_,_,(goes_line hload (hl _)).trans hg⟩

/-- A load and a conditional jump go to the address that was loaded or on. -/
theorem goes_branch {jump : Asm.Jump} (ht : target < memorySize)
    (hl : ∀ core : Core, core.line table (atSymbol name) = some { core with a := BitVec.ofNat 16 target })
    (hc : Holds rom table pc [atSymbol name, leap (.copy .d) jump]) (core : Core) :
    Goes rom pc core (if jump.isTaken core.d then target else pc + 2) { core with a := BitVec.ofNat 16 target } := by
  obtain ⟨hload,hleap,-⟩ := hc
  have hg := goes_leap hleap { core with a := BitVec.ofNat 16 target }
  rw [toNat_ofNat_of_lt ht] at hg
  exact (goes_line hload (hl _)).trans hg

theorem isTaken_jne (value : Word) : Asm.Jump.isTaken value .jne = !decide (value = 0) := by
  have h : value.toInt = 0 ↔ value = 0 := by
    rw [← BitVec.toInt_inj]
    rfl
  simp [Asm.Jump.isTaken, h]

theorem leads_ifGoto (hs : Standard table) (ht : target < memorySize)
    (hl : ∀ core : Core, core.line table (atSymbol name) = some { core with a := BitVec.ofNat 16 target })
    (hc : Holds rom table pc (popD ++ [atSymbol name, leap (.copy .d) .jne])) {value : Word}
    (hp : Vm.pop ram = some (value, changed)) :
    Leads rom pc ram
      (if value = 0 then pc + codeSize (popD ++ [atSymbol name, leap (.copy .d) .jne]) else target) changed := by
  intro a d
  obtain ⟨hpop,hbranch⟩ := holds_append.mp hc
  have hlines : Core.lines table ⟨a,d,ram⟩ popD = some ⟨wordAt changed .sp,value,changed⟩ := by
    rw [lines_popD hs, hp]
    rfl
  have hg := (goes_lines hpop hlines).trans (goes_branch ht hl hbranch _)
  refine ⟨BitVec.ofNat 16 target,value,?_⟩
  dsimp only at hg
  rw [isTaken_jne] at hg
  by_cases hv : value = 0
  · rw [decide_eq_true hv] at hg
    rw [if_pos hv]
    exact hg
  · rw [decide_eq_false hv] at hg
    rw [if_neg hv]
    exact hg

theorem comparison_eq (operator : Vm.Operator) (jump : Asm.Jump) (number : Nat) : comparison operator jump number =
    (popOverNext ++ [setD (.sub .m .d)]) ++ ([atSymbol (trueLabel operator number), leap (.copy .d) jump] ++
      ((atTop ++ [setM .zero]) ++ ([atSymbol (endLabel operator number), leapAlways] ++
        ([.label (trueLabel operator number)] ++
          ((atTop ++ [setM .negOne]) ++ [.label (endLabel operator number)]))))) := by
  simp [comparison]

theorem leads_comparison (hs : Standard table) {operator : Vm.Operator} {jump : Asm.Jump} {number : Nat}
    (hc : Holds rom table pc (comparison operator jump number))
    (h : (Vm.pop ram).bind (fun (y, ram) =>
      Vm.changeTop (fun x => if jump.isTaken (x - y) then 0xFFFF else 0) ram) = some changed) :
    Leads rom pc ram (pc + codeSize (comparison operator jump number)) changed := by
  obtain ⟨⟨y,popped⟩,hp,h⟩ := Option.bind_eq_some_iff.mp h
  obtain ⟨ha,rfl⟩ := Vm.changeTop_eq_some.mp h
  rw [comparison_eq] at hc ⊢
  obtain ⟨htest,hc⟩ := holds_append.mp hc
  obtain ⟨hbranch,hc⟩ := holds_append.mp hc
  obtain ⟨hno,hc⟩ := holds_append.mp hc
  obtain ⟨hskip,hc⟩ := holds_append.mp hc
  obtain ⟨⟨⟨htrue,htruev⟩,-⟩,hc⟩ := holds_append.mp hc
  obtain ⟨hyes,⟨⟨hend,hendv⟩,-⟩⟩ := holds_append.mp hc
  obtain ⟨hbt,hlt⟩ := loads_label htrue htruev hbranch.1
  obtain ⟨hbe,hle⟩ := loads_label hend hendv hskip.1
  have hput : ∀ value, Vm.changeTop (fun _ => value) popped = some (popped.put (wordAt popped .sp - 1#16) value) :=
    fun value => Vm.changeTop_eq_some.mpr ⟨ha,rfl⟩
  have hsettrue : Does table (atTop ++ [setM .negOne]) popped (popped.put (wordAt popped .sp - 1#16) 0xFFFF) :=
    does_unary hs (fun _ _ _ => rfl) (hput _)
  have hsetfalse : Does table (atTop ++ [setM .zero]) popped (popped.put (wordAt popped .sp - 1#16) 0) :=
    does_unary hs (fun _ _ _ => rfl) (hput _)
  intro a d
  have hlines : Core.lines table ⟨a,d,ram⟩ (popOverNext ++ [setD (.sub .m .d)]) =
      some ⟨wordAt popped .sp - 1#16,popped.word (wordAt popped .sp - 1#16) - y,popped⟩ := by
    rw [lines_append, lines_popOverNext hs, hp]
    simp [ha, Core.out, Comp.value, Asm.Register.value]
  have hg := (goes_lines htest hlines).trans (goes_branch hbt hlt hbranch _)
  dsimp only at hg
  split at hg
  next htaken =>
    rw [if_pos htaken]
    obtain ⟨a',d',hy⟩ := hsettrue.leads hyes (BitVec.ofNat 16 _) _
    refine ⟨a',d',?_⟩
    simpa [codeSize, Line.size, Nat.add_assoc] using hg.trans hy
  next htaken =>
    rw [if_neg htaken]
    obtain ⟨a',d',hn⟩ := ((hsetfalse.leads hno).trans (leads_goto hbe hle hskip)) (BitVec.ofNat 16 _) _
    refine ⟨a',d',?_⟩
    simpa [codeSize, Line.size, Nat.add_assoc] using hg.trans hn

theorem leads_operate (hs : Standard table) {operator : Vm.Operator} {number : Nat}
    (hc : Holds rom table pc (operation operator number)) (h : Vm.operate operator ram = some changed) :
    Leads rom pc ram (pc + codeSize (operation operator number)) changed := by
  cases operator with
  | eq | gt | lt =>
    refine leads_comparison hs hc (Eq.trans ?_ h)
    simp [Vm.operate, Vm.Operator.meaning, Vm.truth, Asm.Jump.isTaken]
  | add | sub | and | or | neg | not => exact (does_operate hs rfl number h).leads hc

theorem returnLabel_of_holds {arguments : Int} {number : Nat}
    (hc : Holds rom table pc (linesOf (callPieces name arguments number))) {after : Nat}
    (ha : after = pc + codeSize (linesOf (callPieces name arguments number))) :
    Asm.isSymbol (returnLabel number).toList = true ∧ table.get? (returnLabel number) = some after ∧ pc < after ∧
      after < memorySize := by
  rw [linesOf_callPieces] at hc ha
  obtain ⟨hentry,hlast⟩ := holds_append.mp hc
  have hsize : codeSize [atSymbol name, leapAlways, .label (returnLabel number)] = 2 := rfl
  rw [codeSize_append, hsize] at ha
  obtain ⟨_,hl⟩ := hentry.lies_of_mem (show atSymbol (returnLabel number) ∈ _ by simp [callEntry])
  obtain ⟨-,-,⟨hret,hretv⟩,-⟩ := hlast
  have hafter : pc + codeSize (callEntry arguments number) + 1 + 1 = after := by omega
  have hg : table.get? (returnLabel number) = some after := by
    rw [← hafter]
    exact hretv
  exact ⟨hret,hg,by omega,(loads_label hret hg hl).1⟩

/-- A call leaves its return address, which is the address after its code, and goes to its target. -/
theorem leads_call (hs : Standard table) {arguments : Int} {number : Nat}
    (hc : Holds rom table pc (linesOf (callPieces name arguments number)))
    (hname : Asm.isSymbol name.toList = true) (hg : table.get? name = some target) {after : Nat}
    (ha : after = pc + codeSize (linesOf (callPieces name arguments number)))
    (h : Vm.enter (BitVec.ofNat 16 after) arguments ram = some changed) : Leads rom pc ram target changed := by
  obtain ⟨hret,hretv,-,-⟩ := returnLabel_of_holds hc ha
  rw [linesOf_callPieces] at hc
  obtain ⟨hentry,hlast⟩ := holds_append.mp hc
  obtain ⟨_,hn⟩ := hentry.lies_of_mem (show atNumber (arguments + frameWords) ∈ _ by simp [callEntry])
  have hback := line_atSymbol ((value?_symbol hret table).trans hretv)
  have hlead := (does_enter hs hback (line_atNumber hn) h).leads hentry
  generalize pc + codeSize (callEntry arguments number) = jump at hlast hlead
  obtain ⟨hload,hleap,-,-⟩ := hlast
  obtain ⟨hb,hl⟩ := loads_label hname hg hload
  have hjump : Holds rom table jump [atSymbol name, leapAlways] := ⟨hload,hleap,trivial⟩
  exact hlead.trans (leads_goto hb hl hjump)

/-- A return goes to the address that it has found. -/
theorem leads_return (hs : Standard table) (hc : Holds rom table pc returnCode) {back : Word}
    (h : Vm.leave ram = some (back, changed)) : Leads rom pc ram back.toNat changed := by
  rw [returnCode_eq] at hc
  obtain ⟨hbody,hlast⟩ := holds_append.mp hc
  obtain ⟨_,hn⟩ := hbody.lies_of_mem (show atNumber frameWords ∈ _ by simp [returnBody])
  obtain ⟨hdoes,hback⟩ := does_leave hs (line_atNumber hn) h
  refine (hdoes.leads hbody).trans ?_
  intro a d
  obtain ⟨hload,hset,hleap,-⟩ := hlast
  have hlines : Core.lines table ⟨a,d,changed⟩ [atSymbol "R14", setA (.copy .m)] = some ⟨back,d,changed⟩ := by
    simp [line_registers hs, Core.out, Comp.value, Asm.Register.value, ← hback]
  have hset : Holds rom table (pc + codeSize returnBody) [atSymbol "R14", setA (.copy .m)] := ⟨hload,hset,trivial⟩
  exact ⟨back,d,(goes_lines hset hlines).trans (goes_leapAlways hleap ⟨back,d,changed⟩)⟩

end Leads

end HackToolchain.Machine
