import Mathlib.Data.List.ReduceOption
import HackToolchain.Proofs.Simulation

/-! # Linking

A program of several units that is compiled without a warning has all that it jumps to: every call finds a function of
the program and every jump a label of its own unit.  So the assembler resolves their names to code, and the variables
that it allocates are static entries only.
-/
namespace HackToolchain.Vm

def Instruction.named? : Instruction → Option (Kind × String)
  | .label name => some (.label, name)
  | .goto name => some (.goto, name)
  | .ifGoto name => some (.ifGoto, name)
  | .function name _ => some (.function, name)
  | .call name _ => some (.call, name)
  | .operate _ | .push _ _ | .pop _ _ | .ret => none

/-- The name that a call or a jump goes to. -/
def Instruction.goesTo? : Instruction → Option String
  | .call name _ | .goto name | .ifGoto name => some name
  | _ => none

theorem Command.named?_of_instruction {command : Command} {instruction : Instruction}
    (h : command.instruction = .ok instruction) : instruction.named? =
      if command.kind ∈ [Kind.label, .goto, .ifGoto, .function, .call] then
        command.first.toOption.map (command.kind, ·)
      else none := by
  unfold Command.instruction at h
  cases hk : command.kind with
  | arithmetic =>
    rw [hk] at h
    obtain ⟨operator,_,h⟩ := Outcome.bind_eq_ok.mp h
    cases h
    simp [Instruction.named?]
  | push | pop =>
    rw [hk] at h
    obtain ⟨segment,_,h⟩ := Outcome.bind_eq_ok.mp h
    obtain ⟨index,_,h⟩ := Outcome.bind_eq_ok.mp h
    obtain ⟨_,_,h⟩ := Outcome.bind_eq_ok.mp h
    cases h
    simp [Instruction.named?]
  | label | goto | ifGoto =>
    rw [hk] at h
    obtain ⟨name,hn,h⟩ := Outcome.bind_eq_ok.mp h
    cases h
    simp [hn, Instruction.named?, Except.toOption]
  | function | call =>
    rw [hk] at h
    obtain ⟨name,hn,h⟩ := Outcome.bind_eq_ok.mp h
    obtain ⟨count,_,h⟩ := Outcome.bind_eq_ok.mp h
    cases h
    simp [hn, Instruction.named?, Except.toOption]
  | ret =>
    rw [hk] at h
    cases h
    simp [Instruction.named?]

theorem Command.first_of_named {command : Command} {instruction : Instruction} {kind : Kind} {name : String}
    (h : command.instruction = .ok instruction) (hn : instruction.named? = some (kind, name)) :
    command.kind = kind ∧ command.first = .ok name := by
  rw [named?_of_instruction h] at hn
  split at hn
  · obtain ⟨found,hf,he⟩ := Option.map_eq_some_iff.mp hn
    cases he
    exact ⟨rfl,Outcome.toOption_eq_some.mp hf⟩
  · cases hn

theorem Command.named_of_first {command : Command} {instruction : Instruction} {name : String}
    (h : command.instruction = .ok instruction)
    (hk : command.kind ∈ [Kind.label, .goto, .ifGoto, .function, .call]) (hn : command.first = .ok name) :
    instruction.named? = some (command.kind, name) := by
  rw [named?_of_instruction h, if_pos hk, hn]
  rfl

end HackToolchain.Vm

namespace HackToolchain.Link

open Vm (Command Kind)

theorem contains_of_undefinedCalls {registry : Registry} {told : List String} {calls : List Call}
    (h : undefinedCalls registry told calls = []) :
    ∀ call ∈ calls, registry.contains call.name = true ∨ call.name ∈ told := by
  induction calls generalizing told with
  | nil => simp
  | cons call rest ih =>
    rw [undefinedCalls] at h
    split at h
    next hc =>
      refine List.forall_mem_cons.mpr ⟨?_,ih h⟩
      simpa using hc
    next => cases h

theorem contains_of_checkCalls {units : List ParsedUnit} {registry : Registry} {isStrict : Bool}
    (h : checkCalls units registry isStrict = .ok ([], [])) {unit : String} {commands : List Command}
    (hu : (unit, commands) ∈ units) {command : Command} (hc : command ∈ commands) (hk : command.kind = .call)
    {name : String} (hn : command.first = .ok name) : registry.contains name = true := by
  obtain ⟨calls,hcalls,h⟩ := Outcome.bind_eq_ok.mp h
  have hmissing : undefinedCalls registry [] calls = [] := by
    have h := Outcome.pure_eq_ok.mp h
    split at h
    · simpa using congrArg Prod.fst h
    · simpa using congrArg Prod.snd h
  have hm : Call.ofCommand unit command ∈ (commands.filter (·.kind == .call)).map (Call.ofCommand unit) :=
    List.mem_map_of_mem (List.mem_filter.mpr ⟨hc,by simp [hk]⟩)
  obtain ⟨call,hcall,he⟩ := Outcome.exists_mem_of_mapM hcalls (List.mem_flatMap.mpr ⟨_,hu,hm⟩)
  obtain ⟨found,hf,he⟩ := Outcome.bind_eq_ok.mp he
  obtain ⟨arguments,_,he⟩ := Outcome.bind_eq_ok.mp he
  cases Outcome.pure_eq_ok.mp he
  cases hf.symm.trans hn
  exact (contains_of_undefinedCalls hmissing _ hcall).resolve_right (by simp)

theorem exists_of_checkLabels {unit : String} {commands : List Command} (h : checkLabels unit commands = .ok [])
    {command : Command} (hc : command ∈ commands) (hj : isJump command = true) {name : String}
    (hn : command.first = .ok name) : ∃ label ∈ commands, label.kind = .label ∧ label.first = .ok name := by
  obtain ⟨labels,hl,h⟩ := Outcome.bind_eq_ok.mp h
  obtain ⟨warnings,hw,h⟩ := Outcome.bind_eq_ok.mp h
  have h := Outcome.pure_eq_ok.mp h
  obtain ⟨warning,hm,he⟩ := Outcome.exists_mem_of_mapM hw (List.mem_filter.mpr ⟨hc,hj⟩)
  obtain ⟨target,ht,he⟩ := Outcome.bind_eq_ok.mp he
  cases ht.symm.trans hn
  have he := Outcome.pure_eq_ok.mp he
  split at he
  next hcontains =>
    obtain ⟨label,hlabel,hfirst⟩ := Outcome.exists_of_mem_mapM hl (List.contains_iff_mem.mp hcontains)
    obtain ⟨hmem,hkind⟩ := List.mem_filter.mp hlabel
    exact ⟨label,hmem,by simpa using hkind,hfirst⟩
  next =>
    rw [← he] at hm
    have hw := List.reduceOption_mem_iff.mpr hm
    rw [h] at hw
    cases hw

end HackToolchain.Link

namespace HackToolchain.Compile

open Asm (Line SymbolTable)
open Link (Registry)
open Machine (codeSize sumProgram sumUnits)
open Vm (Command Instruction staticName)

theorem contains_of_addFunction {unit name other : String} {before after : Registry}
    (h : addFunction unit name before = .ok after) (hc : after.contains other = true) :
    other = name ∨ before.contains other = true := by
  unfold addFunction at h
  split at h
  next => cases h
  next =>
    unfold Registry.add at h
    split at h
    next => cases h
    next =>
      cases h
      simp only [Registry.contains, Registry.lookup, Registry.lookup_put] at hc ⊢
      split at hc
      next he => exact Or.inl he
      next => exact Or.inr hc

theorem exists_of_surveyOutcomes {unit : String} {before after : Registry}
    {outcomes : List (Except Failure Command)} (h : surveyOutcomes unit before outcomes = (after, .ok ()))
    {name : String} (hc : after.contains name = true) : before.contains name = true ∨
      ∃ command, .ok command ∈ outcomes ∧ command.kind = .function ∧ command.first = .ok name := by
  induction outcomes generalizing before with
  | nil =>
    cases h
    exact Or.inl hc
  | cons outcome rest ih =>
    rw [surveyOutcomes] at h
    split at h
    next next hn =>
      obtain ⟨command,rfl,ha⟩ := Outcome.bind_eq_ok.mp hn
      rcases ih h with hc | ⟨found,hm,hf⟩
      · unfold addCommand at ha
        split at ha
        next hk =>
          obtain ⟨added,hfirst,ha⟩ := Outcome.bind_eq_ok.mp ha
          rcases contains_of_addFunction ha hc with rfl | hc
          · exact Or.inr ⟨command,List.mem_cons_self,hk,hfirst⟩
          · exact Or.inl hc
        next =>
          cases Outcome.pure_eq_ok.mp ha
          exact Or.inl hc
      · exact Or.inr ⟨found,List.mem_cons_of_mem _ hm,hf⟩
    next => cases h

theorem exists_of_surveyFrom {before after : Registry} {units : List CompilationUnit}
    (h : surveyFrom before units = (after, .ok ())) {name : String} (hc : after.contains name = true) :
    before.contains name = true ∨ ∃ unit ∈ units, ∃ command, .ok command ∈ unit.outcomes ∧
      command.kind = .function ∧ command.first = .ok name := by
  induction units generalizing before with
  | nil =>
    cases h
    exact Or.inl hc
  | cons unit rest ih =>
    rw [surveyFrom] at h
    split at h
    next next hn =>
      rcases ih h with hc | ⟨other,ho,hf⟩
      · rcases exists_of_surveyOutcomes hn hc with hc | hf
        · exact Or.inl hc
        · exact Or.inr ⟨unit,List.mem_cons_self,hf⟩
      · exact Or.inr ⟨other,List.mem_cons_of_mem unit ho,hf⟩
    next => cases h

theorem exists_of_survey {units : List CompilationUnit} {registry : Registry} (h : survey units = .ok registry)
    {name : String} (hc : registry.contains name = true) : ∃ unit ∈ units, ∃ command, .ok command ∈ unit.outcomes ∧
      command.kind = .function ∧ command.first = .ok name := by
  obtain ⟨_,ho,rfl⟩ := Outcome.map_eq_ok.mp h
  have hs : surveyFrom {} units = ((surveyFrom {} units).1, .ok ()) := Prod.ext rfl ho
  refine (exists_of_surveyFrom hs hc).resolve_left ?_
  simp [Registry.contains, Registry.lookup]

theorem exists_mem_programOf {units : List CompilationUnit} {program : List (String × Instruction)}
    (h : programOf units = .ok program) {unit : CompilationUnit} (hu : unit ∈ units) {command : Command}
    (hc : .ok command ∈ unit.outcomes) :
    ∃ instruction, command.instruction = .ok instruction ∧ (unit.name, instruction) ∈ program := by
  obtain ⟨parts,hp,h⟩ := Outcome.bind_eq_ok.mp h
  cases Outcome.pure_eq_ok.mp h
  obtain ⟨part,hpart,hi⟩ := Outcome.exists_mem_of_mapM hp hu
  obtain ⟨commands,hcommands,hi⟩ := Outcome.bind_eq_ok.mp hi
  obtain ⟨found,hfound,he⟩ := Outcome.exists_mem_of_mapM hcommands hc
  cases he
  obtain ⟨entry,hentry,hi⟩ := Outcome.exists_mem_of_mapM hi hfound
  obtain ⟨instruction,hinstruction,hi⟩ := Outcome.bind_eq_ok.mp hi
  cases Outcome.pure_eq_ok.mp hi
  exact ⟨instruction,hinstruction,List.mem_flatten.mpr ⟨part,hpart,hentry⟩⟩

/-- What a call or a jump of a unit has to find in the program. -/
inductive Answers (unit : String) : Instruction → String × Instruction → Prop
  | call (name owner : String) (arguments locals : Int) :
    Answers unit (.call name arguments) (owner, .function name locals)
  | goto (name : String) : Answers unit (.goto name) (unit, .label name)
  | ifGoto (name : String) : Answers unit (.ifGoto name) (unit, .label name)

section Quiet

variable {options : Options} {units : List CompilationUnit} {plan : Plan} {program : List (String × Instruction)}

theorem prepareMany_of_prepare (htwo : 2 ≤ units.length) (h : prepare options units = .ok plan) :
    prepareMany options units = .ok plan := by
  unfold prepare at h
  split at h
  next => cases h
  next => cases h
  next => simp at htwo
  next => exact h

theorem exists_function (hs : survey units = .ok plan.functions) (hp : programOf units = .ok program) {name : String}
    (hc : plan.functions.contains name = true) : ∃ owner locals, (owner, .function name locals) ∈ program := by
  obtain ⟨unit,hu,command,ho,hk,hn⟩ := exists_of_survey hs hc
  obtain ⟨instruction,hi,hm⟩ := exists_mem_programOf hp hu ho
  have hname := Vm.Command.named_of_first hi (by simp [hk]) hn
  rw [hk] at hname
  cases instruction with
  | function other locals =>
    cases hname
    exact ⟨unit.name,locals,hm⟩
  | _ => cases hname

theorem exists_entry (htwo : 2 ≤ units.length) (h : prepare options units = .ok plan) (hq : plan.warnings = [])
    (hp : programOf units = .ok program) (hb : wantsBootstrap options units = true) :
    ∃ owner locals, (owner, .function options.entry locals) ∈ program := by
  obtain ⟨calls,entry,labels,hs,-,-,he,-,-,hw,-⟩ := prepareMany_eq_ok (prepareMany_of_prepare htwo h)
  rw [hq, eq_comm, List.append_eq_nil_iff, List.append_eq_nil_iff] at hw
  rw [if_pos hb, hw.1.2] at he
  unfold entryWarnings at he
  split at he
  next hc => exact exists_function hs hp hc
  next =>
    split at he
    · cases he
    · cases he

/-- An instruction of the program comes from a command in the plan. -/
theorem exists_command (h : prepare options units = .ok plan) (hp : programOf units = .ok program) {unit : String}
    {instruction : Instruction} (hm : (unit, instruction) ∈ program) :
    ∃ owner commands, (owner, commands) ∈ plan.units ∧ owner ∈ units ∧ owner.name = unit ∧
      owner.commands = .ok commands ∧ ∃ command ∈ commands, command.instruction = .ok instruction := by
  obtain ⟨hunits,hcommands,-⟩ := units_of_prepare h
  obtain ⟨owner,ho,hname,commands,hc,command,hcommand,hi⟩ := exists_of_mem_programOf hp hm
  have hmem : owner ∈ plan.units.map Prod.fst := hunits ▸ ho
  obtain ⟨⟨other,body⟩,hentry,he⟩ := List.mem_map.mp hmem
  cases he
  have hbody : body = commands := Except.ok.inj ((hcommands _ hentry).symm.trans hc)
  subst hbody
  exact ⟨other,body,hentry,ho,hname,hc,command,hcommand,hi⟩

/-- A label that the check of a unit has found is a label of the program. -/
theorem exists_label (hp : programOf units = .ok program) {owner : CompilationUnit} (ho : owner ∈ units)
    {commands : List Command} (hc : owner.commands = .ok commands)
    (hcheck : Link.checkLabels owner.name commands = .ok []) {command : Command} (hm : command ∈ commands)
    (hj : Link.isJump command = true) {name : String} (hn : command.first = .ok name) :
    (owner.name, .label name) ∈ program := by
  obtain ⟨label,hmem,hk,hfirst⟩ := Link.exists_of_checkLabels hcheck hm hj hn
  obtain ⟨found,hfound,hin⟩ := exists_mem_programOf hp ho (mem_outcomes hc hmem)
  have hname := Vm.Command.named_of_first hfound (by simp [hk]) hfirst
  rw [hk] at hname
  cases found with
  | label _ =>
    cases hname
    exact hin
  | _ => cases hname

/-- Without warnings every call and every jump is answered. -/
theorem exists_answer (htwo : 2 ≤ units.length) (hl : options.checksLabels = true)
    (h : prepare options units = .ok plan) (hq : plan.warnings = []) (hp : programOf units = .ok program)
    {unit : String} {instruction : Instruction} (hm : (unit, instruction) ∈ program) {name : String}
    (hg : instruction.goesTo? = some name) : ∃ definition ∈ program, Answers unit instruction definition ∧
      definition.2.defines? = some name := by
  obtain ⟨calls,entry,labels,hs,-,hcalls,-,hlabels,-,hw,-⟩ := prepareMany_eq_ok (prepareMany_of_prepare htwo h)
  rw [hq, eq_comm, List.append_eq_nil_iff, List.append_eq_nil_iff, List.flatten_eq_nil_iff] at hw
  obtain ⟨⟨rfl,-⟩,hnone⟩ := hw
  obtain ⟨owner,commands,hentry,ho,rfl,hc,command,hcommand,hi⟩ := exists_command h hp hm
  have hcheck : Link.checkLabels owner.name commands = .ok [] := by
    obtain ⟨warnings,hwarnings,hcheck⟩ := Outcome.exists_mem_of_mapM hlabels hentry
    change labelWarnings options owner.name commands = .ok warnings at hcheck
    rwa [labelWarnings, if_pos hl, hnone warnings hwarnings] at hcheck
  cases instruction with
  | call target arguments =>
    cases hg
    obtain ⟨hk,hfirst⟩ := Vm.Command.first_of_named hi rfl
    have hin := Link.contains_of_checkCalls hcalls (List.mem_map_of_mem hentry) hcommand hk hfirst
    obtain ⟨definer,locals,hin⟩ := exists_function hs hp hin
    exact ⟨_,hin,.call name definer arguments locals,rfl⟩
  | goto target =>
    cases hg
    obtain ⟨hk,hfirst⟩ := Vm.Command.first_of_named hi rfl
    exact ⟨_,exists_label hp ho hc hcheck hcommand (by simp [Link.isJump, hk]) hfirst,.goto name,rfl⟩
  | ifGoto target =>
    cases hg
    obtain ⟨hk,hfirst⟩ := Vm.Command.first_of_named hi rfl
    exact ⟨_,exists_label hp ho hc hcheck hcommand (by simp [Link.isJump, hk]) hfirst,.ifGoto name,rfl⟩
  | _ => cases hg

end Quiet

section Code

variable {unit name : String} {number : Nat} {instruction : Instruction}

/-- The code of a call or a jump ends with the load of its target and a jump. -/
theorem template_of_goesTo (h : instruction.goesTo? = some name) (unit : String) (number : Nat) :
    ∃ before jump after, template unit number instruction = before ++ [atSymbol name, .compute jump] ++ after ∧
      codeSize after = 0 := by
  cases instruction with
  | call target arguments =>
    cases h
    refine ⟨Machine.callEntry arguments number,⟨.none,.zero,some .jmp⟩,[.label (returnLabel number)],?_,rfl⟩
    change linesOf (callPieces name arguments number) = _
    rw [Machine.linesOf_callPieces, List.append_assoc]
    rfl
  | goto target =>
    cases h
    exact ⟨[],_,[],rfl,rfl⟩
  | ifGoto target =>
    cases h
    exact ⟨popD,_,[],rfl,rfl⟩
  | _ => cases h

theorem template_of_defines (h : instruction.defines? = some name) (unit : String) (number : Nat) :
    ∃ rest, template unit number instruction = .label name :: rest := by
  cases instruction with
  | label other =>
    cases h
    exact ⟨[],rfl⟩
  | function other locals =>
    cases h
    exact ⟨_,template_function unit number name locals⟩
  | _ => cases h

/-- A line that loads no symbol but a predefined one. -/
def isPlain : Line → Bool
  | .load (.symbol name) => (SymbolTable.predefinedEntries.map (·.1)).contains name
  | _ => true

theorem isPlain_registers : isPlain (atSymbol "SP") = true ∧ isPlain (atSymbol "LCL") = true ∧
    isPlain (atSymbol "ARG") = true ∧ isPlain (atSymbol "THIS") = true ∧ isPlain (atSymbol "THAT") = true ∧
    isPlain (atSymbol "R13") = true ∧ isPlain (atSymbol "R14") = true := by decide

theorem isPlain_atNumber (value : Int) : isPlain (atNumber value) = true := rfl

theorem isPlain_compute (instruction : Asm.Compute) : isPlain (.compute instruction) = true := rfl

theorem isPlain_label (name : String) : isPlain (.label name) = true := rfl

/-- The symbols that the code of an instruction may load besides the predefined ones. -/
def Loads (lines : List Line) (unit : String) (instruction : Instruction) (name : String) : Prop :=
  .label name ∈ lines ∨ instruction.goesTo? = some name ∨
    ∃ index, name = staticName unit index ∧ (instruction = .push .static index ∨ instruction = .pop .static index)

theorem plain_of_mem_comparison {operator : Vm.Operator} {jump : Asm.Jump} {line : Line}
    (hm : line ∈ comparison operator jump number) : isPlain line = true ∨
      ∃ name, line = atSymbol name ∧ .label name ∈ comparison operator jump number := by
  have hlines : ∀ line ∈ comparison operator jump number, isPlain line = true ∨
      line = atSymbol (trueLabel operator number) ∨ line = atSymbol (endLabel operator number) := by
    simp [comparison, popOverNext, popD, atTop, setA, setAM, setD, setM, leap, leapAlways, isPlain_registers,
      isPlain_compute, isPlain_label]
  rcases hlines line hm with hp | rfl | rfl
  · exact Or.inl hp
  · exact Or.inr ⟨_,rfl,by simp [comparison]⟩
  · exact Or.inr ⟨_,rfl,by simp [comparison]⟩

theorem plain_of_mem_fixedPlace {segment : Vm.Segment} {index : Nat} {line : Line}
    (h : fixedPlace (some unit) segment index = .ok line) :
    isPlain line = true ∨ segment = .static ∧ line = atSymbol (staticName unit index) := by
  unfold fixedPlace at h
  split at h
  · cases h
    exact Or.inr ⟨rfl,rfl⟩
  · cases h
    unfold pointerEntry
    split
    · exact Or.inl isPlain_registers.2.2.2.1
    · exact Or.inl isPlain_registers.2.2.2.2.1
  · cases h
    exact Or.inl rfl

theorem isPlain_base {segment : Vm.Segment} {base : String} (h : segment.base? = some base) :
    isPlain (atSymbol base) = true := by
  cases segment <;> cases h <;> decide

attribute [local simp] isPlain_registers isPlain_atNumber isPlain_compute isPlain_label setA setAM setD setM leap
  leapAlways pushD popD

theorem plain_of_mem_push {segment : Vm.Segment} {index : Nat} {line : Line}
    (hm : line ∈ linesOf (pushPieces (some unit) segment index)) :
    isPlain line = true ∨ segment = .static ∧ line = atSymbol (staticName unit index) := by
  rcases Machine.segment_cases segment with rfl | ⟨hn,⟨base,register,hb,-⟩ | ⟨hb,-⟩⟩
  · have hlines : ∀ line ∈ linesOf (pushPieces (some unit) .constant index), isPlain line = true := by
      simp [linesOf, pushPieces, Piece.lines]
    exact Or.inl (hlines line hm)
  · rw [Machine.linesOf_push_behind hb] at hm
    have hlines : ∀ line ∈ [atNumber index, setD (.copy .a), atSymbol base, setA (.add .m .d), setD (.copy .m)] ++
        pushD, isPlain line = true := by
      simp [isPlain_base hb]
    exact Or.inl (hlines line hm)
  · obtain ⟨place,hf⟩ := Machine.exists_fixedPlace unit segment index
    rw [Machine.linesOf_push_fixed hn hb hf] at hm
    have hlines : ∀ line ∈ [place, setD (.copy .m)] ++ pushD, line = place ∨ isPlain line = true := by simp
    rcases hlines line hm with rfl | hp
    · exact plain_of_mem_fixedPlace hf
    · exact Or.inl hp

theorem plain_of_mem_pop {segment : Vm.Segment} {index : Nat} {line : Line}
    (hm : line ∈ linesOf (popPieces (some unit) segment index)) :
    isPlain line = true ∨ segment = .static ∧ line = atSymbol (staticName unit index) := by
  cases hb : segment.base? with
  | some base =>
    rw [Machine.linesOf_pop_behind hb] at hm
    have hlines : ∀ line ∈ [atNumber index, setD (.copy .a), atSymbol base, setD (.add .m .d), atSymbol "R13",
        setM (.copy .d)] ++ popD ++ [atSymbol "R13", setA (.copy .m), setM (.copy .d)], isPlain line = true := by
      simp [isPlain_base hb]
    exact Or.inl (hlines line hm)
  | none =>
    obtain ⟨place,hf⟩ := Machine.exists_fixedPlace unit segment index
    rw [Machine.linesOf_pop_fixed hb hf] at hm
    have hlines : ∀ line ∈ popD ++ [place, setM (.copy .d)], line = place ∨ isPlain line = true := by simp
    rcases hlines line hm with rfl | hp
    · exact plain_of_mem_fixedPlace hf
    · exact Or.inl hp

theorem plain_of_mem_call {arguments : Int} {line : Line} (hm : line ∈ linesOf (callPieces name arguments number)) :
    isPlain line = true ∨ line = atSymbol name ∨ line = atSymbol (returnLabel number) := by
  have hlines : ∀ line ∈ linesOf (callPieces name arguments number),
      isPlain line = true ∨ line = atSymbol name ∨ line = atSymbol (returnLabel number) := by
    simp [linesOf, callPieces, Piece.lines, callerRegisters]
  exact hlines line hm

/-- A load of a template names a predefined symbol, a label of the template, the target of the instruction or a static
entry. -/
theorem loads_of_mem_template {line : Line} (hm : line ∈ template unit number instruction) :
    isPlain line = true ∨
      ∃ name, line = atSymbol name ∧ Loads (template unit number instruction) unit instruction name := by
  cases instruction with
  | operate operator =>
    rw [Machine.template_operate] at hm ⊢
    cases operator with
    | eq | gt | lt =>
      rcases plain_of_mem_comparison hm with hp | ⟨name,rfl,hl⟩
      · exact Or.inl hp
      · exact Or.inr ⟨name,rfl,Or.inl hl⟩
    | _ =>
      refine Or.inl ?_
      revert line
      simp [operation, popOverNext, atTop]
  | push segment index =>
    rcases plain_of_mem_push hm with hp | ⟨rfl,rfl⟩
    · exact Or.inl hp
    · exact Or.inr ⟨_,rfl,Or.inr (Or.inr ⟨index,rfl,Or.inl rfl⟩)⟩
  | pop segment index =>
    rcases plain_of_mem_pop hm with hp | ⟨rfl,rfl⟩
    · exact Or.inl hp
    · exact Or.inr ⟨_,rfl,Or.inr (Or.inr ⟨index,rfl,Or.inr rfl⟩)⟩
  | label name =>
    refine Or.inl ?_
    revert line
    simp [template, linesOf, pieces, Piece.lines]
  | goto name =>
    have hlines : ∀ line ∈ [atSymbol name, leapAlways], isPlain line = true ∨ line = atSymbol name := by simp
    rcases hlines line hm with hp | rfl
    · exact Or.inl hp
    · exact Or.inr ⟨name,rfl,Or.inr (Or.inl rfl)⟩
  | ifGoto name =>
    have hlines : ∀ line ∈ popD ++ [atSymbol name, leap (.copy .d) .jne],
        isPlain line = true ∨ line = atSymbol name := by
      simp
    rcases hlines line hm with hp | rfl
    · exact Or.inl hp
    · exact Or.inr ⟨name,rfl,Or.inr (Or.inl rfl)⟩
  | function name locals =>
    rw [template_function] at hm
    have hzero : ∀ line ∈ pushZero, isPlain line = true := by simp [pushZero]
    rcases List.mem_cons.mp hm with rfl | hm
    · exact Or.inl rfl
    · obtain ⟨lines,hl,hm⟩ := List.mem_flatten.mp hm
      cases List.eq_of_mem_replicate hl
      exact Or.inl (hzero line hm)
  | call name arguments =>
    rcases plain_of_mem_call hm with hp | rfl | rfl
    · exact Or.inl hp
    · exact Or.inr ⟨name,rfl,Or.inr (Or.inl rfl)⟩
    · refine Or.inr ⟨_,rfl,Or.inl ?_⟩
      change _ ∈ linesOf (callPieces name arguments number)
      simp [Machine.linesOf_callPieces]
  | ret =>
    refine Or.inl ?_
    revert line
    simp [template, linesOf, pieces, Piece.lines, returnCode, callerRegisters]

end Code

section Link

variable {options : Options} {bootstrap : Bool} {program : List (String × Instruction)}
  {sources : List Asm.SourceLine} {allocated : List String} {table : SymbolTable} {words : List Nat}
  {code : List Line} {name : String}

/-- The last load in the code `upto` is that of a transfer, and its word is the address of a definition: the label that
follows the code `start`. -/
structure Linked (code upto start : List Line) (words : List Nat) (allocated : List String) (name : String) :
    Prop where
  within : upto <+: code
  definition : ∃ rest, code = start ++ .label name :: rest
  word : ∃ before jump after, upto = before ++ [atSymbol name, .compute jump] ++ after ∧ codeSize after = 0 ∧
    words[codeSize before]? = some (codeSize start)
  not_variable : name ∉ allocated

theorem linked_of_label (h : Asm.Resolved sources allocated table words) (hr : Asm.Reads sources code)
    {upto start before after : List Line} {jump : Asm.Compute} (hcode : upto <+: code)
    (hupto : upto = before ++ [atSymbol name, .compute jump] ++ after) (hsize : codeSize after = 0)
    (hstart : ∃ rest, code = start ++ .label name :: rest) : Linked code upto start words allocated name := by
  obtain ⟨rest,hrest⟩ := hstart
  obtain ⟨hs,hg,hn⟩ := h.label_at (hrest ▸ hr)
  obtain ⟨more,hmore⟩ := hcode
  have hload : code = before ++ atSymbol name :: (.compute jump :: (after ++ more)) := by
    rw [← hmore, hupto]
    simp
  obtain ⟨word,hword,hv⟩ := h.load_at (hload ▸ hr)
  rw [Machine.value?_symbol hs, hg] at hv
  cases hv
  exact ⟨⟨more,hmore⟩,⟨rest,hrest⟩,⟨before,jump,after,hupto,hsize,hword⟩,hn⟩

theorem label_of_defines {target : Nat} {definition : String × Instruction} (he : program[target]? = some definition)
    (hd : definition.2.defines? = some name) (options : Options) (bootstrap : Bool) :
    ∃ rest, codeOf options bootstrap program =
      codeOf options bootstrap (program.take target) ++ .label name :: rest := by
  obtain ⟨number,rest,hn,hrest⟩ := codeOf_at he options bootstrap
  obtain ⟨more,hmore⟩ := template_of_defines hd definition.1 number
  rw [hn, hmore] at hrest
  exact ⟨more ++ rest,by rw [hrest]; simp⟩

theorem label_mem_of_defines {definition : String × Instruction} (hm : definition ∈ program)
    (hd : definition.2.defines? = some name) (options : Options) (bootstrap : Bool) :
    .label name ∈ codeOf options bootstrap program := by
  obtain ⟨target,ht⟩ := List.getElem?_of_mem hm
  obtain ⟨rest,hrest⟩ := label_of_defines ht hd options bootstrap
  simp [hrest]

theorem linked_of_goesTo (h : Asm.Resolved sources allocated table words)
    (hr : Asm.Reads sources (codeOf options bootstrap program)) {position target : Nat} {unit : String}
    {instruction : Instruction} {definition : String × Instruction}
    (he : program[position]? = some (unit, instruction)) (hg : instruction.goesTo? = some name)
    (ht : program[target]? = some definition) (hd : definition.2.defines? = some name) :
    Linked (codeOf options bootstrap program) (codeOf options bootstrap (program.take (position + 1)))
      (codeOf options bootstrap (program.take target)) words allocated name := by
  obtain ⟨number,rest,hn,hrest⟩ := codeOf_at he options bootstrap
  obtain ⟨before,jump,after,htemplate,hsize⟩ := template_of_goesTo hg unit number
  have hupto : codeOf options bootstrap (program.take (position + 1)) =
      (codeOf options bootstrap (program.take position) ++ before) ++ [atSymbol name, .compute jump] ++ after := by
    rw [hn, htemplate]
    simp
  exact linked_of_label h hr ⟨rest,hrest.symm⟩ hupto hsize (label_of_defines ht hd options bootstrap)

theorem bootstrapCode_eq (options : Options) : ∃ before jump,
    bootstrapCode options = before ++ [atSymbol options.entry, .compute jump] ++ [.label (returnLabel 1)] := by
  refine ⟨[atNumber options.stackBase, setD (.copy .a), atSymbol "SP", setM (.copy .d)] ++ Machine.callEntry 0 1,
    ⟨.none,.zero,some .jmp⟩,?_⟩
  change [atNumber options.stackBase, setD (.copy .a), atSymbol "SP", setM (.copy .d)] ++
    linesOf (callPieces options.entry 0 1) = _
  rw [Machine.linesOf_callPieces]
  simp [leapAlways, leap]

theorem linked_bootstrap (h : Asm.Resolved sources allocated table words)
    (hr : Asm.Reads sources (codeOf options true program)) {target : Nat} {definition : String × Instruction}
    (ht : program[target]? = some definition) (hd : definition.2.defines? = some options.entry) :
    Linked (codeOf options true program) (bootstrapCode options) (codeOf options true (program.take target)) words
      allocated options.entry := by
  obtain ⟨before,jump,hupto⟩ := bootstrapCode_eq options
  exact linked_of_label h hr ⟨codeFrom 2 program,rfl⟩ hupto rfl (label_of_defines ht hd options true)

theorem not_variable_of_isPlain (h : Asm.Resolved sources allocated table words) {operand : Asm.Operand}
    (hp : isPlain (.load operand) = true) (hk : Text.kept operand.text.toList = name.toList)
    (hs : Asm.isSymbol name.toList = true) : name ∉ allocated := by
  cases operand with
  | number value =>
    have ht := Text.kept_of_isToken (Text.isToken_toString value)
    rw [← hk, Asm.Operand.text, ht, Text.isSymbol_toString] at hs
    cases hs
  | symbol other =>
    obtain ⟨⟨_,address⟩,hm,rfl⟩ := List.mem_map.mp (List.contains_iff_mem.mp hp)
    have htokens : ∀ row ∈ SymbolTable.predefinedEntries, Text.IsToken row.1.toList := by decide
    rw [Asm.Operand.text, Text.kept_of_isToken (htokens _ hm)] at hk
    rw [← String.toList_injective hk]
    exact h.not_mem_allocated (List.mem_append_left _ hm)

theorem not_variable_of_label (h : Asm.Resolved sources allocated table words) (hr : Asm.Reads sources code)
    {other : String} (hm : .label other ∈ code) (hk : Text.kept other.toList = name.toList) : name ∉ allocated := by
  obtain ⟨before,after,he⟩ := List.append_of_mem hm
  obtain ⟨hs,-,hn⟩ := h.label_at (he ▸ hr)
  rw [Text.kept_of_isToken (Asm.isToken_of_isSymbol hs)] at hk
  exact String.toList_injective hk ▸ hn

theorem loads_of_mem_bootstrap {line : Line} (hm : line ∈ bootstrapCode options) :
    isPlain line = true ∨
      ∃ name, line = atSymbol name ∧ (.label name ∈ bootstrapCode options ∨ name = options.entry) := by
  have hcode : bootstrapCode options =
      [atNumber options.stackBase, setD (.copy .a), atSymbol "SP", setM (.copy .d)] ++
        linesOf (callPieces options.entry 0 1) := rfl
  have hset : ∀ line ∈ [atNumber options.stackBase, setD (.copy .a), atSymbol "SP", setM (.copy .d)],
      isPlain line = true := by
    simp [isPlain_registers, isPlain_atNumber, setD, setM, isPlain_compute]
  rw [hcode] at hm
  rcases List.mem_append.mp hm with hm | hm
  · exact Or.inl (hset line hm)
  · rcases plain_of_mem_call hm with hp | rfl | rfl
    · exact Or.inl hp
    · exact Or.inr ⟨_,rfl,Or.inr rfl⟩
    · obtain ⟨before,jump,he⟩ := bootstrapCode_eq options
      exact Or.inr ⟨_,rfl,Or.inl (by simp [he])⟩

/-- The program pushes or pops a static entry. -/
def Refers (program : List (String × Instruction)) (unit : String) (index : Nat) : Prop :=
  (unit, .push .static index) ∈ program ∨ (unit, .pop .static index) ∈ program

instance (program : List (String × Instruction)) (unit : String) (index : Nat) :
    Decidable (Refers program unit index) :=
  inferInstanceAs (Decidable (_ ∨ _))

/-- If all that the code goes to is defined, the variables are static entries. -/
theorem refers_of_allocated (h : Asm.Resolved sources allocated table words)
    (hr : Asm.Reads sources (codeOf options bootstrap program))
    (hsymbols : ∀ entry ∈ program, Asm.isSymbol entry.1.toList = true)
    (hfound : ∀ entry ∈ program, ∀ name, entry.2.goesTo? = some name → .label name ∈ codeOf options bootstrap program)
    (hentry : bootstrap = true → .label options.entry ∈ codeOf options bootstrap program) (hn : name ∈ allocated) :
    ∃ unit index, name = staticName unit index ∧ Refers program unit index := by
  obtain ⟨hs,operand,hm,hk⟩ := h.exists_load hr hn
  rcases exists_of_mem_codeOf hm with ⟨hb,hm⟩ | ⟨unit,number,instruction,hi,hm,hsub⟩
  · rcases loads_of_mem_bootstrap hm with hp | ⟨other,he,hl | rfl⟩
    · exact absurd hn (not_variable_of_isPlain h hp hk hs)
    · cases he
      have hl : .label other ∈ codeOf options bootstrap program := by
        rw [codeOf, if_pos hb]
        exact List.mem_append_left _ hl
      exact absurd hn (not_variable_of_label h hr hl hk)
    · cases he
      exact absurd hn (not_variable_of_label h hr (hentry hb) hk)
  · rcases loads_of_mem_template hm with hp | ⟨other,he,hl | hg | ⟨index,rfl,hi'⟩⟩
    · exact absurd hn (not_variable_of_isPlain h hp hk hs)
    · cases he
      exact absurd hn (not_variable_of_label h hr (hsub hl) hk)
    · cases he
      exact absurd hn (not_variable_of_label h hr (hfound _ hi other hg) hk)
    · cases he
      have ht := Asm.isToken_of_isSymbol (isSymbol_staticName (hsymbols _ hi) index)
      rw [Asm.Operand.text, Text.kept_of_isToken ht] at hk
      refine ⟨unit,index,(String.toList_injective hk).symm,?_⟩
      rcases hi' with rfl | rfl
      · exact Or.inl hi
      · exact Or.inr hi

end Link

theorem exists_plan {options : Options} {units : List CompilationUnit} {summary : Summary} {text : String}
    (h : compile options units = .ok (summary, text)) :
    ∃ plan, prepare options units = .ok plan ∧ plan.warnings = summary.warnings := by
  obtain ⟨plan,hplan,h⟩ := Outcome.bind_eq_ok.mp h
  obtain ⟨_,_,h⟩ := Outcome.bind_eq_ok.mp h
  obtain ⟨rfl,-⟩ := Prod.mk.inj (Outcome.pure_eq_ok.mp h)
  exact ⟨plan,hplan,rfl⟩

/-- In several units that are compiled without a warning and assembled, every call and every jump is encoded as the
address of its function, or of its label in the same unit, and only static entries become variables. -/
theorem warning_free_program_is_linked {options : Options} {units : List CompilationUnit} {summary : Summary}
    {text file : String} {session assembled : Asm.Session} {words : List Nat} (htwo : 2 ≤ units.length)
    (hnames : ∀ unit ∈ units, Asm.isSymbol unit.name.toList = true) (hlabels : options.checksLabels = true)
    (hcompile : compile options units = .ok (summary, text)) (hquiet : summary.warnings = [])
    (hassemble : session.assemble text file = (assembled, .ok words)) :
    ∃ program allocated code, programOf units = .ok program ∧
      code = codeOf options (wantsBootstrap options units) program ∧ Asm.Reads (Asm.sourceLines text file) code ∧
      assembled.symbols.entries = SymbolTable.predefinedEntries ++ Asm.labelEntries 0 (Asm.sourceLines text file) ++
        allocated.zipIdx Asm.firstVariable ∧
      (∀ position unit instruction name, program[position]? = some (unit, instruction) →
        instruction.goesTo? = some name → ∃ target definition, program[target]? = some definition ∧
          Answers unit instruction definition ∧
          Linked code (codeOf options (wantsBootstrap options units) (program.take (position + 1)))
            (codeOf options (wantsBootstrap options units) (program.take target)) words allocated name) ∧
      (wantsBootstrap options units = true → ∃ target owner locals,
        program[target]? = some (owner, .function options.entry locals) ∧
          Linked code (bootstrapCode options)
            (codeOf options (wantsBootstrap options units) (program.take target)) words allocated options.entry) ∧
      ∀ name ∈ allocated, ∃ unit index, name = staticName unit index ∧ Refers program unit index := by
  obtain ⟨plan,hplan,hwarnings⟩ := exists_plan hcompile
  rw [hquiet] at hwarnings
  obtain ⟨program,-,hp,-⟩ := code_of_compile hcompile
  have hentry : wantsBootstrap options units = true → ∃ owner locals,
      (owner, .function options.entry locals) ∈ program := exists_entry htwo hplan hwarnings hp
  -- The entry is the name of a function, so it stays on its line.
  have hunbroken : wantsBootstrap options units = true → Text.IsUnbroken options.entry.toList := by
    intro hb
    obtain ⟨owner,locals,hm⟩ := hentry hb
    exact Text.IsToken.isUnbroken (isSound_of_mem_programOf hp hm).1
  obtain ⟨found,hf,hreads⟩ := reads_of_compile (fun unit hm => (Asm.isToken_of_isSymbol (hnames unit hm)).isUnbroken)
    hunbroken hcompile file
  obtain rfl : program = found := Except.ok.inj (hp.symm.trans hf)
  obtain ⟨allocated,hr⟩ := Asm.resolved_of_assembleLines (Machine.assembleLines_of_assemble hassemble)
  have hanswer := @exists_answer _ _ _ _ htwo hlabels hplan hwarnings hp
  refine ⟨program,allocated,_,hp,rfl,hreads,hr.entries,?_,?_,?_⟩
  · intro position unit instruction name he hg
    obtain ⟨definition,hm,ha,hd⟩ := hanswer (List.mem_of_getElem? he) hg
    obtain ⟨target,ht⟩ := List.getElem?_of_mem hm
    exact ⟨target,definition,ht,ha,linked_of_goesTo hr hreads he hg ht hd⟩
  · intro hb
    obtain ⟨owner,locals,hm⟩ := hentry hb
    obtain ⟨target,ht⟩ := List.getElem?_of_mem hm
    rw [hb] at hreads ⊢
    exact ⟨target,owner,locals,ht,linked_bootstrap hr hreads ht rfl⟩
  · intro name hn
    refine refers_of_allocated hr hreads ?_ ?_ ?_ hn
    · intro entry hm
      obtain ⟨unit,hunit,hname,-⟩ := exists_of_mem_programOf hp hm
      exact hname ▸ hnames unit hunit
    · intro entry hm name hg
      obtain ⟨definition,hdefinition,-,hd⟩ := hanswer hm hg
      exact label_mem_of_defines hdefinition hd _ _
    · intro hb
      obtain ⟨owner,locals,hm⟩ := hentry hb
      exact label_mem_of_defines hm rfl _ _

theorem sum_is_linked : ∃ summary text assembled words allocated, 2 ≤ sumUnits.length ∧
    (∀ unit ∈ sumUnits, Asm.isSymbol unit.name.toList = true) ∧ ({} : Options).checksLabels = true ∧
    compile {} sumUnits = .ok (summary, text) ∧ summary.warnings = [] ∧
    Asm.Session.new.assemble text "out.asm" = (assembled, .ok words) ∧ programOf sumUnits = .ok sumProgram ∧
    (∃ target owner locals, sumProgram[target]? = some (owner, .function "f" locals) ∧
      Linked (codeOf {} true sumProgram) (codeOf {} true (sumProgram.take 3)) (codeOf {} true (sumProgram.take target))
        words allocated "f") ∧
    (∃ target, sumProgram[target]? = some ("Sys", .label "H") ∧
      Linked (codeOf {} true sumProgram) (codeOf {} true (sumProgram.take 6)) (codeOf {} true (sumProgram.take target))
        words allocated "H") ∧
    (∃ target owner locals, sumProgram[target]? = some (owner, .function "Sys.init" locals) ∧
      Linked (codeOf {} true sumProgram) (bootstrapCode {}) (codeOf {} true (sumProgram.take target)) words allocated
        "Sys.init") ∧
    ∀ name ∈ allocated, ∃ unit index, name = staticName unit index ∧ Refers sumProgram unit index := by
  have hnames : ∀ unit ∈ sumUnits, Asm.isSymbol unit.name.toList = true := by decide
  have hentry : Text.IsUnbroken ({} : Options).entry.toList := by decide
  obtain ⟨summary,text,assembled,words,-,hc,hq,ha,-⟩ := Machine.exists_build (by decide) hentry
    Machine.sumUnits_compiled Machine.programOf_sumUnits Machine.isLoadable_sumProgram
  obtain ⟨program,allocated,code,hp,hcode,-,-,hlinks,hboot,hvariables⟩ :=
    warning_free_program_is_linked (by decide) hnames rfl hc hq ha
  obtain rfl : sumProgram = program := Except.ok.inj (Machine.programOf_sumUnits.symm.trans hp)
  subst hcode
  refine ⟨summary,text,assembled,words,allocated,by decide,hnames,rfl,hc,hq,ha,hp,?_,?_,hboot rfl,hvariables⟩
  · obtain ⟨target,definition,ht,hanswer,hlinked⟩ := hlinks 2 "Sys" (.call "f" 1) "f" rfl rfl
    cases hanswer with
    | call _ owner _ locals => exact ⟨target,owner,locals,ht,hlinked⟩
  · obtain ⟨target,definition,ht,hanswer,hlinked⟩ := hlinks 5 "Sys" (.goto "H") "H" rfl rfl
    cases hanswer
    exact ⟨target,ht,hlinked⟩

end HackToolchain.Compile
