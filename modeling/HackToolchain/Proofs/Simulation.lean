import HackToolchain.Asm.Session
import HackToolchain.Proofs.Loading
import HackToolchain.Proofs.Transfers

/-! # The processor runs the stack machine

Code that lies in the program memory, each instruction at the address of its position, takes the processor along every
run of the stack machine: step by step it reaches the address of the next position with the same data memory.
-/
namespace HackToolchain.Machine

open Asm (Line SymbolTable)
open Compile
open Vm (Image Instruction State)

theorem template_operate (unit : String) (number : Nat) (operator : Vm.Operator) :
    template unit number (.operate operator) = operation operator number := by
  cases operator <;> rfl

theorem template_ifGoto (unit : String) (number : Nat) (name : String) :
    template unit number (.ifGoto name) = popD ++ [atSymbol name, leap (.copy .d) .jne] := rfl

/-- The code of an image lies in the program memory, each instruction at the address of its position and each static
entry where the code looks for it. -/
structure Placed (rom : Memory) (table : SymbolTable) (image : Image) : Prop where
  standard : Standard table
  sound : ∀ entry ∈ image.code, entry.2.IsSound
  finds : ∀ entry ∈ image.code, Finds table image.statics entry.1
  holds : ∀ position unit instruction, image.code[position]? = some (unit, instruction) → ∃ number,
    Holds rom table (image.address position) (template unit number instruction) ∧
      image.address (position + 1) = image.address position + codeSize (template unit number instruction)

namespace Placed

variable {rom : Memory} {table : SymbolTable} {image : Image}

theorem target (h : Placed rom table image) {name : String} {position : Nat} (ht : image.target? name = some position) :
    Asm.isSymbol name.toList = true ∧ table.get? name = some (image.address position) := by
  obtain ⟨hlt,hd,-⟩ := List.findIdx?_eq_some_iff_getElem.mp ht
  have hentry := List.getElem?_eq_getElem hlt
  generalize image.code[position] = entry at hd hentry
  obtain ⟨unit,instruction⟩ := entry
  have hd : instruction.defines? = some name := by simpa using hd
  obtain ⟨number,hc,-⟩ := h.holds position unit instruction hentry
  cases instruction with
  | label other =>
    cases hd
    exact hc.1
  | function other locals =>
    cases hd
    exact hc.1
  | _ => cases hd

/-- The processor takes the step that the stack machine takes. -/
theorem step (h : Placed rom table image) {state next : State} (hs : image.step state = some next) :
    Leads rom (image.address state.position) state.ram (image.address next.position) next.ram := by
  obtain ⟨⟨unit,instruction⟩,he,hs⟩ := Option.bind_eq_some_iff.mp hs
  obtain ⟨number,hc,hnext⟩ := h.holds _ _ _ he
  have hsound : instruction.IsSound := h.sound _ (List.mem_of_getElem? he)
  have hfinds : Finds table image.statics unit := h.finds _ (List.mem_of_getElem? he)
  cases instruction with
  | operate operator =>
    obtain ⟨changed,ho,hs⟩ := Option.bind_eq_some_iff.mp hs
    cases hs
    rw [template_operate] at hc hnext
    rw [hnext]
    exact leads_operate h.standard hc ho
  | push segment index =>
    obtain ⟨changed,ho,hs⟩ := Option.bind_eq_some_iff.mp hs
    cases hs
    rw [hnext]
    exact (does_push h.standard hfinds hsound hc ho).leads hc
  | pop segment index =>
    obtain ⟨changed,ho,hs⟩ := Option.bind_eq_some_iff.mp hs
    cases hs
    rw [hnext]
    exact (does_pop h.standard hfinds hsound.2 hc ho).leads hc
  | label name =>
    cases hs
    rw [hnext]
    exact Leads.refl rom _ state.ram
  | goto name =>
    obtain ⟨position,ht,hs⟩ := Option.bind_eq_some_iff.mp hs
    cases hs
    obtain ⟨hname,hg⟩ := h.target ht
    obtain ⟨hb,hl⟩ := loads_label hname hg hc.1
    exact leads_goto hb hl hc
  | ifGoto name =>
    obtain ⟨⟨value,changed⟩,hp,hs⟩ := Option.bind_eq_some_iff.mp hs
    rw [template_ifGoto] at hc hnext
    obtain ⟨hpop,hload,-⟩ := holds_append.mp hc
    dsimp only at hs
    split at hs
    next hv =>
      cases hs
      obtain ⟨loaded,hb,hl⟩ := loads_of_lies hload
      have hlead := leads_ifGoto h.standard hb hl hc hp
      rw [if_pos hv] at hlead
      rw [hnext]
      exact hlead
    next hv =>
      obtain ⟨position,ht,hs⟩ := Option.bind_eq_some_iff.mp hs
      cases hs
      obtain ⟨hname,hg⟩ := h.target ht
      obtain ⟨hb,hl⟩ := loads_label hname hg hload
      have hlead := leads_ifGoto h.standard hb hl hc hp
      rwa [if_neg hv] at hlead
  | function name locals =>
    obtain ⟨changed,ho,hs⟩ := Option.bind_eq_some_iff.mp hs
    cases hs
    rw [template_function] at hc hnext
    have hsize : codeSize (.label name :: (List.replicate locals.toNat pushZero).flatten) =
        codeSize (List.replicate locals.toNat pushZero).flatten := by
      simp [codeSize, Line.size]
    rw [hnext, hsize]
    exact (does_pushZeros h.standard ho).leads hc.2
  | call name arguments =>
    obtain ⟨position,ht,hs⟩ := Option.bind_eq_some_iff.mp hs
    obtain ⟨changed,ho,hs⟩ := Option.bind_eq_some_iff.mp hs
    cases hs
    obtain ⟨hname,hg⟩ := h.target ht
    exact leads_call h.standard hc hname hg hnext ho
  | ret =>
    obtain ⟨⟨back,changed⟩,ho,hs⟩ := Option.bind_eq_some_iff.mp hs
    obtain ⟨position,hp,hs⟩ := Option.bind_eq_some_iff.mp hs
    cases hs
    have hback : image.address position = back.toNat := by
      simpa using List.find?_some hp
    rw [hback]
    exact leads_return h.standard hc ho

/-- The processor takes every run that the stack machine takes. -/
theorem run (h : Placed rom table image) {n : Nat} {state last : State} (hr : image.run n state = some last) :
    Leads rom (image.address state.position) state.ram (image.address last.position) last.ram := by
  induction n generalizing state with
  | zero =>
    cases hr
    exact Leads.refl rom _ _
  | succ n ih =>
    obtain ⟨next,hs,hr⟩ := Option.bind_eq_some_iff.mp hr
    exact (h.step hs).trans (ih hr)

theorem address_mono (h : Placed rom table image) {p q : Nat} (hpq : p ≤ q) (hq : q ≤ image.code.length) :
    image.address p ≤ image.address q := by
  induction q, hpq using Nat.le_induction with
  | base => exact Nat.le_refl _
  | succ q hpq ih =>
    obtain ⟨number,-,hnext⟩ := h.holds q _ _ (List.getElem?_eq_getElem (Nat.lt_of_succ_le hq))
    have hle := ih (Nat.le_of_succ_le hq)
    omega

theorem position_after_call (h : Placed rom table image) {position : Nat} {unit name : String} {arguments : Int}
    (he : image.code[position]? = some (unit, .call name arguments)) :
    image.position? (BitVec.ofNat 16 (image.address (position + 1))) = some (position + 1) := by
  obtain ⟨number,hc,hnext⟩ := h.holds position unit _ he
  obtain ⟨-,-,hlt,hb⟩ := returnLabel_of_holds hc hnext
  have hlength : position < image.code.length := (List.getElem?_eq_some_iff.mp he).1
  rw [Image.position?, toNat_ofNat_of_lt hb, List.find?_range_eq_some]
  refine ⟨by simp,by simp; omega,?_⟩
  intro other ho
  have hle := h.address_mono (Nat.le_of_lt_succ ho) (Nat.le_of_lt hlength)
  simp only [Bool.not_eq_true', beq_eq_false_iff_ne]
  omega

end Placed

/-- The image of a program: a position has as its address the length of the code before it. -/
def imageOf (options : Options) (bootstrap : Bool) (program : List (String × Instruction)) (statics : Vm.Statics) :
    Image :=
  ⟨program, fun position => codeSize (codeOf options bootstrap (program.take position)), statics⟩

theorem imageOf_address (options : Options) (bootstrap : Bool) (program : List (String × Instruction))
    (statics : Vm.Statics) (position : Nat) : (imageOf options bootstrap program statics).address position =
      codeSize (codeOf options bootstrap (program.take position)) := rfl

theorem placed_of_holds {rom : Memory} {options : Options} {bootstrap : Bool} {program : List (String × Instruction)}
    {table : SymbolTable} {statics : Vm.Statics} (hs : Standard table) (hi : ∀ entry ∈ program, entry.2.IsSound)
    (hf : ∀ entry ∈ program, Finds table statics entry.1) (hc : Holds rom table 0 (codeOf options bootstrap program)) :
    Placed rom table (imageOf options bootstrap program statics) := by
  refine ⟨hs,hi,hf,?_⟩
  intro position unit instruction he
  change program[position]? = some (unit, instruction) at he
  obtain ⟨number,rest,hn,hrest⟩ := codeOf_at he options bootstrap
  rw [hrest, hn, List.append_assoc] at hc
  obtain ⟨_,hc⟩ := holds_append.mp hc
  obtain ⟨hc,_⟩ := holds_append.mp hc
  refine ⟨number,?_,?_⟩
  · rw [Nat.zero_add] at hc
    exact hc
  · rw [imageOf_address, imageOf_address, hn, codeSize_append]

/-- The bootstrap code sets the stack pointer and calls the entry function from outside the program. -/
theorem leads_bootstrap {rom : Memory} {options : Options} {table : SymbolTable} (hs : Standard table)
    (hc : Holds rom table 0 (bootstrapCode options)) {target : Nat} {ram changed : Memory}
    (hn : Asm.isSymbol options.entry.toList = true) (hg : table.get? options.entry = some target)
    (h : Vm.enter (BitVec.ofNat 16 (codeSize (bootstrapCode options))) 0
      (Vm.setAt ram .sp (BitVec.ofInt 16 options.stackBase)) = some changed) :
    Leads rom 0 ram target changed := by
  have hcode : bootstrapCode options =
      [atNumber options.stackBase, setD (.copy .a), atSymbol "SP", setM (.copy .d)] ++
        linesOf (callPieces options.entry 0 1) := rfl
  rw [hcode] at hc h
  obtain ⟨hset,hcall⟩ := holds_append.mp hc
  have hdoes : Does table [atNumber options.stackBase, setD (.copy .a), atSymbol "SP", setM (.copy .d)] ram
      (Vm.setAt ram .sp (BitVec.ofInt 16 options.stackBase)) := by
    intro a d
    refine ⟨Vm.Place.sp.address,BitVec.ofInt 16 options.stackBase,?_⟩
    simp [line_atNumber hset.1, line_registers hs, Core.out, Asm.Comp.value, Asm.Register.value, Asm.Comp.usesMemory]
  rw [Nat.zero_add] at hcall
  have hlead := hdoes.leads hset
  rw [Nat.zero_add] at hlead
  exact hlead.trans (leads_call hs hcall hn hg (codeSize_append _ _) h)

/-- The processor is about to execute the code of a position, with the data memory of a state. -/
structure Processor.Shows (rom : Memory) (image : Image) (state : State) (cpu : Processor) : Prop where
  rom : cpu.rom = rom
  pc : cpu.pc.toNat = image.address state.position
  ram : cpu.ram = state.ram

theorem Leads.shows {rom : Memory} {image : Image} {pc : Nat} {ram : Memory} {last : State}
    (h : Leads rom pc ram (image.address last.position) last.ram) {cpu : Processor} (hrom : cpu.rom = rom)
    (hpc : cpu.pc.toNat = pc) (hram : cpu.ram = ram) :
    ∃ m reached, cpu.steps m = (reached, .ok ()) ∧ reached.Shows rom image last := by
  obtain ⟨a,d,hg⟩ := h cpu.a cpu.d
  obtain ⟨m,reached,hm,hr⟩ := hg cpu ⟨hrom,hpc,by rw [← hram]; rfl⟩
  exact ⟨m,reached,hm,hr.rom,hr.pc,congrArg Core.ram hr.core⟩

/-- The processor makes every run of the stack machine, with none or more of its own steps for each step of it. -/
def Simulates (rom : Memory) (image : Image) : Prop :=
  ∀ (n : Nat) (state last : State) (cpu : Processor), cpu.Shows rom image state → image.run n state = some last →
    ∃ m reached, cpu.steps m = (reached, .ok ()) ∧ reached.Shows rom image last

/-- From address 0 the processor sets the stack pointer and calls the entry function; the call returns to the first
position. -/
def Boots (options : Options) (rom : Memory) (image : Image) : Prop :=
  ∀ (target : Nat) (called : Memory) (cpu : Processor), cpu.rom = rom → cpu.pc = 0 →
    image.target? options.entry = some target →
    Vm.enter (BitVec.ofNat 16 (image.address 0)) 0 (Vm.setAt cpu.ram .sp (BitVec.ofInt 16 options.stackBase)) =
      some called →
    ∃ m reached, cpu.steps m = (reached, .ok ()) ∧ reached.Shows rom image ⟨target, called⟩

theorem boots_of_holds {rom : Memory} {options : Options} {program : List (String × Instruction)}
    {table : SymbolTable} {statics : Vm.Statics} (hp : Placed rom table (imageOf options true program statics))
    (hc : Holds rom table 0 (codeOf options true program)) :
    Boots options rom (imageOf options true program statics) := by
  intro target called cpu hrom hpc ht he
  obtain ⟨hn,hg⟩ := hp.target ht
  rw [codeOf, if_pos rfl] at hc
  obtain ⟨hboot,-⟩ := holds_append.mp hc
  have hstart : (imageOf options true program statics).address 0 = codeSize (bootstrapCode options) := by
    rw [imageOf_address, List.take_zero, codeOf, if_pos rfl, codeFrom, List.append_nil]
  rw [hstart] at he
  have hlead := leads_bootstrap hp.standard hboot hn hg he
  have hzero : cpu.pc.toNat = 0 := congrArg BitVec.toNat hpc
  exact @Leads.shows rom (imageOf options true program statics) 0 cpu.ram ⟨target, called⟩ hlead cpu hrom hzero rfl

theorem assembleLines_of_assemble {session assembled : Asm.Session} {text file : String} {words : List Nat}
    (h : session.assemble text file = (assembled, .ok words)) :
    Asm.assembleLines (Asm.sourceLines text file) = .ok (assembled.symbols, words) :=
  (Asm.Session.assemble_eq_ok.mp h).1

/-- The static entries of a unit lie at the addresses of their symbols. -/
def namedStatics (symbols : SymbolTable) : Vm.Statics := fun unit index => symbols.get? (Vm.staticName unit index)

theorem finds_namedStatics {unit : String} (h : Asm.isSymbol unit.toList = true) (table : SymbolTable) :
    Finds table (namedStatics table) unit := by
  intro index value hv
  exact (value?_symbol (isSymbol_staticName h index) table).trans hv

/-- The static entries of a unit lie where the assembler has read their symbols. -/
def readStatics (symbols : SymbolTable) : Vm.Statics :=
  fun unit index => (Asm.Operand.symbol (Vm.staticName unit index)).value? symbols

theorem finds_readStatics (table : SymbolTable) (unit : String) : Finds table (readStatics table) unit :=
  fun _ _ hv => hv

/-- A program that has been compiled, assembled and loaded runs on the processor as its instructions run on the stack
machine. -/
theorem compiled_code_runs_stack_machine {options : Options} {units : List CompilationUnit} {summary : Summary}
    {text file : String} {session assembled : Asm.Session} {words : List Nat} {before loaded : Processor}
    (hnames : ∀ unit ∈ units, Asm.isSymbol unit.name.toList = true) (hentry : Text.IsToken options.entry.toList)
    (hcompile : compile options units = .ok (summary, text))
    (hassemble : session.assemble text file = (assembled, .ok words)) (hlength : words.length ≤ 32767)
    (hload : before.load (words.map Int.ofNat).toArray = .ok loaded) :
    ∃ program image, programOf units = .ok program ∧
      image = imageOf options (wantsBootstrap options units) program (namedStatics assembled.symbols) ∧
      Simulates loaded.rom image ∧
      (∀ position unit name arguments, program[position]? = some (unit, .call name arguments) →
        image.position? (BitVec.ofNat 16 (image.address (position + 1))) = some (position + 1)) ∧
      (if wantsBootstrap options units then Boots options loaded.rom image else image.address 0 = 0) := by
  obtain ⟨program,hp,hs,hc⟩ := holds_of_load (fun unit hm => (Asm.isToken_of_isSymbol (hnames unit hm)).isUnbroken)
    (fun _ => hentry.isUnbroken) hcompile (assembleLines_of_assemble hassemble) (Nat.lt_succ_of_le hlength) hload
  have hfinds : ∀ entry ∈ program, Finds assembled.symbols (namedStatics assembled.symbols) entry.1 := by
    intro entry hm
    obtain ⟨unit,hunit,hname,-⟩ := exists_of_mem_programOf hp hm
    exact hname ▸ finds_namedStatics (hnames unit hunit) assembled.symbols
  have hplaced := placed_of_holds hs (fun entry => isSound_of_mem_programOf hp) hfinds hc
  refine ⟨program,_,hp,rfl,?_,?_,?_⟩
  · intro n state last cpu hshows hr
    exact (hplaced.run hr).shows hshows.rom hshows.pc hshows.ram
  · intro position unit name arguments he
    exact hplaced.position_after_call he
  · cases hb : wantsBootstrap options units with
    | true =>
      rw [hb] at hc hplaced
      exact boots_of_holds hplaced hc
    | false => rfl

/-- Code is assembled to words that fit into the program memory. -/
def isLoadable (code : List Line) : Bool :=
  match Asm.assembleLines (code.map Line.source) with
  | .ok (_, words) => words.length ≤ 32767
  | .error _ => false

/-- An accepted program is assembled and loaded if its code can be, whatever text it is written as. -/
theorem exists_build {options : Options} {units : List CompilationUnit} {program : List (String × Instruction)}
    (hu : ∀ unit ∈ units, Text.IsUnbroken unit.name.toList) (he : Text.IsUnbroken options.entry.toList)
    {warnings : List String} (hc : (compile options units).toOption.map (·.1.warnings) = some warnings)
    (hp : programOf units = .ok program)
    (hl : isLoadable (codeOf options (wantsBootstrap options units) program) = true) :
    ∃ summary text assembled words loaded, compile options units = .ok (summary, text) ∧ summary.warnings = warnings ∧
      Asm.Session.new.assemble text "out.asm" = (assembled, .ok words) ∧ words.length ≤ 32767 ∧
      Processor.new.load (words.map Int.ofNat).toArray = .ok loaded := by
  obtain ⟨⟨summary,text⟩,hc,hwarnings⟩ := Option.map_eq_some_iff.mp hc
  have hc := Outcome.toOption_eq_some.mp hc
  obtain ⟨other,ho,hreads⟩ := reads_of_compile hu (fun _ => he) hc "out.asm"
  obtain rfl : program = other := Except.ok.inj (hp.symm.trans ho)
  unfold isLoadable at hl
  split at hl
  next symbols words ha =>
    have hw : words.length ≤ 32767 := of_decide_eq_true hl
    have hfits : ¬memorySize < (words.map Int.ofNat).toArray.size := by
      rw [List.size_toArray, List.length_map]
      unfold memorySize
      omega
    have ht : ((codeOf options (wantsBootstrap options units) program).map Line.source).map (·.text) =
        (Asm.sourceLines text "out.asm").map (·.text) := by
      rw [hreads.texts, List.map_map]
      rfl
    have hx := Asm.assembleLines_congr ht ha
    refine ⟨summary,_,⟨symbols,words⟩,words,_,hc,hwarnings,?_,hw,if_neg hfits⟩
    rw [Asm.Session.assemble, hx]
  next => cases hl

/-- Two units, of which one calls functions of the other, one that calls itself. -/
def sumUnits : List CompilationUnit :=
  [.inMemory "Sys" "function Sys.init 0\ncall g 0\ncall f 1\npop static 0\nlabel H\ngoto H",
   .inMemory "M" <| "function g 0\npush constant 4\nreturn\nfunction f 1\npush argument 0\nif-goto A\n" ++
      "push local 0\nreturn\nlabel A\npush argument 0\npush constant 1\nsub\ncall f 1\npush argument 0\nadd\nreturn"]

def sumProgram : List (String × Instruction) :=
  [.function "Sys.init" 0, .call "g" 0, .call "f" 1, .pop .static 0, .label "H", .goto "H"].map ("Sys", ·) ++
  [.function "g" 0, .push .constant 4, .ret, .function "f" 1, .push .argument 0, .ifGoto "A", .push .local 0, .ret,
    .label "A", .push .argument 0, .push .constant 1, .operate .sub, .call "f" 1, .push .argument 0, .operate .add,
    .ret].map ("M", ·)

set_option maxRecDepth 100000 in
theorem sumUnits_compiled : (compile {} sumUnits).toOption.map (·.1.warnings) = some [] := by decide +kernel

set_option maxRecDepth 100000 in
theorem programOf_sumUnits : programOf sumUnits = .ok sumProgram := Outcome.toOption_eq_some.mp (by decide +kernel)

set_option maxRecDepth 100000 in
theorem isLoadable_sumProgram : isLoadable (codeOf {} true sumProgram) = true := by decide +kernel

theorem sum_runs_on_processor : ∃ summary text assembled words loaded program image,
    (∀ unit ∈ sumUnits, Asm.isSymbol unit.name.toList = true) ∧ Text.IsToken ({} : Options).entry.toList ∧
    compile {} sumUnits = .ok (summary, text) ∧
    Asm.Session.new.assemble text "out.asm" = (assembled, .ok words) ∧ words.length ≤ 32767 ∧
    Processor.new.load (words.map Int.ofNat).toArray = .ok loaded ∧ programOf sumUnits = .ok program ∧
    image = imageOf {} true program (namedStatics assembled.symbols) ∧ Simulates loaded.rom image ∧
    Boots {} loaded.rom image := by
  have hnames : ∀ unit ∈ sumUnits, Asm.isSymbol unit.name.toList = true := by decide
  have hentry : Text.IsToken ({} : Options).entry.toList := by decide
  obtain ⟨summary,text,assembled,words,loaded,hc,-,ha,hw,hl⟩ := exists_build (by decide) hentry.isUnbroken
    sumUnits_compiled programOf_sumUnits isLoadable_sumProgram
  obtain ⟨program,image,hp,hi,hs,-,hboots⟩ := compiled_code_runs_stack_machine hnames hentry hc ha hw hl
  exact ⟨summary,text,assembled,words,loaded,program,image,hnames,hentry,hc,ha,hw,hl,hp,hi,hs,hboots⟩

end HackToolchain.Machine
