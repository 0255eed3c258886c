import HackToolchain.Proofs.Frames
import HackToolchain.Proofs.Simulation
import HackToolchain.Proofs.SparseRuns

/-! # Calls and returns

An execution inside a call is orderly if every activation finds its operands on its own stack and no pop writes into
the registers of the calling convention or into a frame.  Then the return of the call finds its frame as the call has
left it, however many other calls there were in between, and brings the caller back with its registers restored.
-/
namespace HackToolchain.Vm

open Machine (Word Memory)

/-- The number of words that an instruction needs on the stack of its activation. -/
def Instruction.operands : Instruction → Int
  | .operate operator => operator.arity
  | .pop _ _ | .ifGoto _ | .ret => 1
  | .call _ arguments => arguments
  | .push _ _ | .label _ | .goto _ | .function _ _ => 0

/-- The address that a pop writes to. -/
def Instruction.target? (statics : Statics) (unit : String) (ram : Memory) : Instruction → Option Word
  | .pop segment index => entry? statics unit segment index ram
  | _ => none

/-- An instruction keeps to the stack of its activation and does not write into the registers of the calling convention
or into a frame; `bases` tells where the stacks of the activations begin. -/
structure Orderly (statics : Statics) (bases : List Word) (unit : String) (ram : Memory) (instruction : Instruction) :
    Prop where
  operands : 0 < instruction.operands →
    (wordAt ram .lcl).toNat + instruction.operands ≤ (wordAt ram .sp).toNat
  target : ∀ address, instruction.target? statics unit ram = some address →
    (∀ place ∈ [Place.sp, .lcl, .arg], address ≠ place.address) ∧ ∀ base ∈ bases, ¬IsSaved base address

theorem Orderly.needs {statics : Statics} {bases : List Word} {unit : String} {ram : Memory}
    {instruction : Instruction} (h : Orderly statics bases unit ram instruction) {count : Nat}
    (hc : instruction.operands = count) (hp : 0 < count) :
    (wordAt ram .lcl).toNat + count ≤ (wordAt ram .sp).toNat := by
  have ho := h.operands
  rw [hc] at ho
  omega

/-- The activations after an instruction: a call has begun one, and a return has ended one. -/
def Instruction.basesAfter (ram : Memory) (bases : List Word) : Instruction → List Word
  | .call _ _ => wordAt ram .lcl :: bases
  | .ret => bases.tail
  | _ => bases

/-- The executions that begin with a call and go on until its return, with the stacks of the activations and the
addresses that were written to by pops. -/
inductive Inside (image : Image) (start : State) : List Word → List Word → State → Prop
  | enter {state : State} (hs : image.step start = some state) : Inside image start [wordAt state.ram .lcl] [] state
  | step {bases written : List Word} {state next : State} {unit : String} {instruction : Instruction}
      (h : Inside image start bases written state) (hi : image.code[state.position]? = some (unit, instruction))
      (ho : Orderly image.statics bases unit state.ram instruction) (hs : image.step state = some next)
      (hb : instruction.basesAfter next.ram bases ≠ []) :
      Inside image start (instruction.basesAfter next.ram bases)
        ((instruction.target? image.statics unit state.ram).toList ++ written) next

section Inside

variable {image : Image} {start state next : State} {unit name : String} {instruction : Instruction}

theorem step_eq_perform (hi : image.code[state.position]? = some (unit, instruction)) :
    image.step state = image.perform state unit instruction := by
  rw [Image.step, hi]
  rfl

theorem calm_perform {bases : List Word} (hc : ∀ name arguments, instruction ≠ .call name arguments)
    (hr : instruction ≠ .ret) (hb : 16 ≤ (wordAt state.ram .lcl).toNat)
    (hl : (wordAt state.ram .lcl).toNat ≤ (wordAt state.ram .sp).toNat) (hh : (wordAt state.ram .sp).toNat ≤ 32768)
    (ho : Orderly image.statics bases unit state.ram instruction)
    (h : image.perform state unit instruction = some next) :
    Calm (wordAt state.ram .lcl).toNat (instruction.target? image.statics unit state.ram) state.ram next.ram := by
  cases instruction with
  | operate operator =>
    obtain ⟨changed,hx,h⟩ := Option.bind_eq_some_iff.mp h
    cases h
    exact calm_operate hb (ho.needs rfl operator.arity_pos) hh hx
  | push segment index =>
    obtain ⟨changed,hx,h⟩ := Option.bind_eq_some_iff.mp h
    cases h
    exact calm_pushEntry hb hl hx
  | pop segment index =>
    obtain ⟨changed,hx,h⟩ := Option.bind_eq_some_iff.mp h
    cases h
    obtain ⟨address,ha,-⟩ := Option.bind_eq_some_iff.mp hx
    have hc := calm_popEntry (ho.needs rfl Nat.one_pos) hh ha (ho.target address ha).1 hx
    rwa [← ha] at hc
  | label name =>
    cases h
    exact Calm.refl hl hh
  | goto name =>
    obtain ⟨position,-,h⟩ := Option.bind_eq_some_iff.mp h
    cases h
    exact Calm.refl hl hh
  | ifGoto name =>
    obtain ⟨⟨value,changed⟩,hp,h⟩ := Option.bind_eq_some_iff.mp h
    have hc := calm_pop (ho.needs rfl Nat.one_pos) hh hp
    dsimp only at h
    split at h
    · cases h
      exact hc
    · obtain ⟨position,-,h⟩ := Option.bind_eq_some_iff.mp h
      cases h
      exact hc
  | function name locals =>
    obtain ⟨changed,hx,h⟩ := Option.bind_eq_some_iff.mp h
    cases h
    exact calm_pushZeros hb hl hh hx
  | call name arguments => exact absurd rfl (hc name arguments)
  | ret => exact absurd rfl hr

theorem perform_call {arguments : Int} (h : image.perform state unit (.call name arguments) = some next) :
    enter (BitVec.ofNat 16 (image.address (state.position + 1))) arguments state.ram = some next.ram := by
  obtain ⟨position,-,h⟩ := Option.bind_eq_some_iff.mp h
  obtain ⟨changed,he,h⟩ := Option.bind_eq_some_iff.mp h
  cases h
  exact he

theorem perform_ret (h : image.perform state unit .ret = some next) :
    ∃ back, leave state.ram = some (back, next.ram) := by
  obtain ⟨⟨back,changed⟩,hl,h⟩ := Option.bind_eq_some_iff.mp h
  obtain ⟨position,-,h⟩ := Option.bind_eq_some_iff.mp h
  cases h
  exact ⟨back,hl⟩

/-- A step of an activation leads from chain to chain, and below the floor it changes only what a pop writes to. -/
theorem Chained.step {floor : Nat} {frames : List Frame} (h : Chained floor state.ram frames) (hne : frames ≠ [])
    (hfloor : 16 ≤ floor) (hcalls : ∀ unit name count, (unit, .call name count) ∈ image.code → 0 ≤ count)
    (hi : image.code[state.position]? = some (unit, instruction))
    (ho : Orderly image.statics (frames.map Frame.base) unit state.ram instruction)
    (hs : image.step state = some next) :
    ∃ after, instruction.basesAfter next.ram (frames.map Frame.base) = after.map Frame.base ∧
      Chained floor next.ram after ∧ (after ≠ [] → after.getLast? = frames.getLast?) ∧
      ∀ address : Word, 16 ≤ address.toNat → address.toNat < floor →
        instruction.target? image.statics unit state.ram ≠ some address →
        next.ram.word address = state.ram.word address := by
  obtain ⟨frame,rest,rfl⟩ := List.exists_cons_of_ne_nil hne
  obtain ⟨hlcl,harg,hlow,hhigh⟩ := h.top frame rfl
  have hk := h.kept frame List.mem_cons_self
  have hargs := hk.low
  have hroom := hk.room
  rw [step_eq_perform hi] at hs
  have hother : (∀ name arguments, instruction ≠ .call name arguments) → instruction ≠ .ret →
      Chained floor next.ram (frame :: rest) ∧ ∀ address : Word, 16 ≤ address.toNat → address.toNat < floor →
        instruction.target? image.statics unit state.ram ≠ some address →
        next.ram.word address = state.ram.word address := by
    intro hc hr
    have hcalm := calm_perform hc hr (by rw [hlcl]; omega) (by rw [hlcl]; exact hlow) hhigh ho hs
    rw [hlcl] at hcalm
    refine ⟨h.of_calm hfloor hcalm ?_,?_⟩
    · intro address ht f hf
      exact (ho.target address ht).2 f.base (List.mem_map_of_mem hf)
    · intro address ha hlt ht
      exact hcalm.words address ha (by omega) ht
  cases instruction with
  | call name arguments =>
    obtain ⟨count,rfl⟩ := Int.eq_ofNat_of_zero_le (hcalls _ _ _ (List.mem_of_getElem? hi))
    have he := entered_of_enter (by omega) (perform_call hs)
    have hneeds : frame.base.toNat + count ≤ (wordAt state.ram .sp).toNat := by
      rcases Nat.eq_zero_or_pos count with rfl | hp
      · exact hlow
      · exact hlcl ▸ ho.needs rfl hp
    refine ⟨_,?_,h.enter hfloor (by omega) (by rintro _ ⟨⟩; exact hneeds) he,?_,?_⟩
    · rw [Instruction.basesAfter, he.lcl]
      rfl
    · intro _
      exact List.getLast?_cons_cons
    · intro address ha hlt _
      exact he.words address ha (by omega)
  | ret =>
    obtain ⟨changed,hc,hleft,hchain⟩ := h.leave hfloor (hlcl ▸ ho.needs rfl Nat.one_pos)
    obtain ⟨back,hl⟩ := perform_ret hs
    rw [hl] at hc
    cases hc
    refine ⟨rest,rfl,hchain,?_,?_⟩
    · intro hr
      obtain ⟨outer,others,rfl⟩ := List.exists_cons_of_ne_nil hr
      exact List.getLast?_cons_cons.symm
    · intro address ha hlt _
      refine hleft.words address ha ?_
      rintro rfl
      rw [harg] at hlt
      omega
  | _ =>
    obtain ⟨hchain,hwords⟩ := hother nofun nofun
    exact ⟨frame :: rest,rfl,hchain,fun _ => rfl,hwords⟩

/-- Inside a call the frames make up a chain that ends with the frame of this call, and what lies below its arguments
is as it was, unless a pop has written to it. -/
theorem Inside.chained {arguments : Nat} (hsite : image.code[start.position]? = some (unit, .call name arguments))
    (hcalls : ∀ unit name count, (unit, .call name count) ∈ image.code → 0 ≤ count)
    (hroom : 16 + arguments ≤ (wordAt start.ram .sp).toNat) {bases written : List Word}
    (h : Inside image start bases written state) :
    ∃ frames, bases = frames.map Frame.base ∧ frames.getLast? =
        some (Frame.ofCall (BitVec.ofNat 16 (image.address (start.position + 1))) arguments start.ram) ∧
      Chained ((wordAt start.ram .sp).toNat - arguments) state.ram frames ∧
      ∀ address : Word, 16 ≤ address.toNat → address.toNat < (wordAt start.ram .sp).toNat - arguments →
        address ∉ written → state.ram.word address = start.ram.word address := by
  induction h with
  | enter hs =>
    rw [step_eq_perform hsite] at hs
    have he := entered_of_enter (by omega) (perform_call hs)
    have hempty : Chained ((wordAt start.ram .sp).toNat - arguments) start.ram [] :=
      ⟨by simp,List.Pairwise.nil,List.isChain_nil,by simp⟩
    refine ⟨_,?_,rfl,hempty.enter (by omega) (by omega) (by simp) he,?_⟩
    · rw [he.lcl]
      rfl
    · intro address ha hlt _
      exact he.words address ha (by omega)
  | @step bases written state next unit instruction h hi ho hs hb ih =>
    obtain ⟨frames,rfl,hlast,hchain,hwords⟩ := ih
    have hne : frames ≠ [] := by
      rintro rfl
      cases hlast
    obtain ⟨after,he,hafter,hkeeps,hword⟩ := hchain.step hne (by omega) hcalls hi ho hs
    have hnext : after ≠ [] := by
      rintro rfl
      exact hb he
    refine ⟨after,he,(hkeeps hnext).trans hlast,hafter,?_⟩
    intro address ha hlt hmem
    rw [List.mem_append, not_or] at hmem
    rw [hword address ha hlt, hwords address ha hlt hmem.2]
    intro ht
    exact hmem.1 (by simp [ht])

/-- A call has returned: `state` is the execution at its return and `last` after it. -/
structure Returned (start state : State) (arguments : Int) (written : List Word) (last : State) : Prop where
  position : last.position = start.position + 1
  sp : wordAt last.ram .sp = wordAt start.ram .sp - BitVec.ofInt 16 arguments + 1#16
  value : last.ram.word (wordAt start.ram .sp - BitVec.ofInt 16 arguments) =
    state.ram.word (wordAt state.ram .sp - 1#16)
  registers : ∀ register ∈ savedRegisters, wordAt last.ram register = wordAt start.ram register
  words : ∀ address : Word, 16 ≤ address.toNat → address.toNat + arguments < (wordAt start.ram .sp).toNat →
    address ∉ written → last.ram.word address = start.ram.word address

/-- The return that ends a call leads back to its caller. -/
theorem Inside.returns {arguments : Nat} (hsite : image.code[start.position]? = some (unit, .call name arguments))
    (hcalls : ∀ unit name count, (unit, .call name count) ∈ image.code → 0 ≤ count)
    (hroom : 16 + arguments ≤ (wordAt start.ram .sp).toNat)
    (hback : image.position? (BitVec.ofNat 16 (image.address (start.position + 1))) = some (start.position + 1))
    {base : Word} {written : List Word} (h : Inside image start [base] written state) {owner : String}
    (hret : image.code[state.position]? = some (owner, .ret))
    (htop : (wordAt state.ram .lcl).toNat + 1 ≤ (wordAt state.ram .sp).toNat) :
    ∃ last, image.step state = some last ∧ Returned start state arguments written last := by
  obtain ⟨frames,hbases,hlast,hchain,hwords⟩ := h.chained hsite hcalls hroom
  -- Only the frame of the call itself is left.
  obtain ⟨frame,rfl⟩ : ∃ frame, frames = [frame] := by
    have hlength := congrArg List.length hbases
    rw [List.length_map] at hlength
    exact List.length_eq_one_iff.mp hlength.symm
  cases hlast
  obtain ⟨hlcl,harg,-,-⟩ := hchain.top _ rfl
  have hk := hchain.kept _ List.mem_cons_self
  have hlow := hk.low
  obtain ⟨changed,hleave,hleft,-⟩ := hchain.leave (by omega) (hlcl ▸ htop)
  have hargs : wordAt state.ram .arg = wordAt start.ram .sp - BitVec.ofInt 16 arguments := by
    rw [harg, BitVec.ofInt_natCast]
  refine ⟨⟨start.position + 1, changed⟩,?_,rfl,?_,?_,?_,?_⟩
  · rw [step_eq_perform hret, Image.perform, hleave]
    simp only [Option.bind_eq_bind, Option.bind_some, hback]
    rfl
  · rw [hleft.sp, hargs]
  · rw [← hargs, hleft.value]
  · intro register hr
    rw [hleft.registers register hr, hlcl, hk.saved register hr]
  · intro address ha hlt hmem
    rw [hleft.words address ha, hwords address ha (by omega) hmem]
    rintro rfl
    rw [harg] at hlt
    omega

end Inside

end HackToolchain.Vm

namespace HackToolchain.Machine

open Asm (SymbolTable)
open Compile
open Text (IsUnbroken)
open Vm (Image Inside Instruction Returned State)

theorem Placed.inside {rom : Memory} {table : SymbolTable} {image : Image} (h : Placed rom table image)
    {start state : State} {bases written : List Word} (hi : Inside image start bases written state) :
    Leads rom (image.address start.position) start.ram (image.address state.position) state.ram := by
  induction hi with
  | enter hs => exact h.step hs
  | step _ _ _ hs _ ih => exact ih.trans (h.step hs)

theorem exists_inside_sumProgram (statics : Vm.Statics) : ∃ base state,
    Inside (imageOf {} true sumProgram statics) ⟨1, Vm.setAt Memory.zero .sp 256#16⟩ [base] [] state ∧
      sumProgram[state.position]? = some ("M", .ret) ∧
      (Vm.wordAt state.ram .lcl).toNat + 1 ≤ (Vm.wordAt state.ram .sp).toNat := by
  have hsp : Vm.wordAt (Vm.setAt Memory.zero .sp 256#16) .sp = 256#16 := by rw [Vm.wordAt_setAt, if_pos rfl]
  have hstack : (Vm.wordAt (Vm.setAt Memory.zero .sp 256#16) .sp).toNat = 256 := by rw [hsp]; rfl
  have htarget : (imageOf {} true sumProgram statics).target? "g" = some 6 := by
    change sumProgram.findIdx? _ = some 6
    decide
  obtain ⟨entered,he⟩ := @Vm.exists_enter (Vm.setAt Memory.zero .sp 256#16) (by omega) (by omega)
    (BitVec.ofNat 16 ((imageOf {} true sumProgram statics).address 2)) 0
  have hentered := Vm.entered_of_enter (by omega) he
  have hlcl : (Vm.wordAt entered .lcl).toNat = 261 := by
    rw [hentered.lcl, hsp]
    rfl
  have htop : (Vm.wordAt entered .sp).toNat = 261 := by
    rw [hentered.sp, hsp]
    rfl
  obtain ⟨pushed,hp⟩ := @Vm.exists_push entered (by omega) (BitVec.ofNat 16 4)
  have hpushed := Vm.pushed_of_push (by omega) hp
  have hcall : (imageOf {} true sumProgram statics).step ⟨1, Vm.setAt Memory.zero .sp 256#16⟩ =
      some ⟨6, entered⟩ := by
    rw [Vm.step_eq_perform (show _ = some ("Sys", .call "g" 0) from rfl)]
    simp only [Image.perform, htarget, he, Option.bind_eq_bind, Option.bind_some, Option.pure_def]
  have horderly : ∀ instruction : Instruction, instruction.operands = 0 →
      instruction.target? statics "M" entered = none →
      Vm.Orderly statics [Vm.wordAt entered .lcl] "M" entered instruction := by
    intro instruction hzero hnone
    exact ⟨by simp [hzero],by simp [hnone]⟩
  have hinside := (Inside.enter hcall).step (show _ = some ("M", .function "g" 0) from rfl)
    (horderly (.function "g" 0) rfl rfl) (show _ = some ⟨7, entered⟩ from rfl) (List.cons_ne_nil _ _)
  have hstep : (imageOf {} true sumProgram statics).step ⟨7, entered⟩ = some ⟨8, pushed⟩ := by
    rw [Vm.step_eq_perform (show _ = some ("M", .push .constant 4) from rfl)]
    simp only [Image.perform, Vm.pushEntry, if_pos, hp, Option.bind_eq_bind, Option.bind_some, Option.pure_def]
  have hinside := hinside.step (show _ = some ("M", .push .constant 4) from rfl)
    (horderly (.push .constant 4) rfl rfl) hstep (List.cons_ne_nil _ _)
  refine ⟨_,_,hinside,rfl,?_⟩
  have hsame : Vm.wordAt pushed .lcl = Vm.wordAt entered .lcl := hpushed.places .lcl (by simp)
  have hmore : (Vm.wordAt pushed .sp).toNat = 262 := by
    rw [hpushed.sp]
    bv_omega
  rw [hsame, hlcl, hmore]

/-- In a program that has been compiled, assembled and loaded, every call comes back to its caller with the returned
word in place of the arguments and with the registers of the caller, as long as the execution inside it is orderly. -/
theorem call_comes_back {options : Options} {units : List CompilationUnit} {summary : Summary} {text file : String}
    {session assembled : Asm.Session} {words : List Nat} {before loaded : Processor}
    (hnames : ∀ unit ∈ units, IsUnbroken unit.name.toList)
    (hentry : wantsBootstrap options units = true → IsUnbroken options.entry.toList)
    (hcompile : compile options units = .ok (summary, text))
    (hassemble : session.assemble text file = (assembled, .ok words)) (hlength : words.length ≤ 32767)
    (hload : before.load (words.map Int.ofNat).toArray = .ok loaded) :
    ∃ program image, programOf units = .ok program ∧
      image = imageOf options (wantsBootstrap options units) program (readStatics assembled.symbols) ∧
      ∀ (start state : State) (unit name owner : String) (arguments : Int) (base : Word) (written : List Word)
        (cpu : Processor), program[start.position]? = some (unit, .call name arguments) →
        16 + arguments ≤ (Vm.wordAt start.ram .sp).toNat → Inside image start [base] written state →
        program[state.position]? = some (owner, .ret) →
        (Vm.wordAt state.ram .lcl).toNat + 1 ≤ (Vm.wordAt state.ram .sp).toNat → cpu.Shows loaded.rom image start →
        ∃ m middle n reached last, cpu.steps m = (middle, .ok ()) ∧ middle.Shows loaded.rom image state ∧
          middle.steps n = (reached, .ok ()) ∧ reached.Shows loaded.rom image last ∧
          Returned start state arguments written last := by
  obtain ⟨program,hp,hs,hc⟩ := holds_of_load hnames hentry hcompile (assembleLines_of_assemble hassemble)
    (Nat.lt_succ_of_le hlength) hload
  have hsound := fun entry hm => @isSound_of_mem_programOf units program hp entry hm
  have hplaced := placed_of_holds hs hsound (fun entry _ => finds_readStatics assembled.symbols entry.1) hc
  refine ⟨program,_,hp,rfl,?_⟩
  intro start state unit name owner arguments base written cpu hsite hroom hinside hret htop hshows
  have hcalls : ∀ unit name count, (unit, .call name count) ∈ program → 0 ≤ count :=
    fun _ _ _ hm => (hsound _ hm).2
  obtain ⟨count,rfl⟩ := Int.eq_ofNat_of_zero_le (hcalls _ _ _ (List.mem_of_getElem? hsite))
  obtain ⟨last,hlast,hreturned⟩ := hinside.returns hsite hcalls (by omega) (hplaced.position_after_call hsite) hret htop
  obtain ⟨m,middle,hm,hmiddle⟩ := (hplaced.inside hinside).shows hshows.rom hshows.pc hshows.ram
  obtain ⟨n,reached,hn,hreached⟩ := (hplaced.step hlast).shows hmiddle.rom hmiddle.pc hmiddle.ram
  exact ⟨m,middle,n,reached,last,hm,hmiddle,hn,hreached,hreturned⟩

theorem first_call_comes_back : ∃ summary text assembled words loaded image start state base cpu,
    (∀ unit ∈ sumUnits, IsUnbroken unit.name.toList) ∧ IsUnbroken ({} : Options).entry.toList ∧
    compile {} sumUnits = .ok (summary, text) ∧ Asm.Session.new.assemble text "out.asm" = (assembled, .ok words) ∧
    words.length ≤ 32767 ∧ Processor.new.load (words.map Int.ofNat).toArray = .ok loaded ∧
    image = imageOf {} true sumProgram (readStatics assembled.symbols) ∧
    sumProgram[start.position]? = some ("Sys", .call "g" 0) ∧ 16 + 0 ≤ (Vm.wordAt start.ram .sp).toNat ∧
    Inside image start [base] [] state ∧ sumProgram[state.position]? = some ("M", .ret) ∧
    (Vm.wordAt state.ram .lcl).toNat + 1 ≤ (Vm.wordAt state.ram .sp).toNat ∧
    Processor.Shows loaded.rom image start cpu ∧
    ∃ m middle n reached last, cpu.steps m = (middle, .ok ()) ∧ middle.Shows loaded.rom image state ∧
      middle.steps n = (reached, .ok ()) ∧ reached.Shows loaded.rom image last ∧
      Returned start state 0 [] last := by
  have hnames : ∀ unit ∈ sumUnits, IsUnbroken unit.name.toList := by decide
  have hentry : IsUnbroken ({} : Options).entry.toList := by decide
  obtain ⟨summary,text,assembled,words,loaded,hc,-,ha,hw,hl⟩ := exists_build hnames hentry sumUnits_compiled
    programOf_sumUnits isLoadable_sumProgram
  obtain ⟨program,image,hp,rfl,hcall⟩ := call_comes_back hnames (fun _ => hentry) hc ha hw hl
  obtain rfl : sumProgram = program := Except.ok.inj (programOf_sumUnits.symm.trans hp)
  obtain ⟨base,state,hinside,hret,htop⟩ := exists_inside_sumProgram (readStatics assembled.symbols)
  have hroom : 16 + (0 : Int) ≤ (Vm.wordAt (Vm.setAt Memory.zero .sp 256#16) .sp).toNat := by
    rw [Vm.wordAt_setAt, if_pos rfl]
    decide
  have hshows : Processor.Shows loaded.rom (imageOf {} true sumProgram (readStatics assembled.symbols))
      ⟨1, Vm.setAt Memory.zero .sp 256#16⟩
      { loaded with
        pc := BitVec.ofNat 16 (codeSize (codeOf {} true (sumProgram.take 1)))
        ram := Vm.setAt Memory.zero .sp 256#16 } :=
    ⟨rfl,rfl,rfl⟩
  exact ⟨summary,text,assembled,words,loaded,_,_,state,base,_,hnames,hentry,hc,ha,hw,hl,rfl,rfl,by exact_mod_cast hroom,
    hinside,hret,htop,hshows,hcall _ state _ _ _ 0 base [] _ rfl hroom hinside hret htop hshows⟩

/-- A function that pushes a static entry of a unit whose name has line ends, and returns. -/
def derailedUnits : List CompilationUnit :=
  [.inMemory "LCL\nM=0\n@Y" "call f 0\nlabel E\ngoto E\nfunction f 0\npush static 0\nreturn"]

set_option maxRecDepth 100000 in
theorem run_derailedUnits :
    (runOf? { bootstrap := some false, comments := false } derailedUnits
        [(0, 256), (1, 300), (2, 310), (3, 320), (4, 330)] 300).map
      (fun run => (run.executed, run.fault, Sparse.contents run.machine.ram 1)) =
      some (62, some (.addressOutOfRange 65531 64), 0) := by
  decide +kernel

/-- The line ends in the name of the unit make the push set LCL to 0, and the return looks for its address five words
below that. -/
theorem line_end_in_name_derails_return : ∃ summary text assembled words loaded start,
    compile { bootstrap := some false, comments := false } derailedUnits = .ok (summary, text) ∧
    Asm.Session.new.assemble text "out.asm" = (assembled, .ok words) ∧ words.length ≤ 32767 ∧
    Processor.new.load (words.map Int.ofNat).toArray = .ok loaded ∧
    loaded.writes [(0, 256), (1, 300), (2, 310), (3, 320), (4, 330)] = .ok start ∧
    (start.run {} 300).executed = 62 ∧ (start.run {} 300).fault = some (.addressOutOfRange 65531 64) ∧
    (start.run {} 300).cpu.ram.word 1 = 0 := by
  obtain ⟨run,hrun,hends⟩ := Option.map_eq_some_iff.mp run_derailedUnits
  obtain ⟨hexecuted,hrest⟩ := Prod.ext_iff.mp hends
  obtain ⟨hfault,hlocal⟩ := Prod.ext_iff.mp hrest
  obtain ⟨summary,text,assembled,words,loaded,start,hc,ha,hw,hl,hstart,hdraws⟩ :=
    exists_run (by simp [Word.IsAddress, memorySize]) hrun
  exact ⟨summary,text,assembled,words,loaded,start,hc,ha,Nat.le_of_lt_succ hw,hl,hstart,
    hdraws.executed.trans hexecuted,hdraws.fault.trans hfault,(hdraws.machine.ram 1).trans hlocal⟩

end HackToolchain.Machine
