import HackToolchain.Proofs.Emission
import HackToolchain.Proofs.Execution
import HackToolchain.Proofs.StackMachine

/-! # What the code of an instruction does to memory

The code of an instruction without its jumps, wherever it lies in the program memory, changes the data memory in the
same way as the instruction changes the memory of the stack machine.
-/
namespace HackToolchain.Machine

open Asm (Comp Line SymbolTable)
open Compile
open Vm (Place wordAt setAt)

section Loads

variable {rom : Memory} {table : SymbolTable} {pc : Nat}

theorem Holds.lies_of_mem {code : List Line} (h : Holds rom table pc code) {line : Line} (hm : line ∈ code) :
    ∃ at', Lies rom table at' line := by
  induction code generalizing pc with
  | nil => cases hm
  | cons first rest ih =>
    rcases List.mem_cons.mp hm with rfl | hm
    · exact ⟨pc,h.1⟩
    · exact ih h.2 hm

theorem loadValue?_number {value : Int} {loaded : Nat}
    (h : Asm.loadValue? table (toString value).toList = some loaded) : (loaded : Int) = value := by
  cases value with
  | ofNat n =>
    have hl : (toString (Int.ofNat n)).toList = Nat.toDigits 10 n := Nat.toList_repr
    have hd : (!(Nat.toDigits 10 n).isEmpty && (Nat.toDigits 10 n).all Text.isDigit) = true := by
      simp [Nat.toDigits_ne_nil, Text.toDigits_all_isDigit]
    rw [hl, Asm.loadValue?, if_pos hd, Option.filter_eq_some_iff] at h
    exact congrArg _ (Text.eq_of_decimal_toDigits (Outcome.toOption_eq_some.mp h.1))
  | negSucc n =>
    -- A minus sign is neither a digit nor the start of a symbol.
    have hl : (toString (Int.negSucc n)).toList = '-' :: Nat.toDigits 10 (n + 1) := by
      change ("-" ++ (n + 1).repr).toList = _
      simp [Nat.toList_repr]
    have hd : Text.isDigit '-' = false := by decide
    have hs : Asm.isSymbolStart '-' = false := by decide
    rw [hl] at h
    simp [Asm.loadValue?, Asm.isSymbol, hd, hs] at h

theorem line_atNumber {value : Int} (h : Lies rom table pc (atNumber value)) (core : Core) :
    core.line table (atNumber value) = some { core with a := BitVec.ofInt 16 value } := by
  obtain ⟨loaded,hl,-,-⟩ := h
  have ht : Text.IsToken (Asm.Operand.number value).text.toList := Text.isToken_toString value
  have hv : (loaded : Int) = value := by
    rw [Asm.Operand.value?_of_isToken ht] at hl
    exact loadValue?_number hl
  rw [atNumber, Core.line, hl, Option.map_some, ← BitVec.ofInt_natCast, hv]

end Loads

section Fragments

variable {table : SymbolTable}

theorem value?_symbol {name : String} (hs : Asm.isSymbol name.toList = true) (table : SymbolTable) :
    (Asm.Operand.symbol name).value? table = table.get? name := by
  have hd := Asm.all_isDigit_of_isSymbol hs
  have ht : Text.IsToken (Asm.Operand.symbol name).text.toList := Asm.isToken_of_isSymbol hs
  rw [Asm.Operand.value?_of_isToken ht]
  simp [Asm.Operand.text, Asm.loadValue?, hd, hs]

theorem line_atSymbol {name : String} {value : Nat} (hv : (Asm.Operand.symbol name).value? table = some value)
    (core : Core) : core.line table (atSymbol name) = some { core with a := BitVec.ofNat 16 value } := by
  rw [atSymbol, Core.line, hv, Option.map_some]

theorem line_register (ht : Standard table) {name : String} {value : Nat}
    (hm : (name, value) ∈ SymbolTable.predefinedEntries) (core : Core) :
    core.line table (atSymbol name) = some { core with a := BitVec.ofNat 16 value } := by
  have hs : ∀ row ∈ SymbolTable.predefinedEntries, Asm.isSymbol row.1.toList = true := by decide
  exact line_atSymbol ((value?_symbol (hs _ hm) table).trans (ht _ hm)) core

theorem line_registers (ht : Standard table) (core : Core) :
    core.line table (atSymbol "SP") = some { core with a := Place.sp.address } ∧
    core.line table (atSymbol "LCL") = some { core with a := Place.lcl.address } ∧
    core.line table (atSymbol "ARG") = some { core with a := Place.arg.address } ∧
    core.line table (atSymbol "THIS") = some { core with a := Place.this.address } ∧
    core.line table (atSymbol "THAT") = some { core with a := Place.that.address } ∧
    core.line table (atSymbol "R13") = some { core with a := Place.frame.address } ∧
    core.line table (atSymbol "R14") = some { core with a := Place.back.address } := by
  have h := fun name value hm => @line_register table ht name value hm core
  exact ⟨h "SP" 0 (by decide),h "LCL" 1 (by decide),h "ARG" 2 (by decide),h "THIS" 3 (by decide),
    h "THAT" 4 (by decide),h "R13" 13 (by decide),h "R14" 14 (by decide)⟩

@[simp] theorem lines_nil (core : Core) : core.lines table [] = some core := rfl

@[simp] theorem lines_cons (core : Core) (line : Line) (rest : List Line) :
    core.lines table (line :: rest) = (core.line table line).bind fun core => core.lines table rest := rfl

@[simp] theorem lines_append (core : Core) (xs ys : List Line) :
    core.lines table (xs ++ ys) = (core.lines table xs).bind fun core => core.lines table ys := by
  simp [Core.lines, List.foldlM_append]

@[simp] theorem line_setA (core : Core) (comp : Comp) : core.line table (setA comp) =
    if comp.usesMemory = true → core.a.IsAddress then some { core with a := core.out comp } else none := by
  simp [Core.line, setA, Core.admits, Core.compute]

@[simp] theorem line_setD (core : Core) (comp : Comp) : core.line table (setD comp) =
    if comp.usesMemory = true → core.a.IsAddress then some { core with d := core.out comp } else none := by
  simp [Core.line, setD, Core.admits, Core.compute]

@[simp] theorem line_setM (core : Core) (comp : Comp) : core.line table (setM comp) =
    if core.a.IsAddress then some { core with ram := core.ram.put core.a (core.out comp) } else none := by
  simp [Core.line, setM, Core.admits, Core.compute]

@[simp] theorem line_setAM (core : Core) (comp : Comp) : core.line table (setAM comp) =
    if core.a.IsAddress then
      some { core with a := core.out comp, ram := core.ram.put core.a (core.out comp) } else none := by
  simp [Core.line, setAM, Core.admits, Core.compute]

attribute [local simp] Core.out Comp.value Asm.Register.value Comp.usesMemory

theorem lines_pushD (ht : Standard table) (a d : Word) (ram : Memory) :
    Core.lines table ⟨a,d,ram⟩ pushD = (Vm.push d ram).map fun ram => ⟨Place.sp.address,d,ram⟩ := by
  by_cases h : (wordAt ram .sp).IsAddress <;>
    simp [pushD, line_registers ht, Vm.push, Memory.write?, h]

theorem lines_pushZero (ht : Standard table) (a d : Word) (ram : Memory) :
    Core.lines table ⟨a,d,ram⟩ pushZero = (Vm.push 0#16 ram).map fun ram => ⟨Place.sp.address,d,ram⟩ := by
  by_cases h : (wordAt ram .sp).IsAddress <;>
    simp [pushZero, line_registers ht, Vm.push, Memory.write?, h]

theorem lines_popD (ht : Standard table) (a d : Word) (ram : Memory) : Core.lines table ⟨a,d,ram⟩ popD =
    (Vm.pop ram).map fun (value, ram) => ⟨wordAt ram .sp,value,ram⟩ := by
  by_cases h : (wordAt ram .sp - 1#16).IsAddress <;>
    simp [popD, line_registers ht, Vm.pop, Memory.read?, Memory.word_put, h]

theorem lines_popOverNext (ht : Standard table) (a d : Word) (ram : Memory) :
    Core.lines table ⟨a,d,ram⟩ popOverNext =
      (Vm.pop ram).map fun (value, ram) => ⟨wordAt ram .sp - 1#16,value,ram⟩ := by
  cases h : Vm.pop ram <;> simp [popOverNext, lines_popD ht, h]

theorem lines_atTop (ht : Standard table) (a d : Word) (ram : Memory) :
    Core.lines table ⟨a,d,ram⟩ atTop = some ⟨wordAt ram .sp - 1#16,d,ram⟩ := by
  simp [atTop, line_registers ht]

end Fragments

section Accesses

variable {table : SymbolTable} {base : String} {register : Place} {index : Nat}

attribute [local simp] Core.out Comp.value Asm.Register.value Comp.usesMemory

theorem lines_pushBehind (ht : Standard table)
    (hn : ∀ core : Core, core.line table (atNumber index) = some { core with a := BitVec.ofNat 16 index })
    (hb : ∀ core : Core, core.line table (atSymbol base) = some { core with a := register.address })
    (a d : Word) (ram : Memory) :
    Core.lines table ⟨a,d,ram⟩
      ([atNumber index, setD (.copy .a), atSymbol base, setA (.add .m .d), setD (.copy .m)] ++ pushD) =
      (ram.read? (wordAt ram register + BitVec.ofNat 16 index)).bind fun value =>
        (Vm.push value ram).map fun ram => ⟨Place.sp.address,value,ram⟩ := by
  by_cases h : (wordAt ram register + BitVec.ofNat 16 index).IsAddress <;>
    simp [hn, hb, lines_pushD ht, Memory.read?, h]

theorem lines_popBehind (ht : Standard table)
    (hn : ∀ core : Core, core.line table (atNumber index) = some { core with a := BitVec.ofNat 16 index })
    (hb : ∀ core : Core, core.line table (atSymbol base) = some { core with a := register.address })
    (a d : Word) (ram : Memory) :
    Core.lines table ⟨a,d,ram⟩
      ([atNumber index, setD (.copy .a), atSymbol base, setD (.add .m .d), atSymbol "R13", setM (.copy .d)] ++
        popD ++ [atSymbol "R13", setA (.copy .m), setM (.copy .d)]) =
      (Vm.pop (setAt ram .frame (wordAt ram register + BitVec.ofNat 16 index))).bind fun (value, ram') =>
        (ram'.write? (wordAt ram register + BitVec.ofNat 16 index) value).map fun ram' =>
          ⟨wordAt ram register + BitVec.ofNat 16 index,value,ram'⟩ := by
  cases h : Vm.pop (setAt ram .frame (wordAt ram register + BitVec.ofNat 16 index)) with
  | none => simp [hn, hb, line_registers ht, lines_popD ht, h]
  | some popped =>
    obtain ⟨value,after⟩ := popped
    -- Popping moves the stack pointer only, so the address is still there.
    have hf : wordAt after .frame = wordAt ram register + BitVec.ofNat 16 index := by
      rw [(Vm.pop_eq_some.mp h).1, Vm.wordAt_setAt, if_neg (by decide), Vm.wordAt_setAt, if_pos rfl]
    by_cases ha : (wordAt ram register + BitVec.ofNat 16 index).IsAddress <;>
      simp [hn, hb, line_registers ht, lines_popD ht, h, hf, Memory.write?, ha]

variable {line : Line} {address : Word}

theorem lines_pushFixed (ht : Standard table)
    (hl : ∀ core : Core, core.line table line = some { core with a := address }) (a d : Word) (ram : Memory) :
    Core.lines table ⟨a,d,ram⟩ ([line, setD (.copy .m)] ++ pushD) = (ram.read? address).bind fun value =>
      (Vm.push value ram).map fun ram => ⟨Place.sp.address,value,ram⟩ := by
  by_cases h : address.IsAddress <;> simp [hl, lines_pushD ht, Memory.read?, h]

theorem lines_popFixed (ht : Standard table)
    (hl : ∀ core : Core, core.line table line = some { core with a := address }) (a d : Word) (ram : Memory) :
    Core.lines table ⟨a,d,ram⟩ (popD ++ [line, setM (.copy .d)]) = (Vm.pop ram).bind fun (value, ram) =>
      (ram.write? address value).map fun ram => ⟨address,value,ram⟩ := by
  cases h : Vm.pop ram <;> by_cases ha : address.IsAddress <;> simp [hl, lines_popD ht, h, Memory.write?, ha]

end Accesses

/-- Code without jumps that changes memory in a certain way, whatever is in the registers. -/
def Does (table : SymbolTable) (code : List Line) (ram changed : Memory) : Prop :=
  ∀ a d, ∃ a' d', Core.lines table ⟨a,d,ram⟩ code = some ⟨a',d',changed⟩

section Does

variable {rom : Memory} {table : SymbolTable} {pc : Nat} {unit : String} {segment : Vm.Segment} {index : Nat}
  {statics : Vm.Statics} {ram changed : Memory}

/-- The static entries of a unit lie where its code looks for them. -/
def Finds (table : SymbolTable) (statics : Vm.Statics) (unit : String) : Prop :=
  ∀ index value, statics unit index = some value →
    (Asm.Operand.symbol (Vm.staticName unit index)).value? table = some value

theorem line_fixedPlace (ht : Standard table) (hs : Finds table statics unit) (hi : segment.admits index = true)
    {line : Line} (hf : fixedPlace (some unit) segment index = .ok line) (hl : Lies rom table pc line) {address : Word}
    (ha : Vm.entry? statics unit segment index ram = some address) (hr : segment.register? = none) (core : Core) :
    core.line table line = some { core with a := address } := by
  cases segment with
  | argument | «local» | this | that => cases hr
  | constant => cases ha
  | static =>
    cases hf
    obtain ⟨value,hv,rfl⟩ := Option.map_eq_some_iff.mp ha
    exact line_atSymbol (hs index value hv) core
  | pointer =>
    cases hf
    cases ha
    have hle : (index : Int) ≤ 1 := by simpa [Vm.Segment.admits, Vm.Segment.last?] using hi
    rcases (by omega : index = 0 ∨ index = 1) with rfl | rfl
    · exact (line_registers ht core).2.2.2.1
    · exact (line_registers ht core).2.2.2.2.1
  | temp =>
    cases hf
    cases ha
    rw [line_atNumber hl core, BitVec.ofInt_add, BitVec.ofInt_natCast, BitVec.ofInt_natCast]
    rfl

theorem line_base (ht : Standard table) {base : String} {register : Place} (hb : segment.base? = some base)
    (hr : segment.register? = some register) (core : Core) :
    core.line table (atSymbol base) = some { core with a := register.address } := by
  have h := line_registers ht core
  cases segment with
  | argument => cases hb; cases hr; exact h.2.2.1
  | «local» => cases hb; cases hr; exact h.2.1
  | this => cases hb; cases hr; exact h.2.2.2.1
  | that => cases hb; cases hr; exact h.2.2.2.2.1
  | static | pointer | temp | constant => cases hr

/-- A segment has its entries behind a register or at fixed places, or it is no storage. -/
theorem segment_cases (segment : Vm.Segment) : segment = .constant ∨ segment ≠ .constant ∧
    ((∃ base register, segment.base? = some base ∧ segment.register? = some register) ∨
      segment.base? = none ∧ segment.register? = none) := by
  cases segment <;> simp [Vm.Segment.base?, Vm.Segment.register?]

theorem entry?_behind {register : Place} (hr : segment.register? = some register) (statics : Vm.Statics) :
    Vm.entry? statics unit segment index ram = some (wordAt ram register + BitVec.ofNat 16 index) := by
  cases segment <;> cases hr <;> rfl

theorem exists_fixedPlace (unit : String) (segment : Vm.Segment) (index : Nat) :
    ∃ line, fixedPlace (some unit) segment index = .ok line := by
  cases segment <;> exact ⟨_,rfl⟩

theorem linesOf_push_behind {base : String} (hb : segment.base? = some base) (unit : Option String) (index : Nat) :
    linesOf (pushPieces unit segment index) =
      [atNumber index, setD (.copy .a), atSymbol base, setA (.add .m .d), setD (.copy .m)] ++ pushD := by
  cases segment <;> cases hb <;> rfl

theorem linesOf_push_fixed (hn : segment ≠ .constant) (hb : segment.base? = none) {unit : Option String} {line : Line}
    (hf : fixedPlace unit segment index = .ok line) :
    linesOf (pushPieces unit segment index) = [line, setD (.copy .m)] ++ pushD := by
  cases segment with
  | constant => exact absurd rfl hn
  | argument | «local» | this | that => cases hb
  | static | pointer | temp => simp [pushPieces, Vm.Segment.base?, hf, linesOf, Piece.lines]

theorem linesOf_pop_behind {base : String} (hb : segment.base? = some base) (unit : Option String) (index : Nat) :
    linesOf (popPieces unit segment index) =
      [atNumber index, setD (.copy .a), atSymbol base, setD (.add .m .d), atSymbol "R13", setM (.copy .d)] ++
        popD ++ [atSymbol "R13", setA (.copy .m), setM (.copy .d)] := by
  simp [popPieces, hb, linesOf, Piece.lines]

theorem linesOf_pop_fixed (hb : segment.base? = none) {unit : Option String} {line : Line}
    (hf : fixedPlace unit segment index = .ok line) :
    linesOf (popPieces unit segment index) = popD ++ [line, setM (.copy .d)] := by
  simp [popPieces, hb, hf, linesOf, Piece.lines]

theorem line_atIndex {code : List Line} (index : Nat) (hc : Holds rom table pc code) (hm : atNumber index ∈ code)
    (core : Core) :
    core.line table (atNumber index) = some { core with a := BitVec.ofNat 16 index } := by
  obtain ⟨_,hl⟩ := hc.lies_of_mem hm
  rw [line_atNumber hl, BitVec.ofInt_natCast]

theorem does_push (ht : Standard table) (hs : Finds table statics unit) (hi : segment.admits index = true)
    (hc : Holds rom table pc (linesOf (pushPieces (some unit) segment index)))
    (h : Vm.pushEntry statics unit segment index ram = some changed) :
    Does table (linesOf (pushPieces (some unit) segment index)) ram changed := by
  intro a d
  rcases segment_cases segment with rfl | ⟨hn,⟨base,register,hb,hr⟩ | ⟨hb,hr⟩⟩
  · have hl : linesOf (pushPieces (some unit) .constant index) = [atNumber index, setD (.copy .a)] ++ pushD := rfl
    have hp : Vm.push (BitVec.ofNat 16 index) ram = some changed := h
    have hx := line_atIndex index hc (by simp [hl])
    refine ⟨Place.sp.address,BitVec.ofNat 16 index,?_⟩
    simp [hl, hx, Core.out, Comp.value, Asm.Register.value, Comp.usesMemory, lines_pushD ht, hp]
  · simp only [Vm.pushEntry, if_neg hn, entry?_behind hr, Option.bind_eq_bind, Option.bind_some,
      Option.bind_eq_some_iff] at h
    obtain ⟨value,hv,hp⟩ := h
    have hl := linesOf_push_behind hb (some unit) index
    have hx := line_atIndex index hc (by simp [hl])
    refine ⟨Place.sp.address,value,?_⟩
    rw [hl, lines_pushBehind ht hx (line_base ht hb hr), hv, Option.bind_some, hp]
    rfl
  · simp only [Vm.pushEntry, if_neg hn, Option.bind_eq_bind, Option.bind_eq_some_iff] at h
    obtain ⟨address,ha,value,hv,hp⟩ := h
    obtain ⟨line,hf⟩ := exists_fixedPlace unit segment index
    have hl := linesOf_push_fixed hn hb hf
    obtain ⟨_,hlies⟩ := hc.lies_of_mem (show line ∈ _ by simp [hl])
    refine ⟨Place.sp.address,value,?_⟩
    rw [hl, lines_pushFixed ht (line_fixedPlace ht hs hi hf hlies ha hr), hv, Option.bind_some, hp]
    rfl

theorem does_pop (ht : Standard table) (hs : Finds table statics unit) (hi : segment.admits index = true)
    (hc : Holds rom table pc (linesOf (popPieces (some unit) segment index)))
    (h : Vm.popEntry statics unit segment index ram = some changed) :
    Does table (linesOf (popPieces (some unit) segment index)) ram changed := by
  intro a d
  simp only [Vm.popEntry, Option.bind_eq_bind, Option.bind_eq_some_iff] at h
  obtain ⟨address,ha,⟨value,popped⟩,hp,hw⟩ := h
  refine ⟨address,value,?_⟩
  rcases segment_cases segment with rfl | ⟨hn,⟨base,register,hb,hr⟩ | ⟨hb,hr⟩⟩
  · cases ha
  · rw [entry?_behind hr] at ha
    cases ha
    rw [hr, Option.isSome_some, if_pos rfl] at hp
    have hl := linesOf_pop_behind hb (some unit) index
    have hx := line_atIndex index hc (by simp [hl])
    rw [hl, lines_popBehind ht hx (line_base ht hb hr), hp, Option.bind_some]
    exact Option.map_eq_some_iff.mpr ⟨changed,hw,rfl⟩
  · rw [hr, Option.isSome_none, if_neg Bool.false_ne_true] at hp
    obtain ⟨line,hf⟩ := exists_fixedPlace unit segment index
    have hl := linesOf_pop_fixed hb hf
    obtain ⟨_,hlies⟩ := hc.lies_of_mem (show line ∈ _ by simp [hl])
    rw [hl, lines_popFixed ht (line_fixedPlace ht hs hi hf hlies ha hr), hp, Option.bind_some]
    exact Option.map_eq_some_iff.mpr ⟨changed,hw,rfl⟩

theorem does_unary (ht : Standard table) {comp : Comp} {f : Word → Word} (hv : ∀ a d x, comp.value a d x = f x)
    (h : Vm.changeTop f ram = some changed) : Does table (atTop ++ [setM comp]) ram changed := by
  intro a d
  obtain ⟨ha,rfl⟩ := Vm.changeTop_eq_some.mp h
  refine ⟨wordAt ram .sp - 1#16,d,?_⟩
  rw [lines_append, lines_atTop ht, Option.bind_some, lines_cons, line_setM, if_pos ha, Core.out, hv]
  rfl

theorem does_binary (ht : Standard table) {comp : Comp} {f : Word → Word → Word}
    (hv : ∀ a y x, comp.value a y x = f x y)
    (h : (Vm.pop ram).bind (fun (y, ram) => Vm.changeTop (fun x => f x y) ram) = some changed) :
    Does table (popOverNext ++ [setM comp]) ram changed := by
  intro a d
  obtain ⟨⟨y,popped⟩,hp,h⟩ := Option.bind_eq_some_iff.mp h
  obtain ⟨ha,rfl⟩ := Vm.changeTop_eq_some.mp h
  refine ⟨wordAt popped .sp - 1#16,y,?_⟩
  rw [lines_append, lines_popOverNext ht, hp, Option.map_some, Option.bind_some, lines_cons, line_setM, if_pos ha,
    Core.out, hv]
  rfl

theorem does_operate (ht : Standard table) {operator : Vm.Operator} (hn : operator.isComparison = false) (number : Nat)
    (h : Vm.operate operator ram = some changed) : Does table (operation operator number) ram changed := by
  cases operator with
  | add => exact does_binary ht (fun _ _ _ => rfl) h
  | sub => exact does_binary ht (fun _ _ _ => rfl) h
  | and => exact does_binary ht (fun a y x => BitVec.and_comm y x) h
  | or => exact does_binary ht (fun a y x => BitVec.or_comm y x) h
  | neg => exact does_unary ht (fun _ _ _ => rfl) h
  | not => exact does_unary ht (fun _ _ _ => rfl) h
  | eq | gt | lt => cases hn

theorem Does.append {xs ys : List Line} {between : Memory} (hx : Does table xs ram between)
    (hy : Does table ys between changed) : Does table (xs ++ ys) ram changed := by
  intro a d
  obtain ⟨a',d',hx⟩ := hx a d
  obtain ⟨a'',d'',hy⟩ := hy a' d'
  exact ⟨a'',d'',by rw [lines_append, hx, Option.bind_some, hy]⟩

theorem does_pushZeros (ht : Standard table) {count : Nat} (h : Vm.pushZeros count ram = some changed) :
    Does table (List.replicate count pushZero).flatten ram changed := by
  induction count generalizing ram with
  | zero =>
    cases h
    exact fun a d => ⟨a,d,rfl⟩
  | succ count ih =>
    obtain ⟨pushed,hp,h⟩ := Option.bind_eq_some_iff.mp h
    have hz : Does table pushZero ram pushed :=
      fun a d => ⟨Place.sp.address,d,by rw [lines_pushZero ht, hp]; rfl⟩
    rw [List.replicate_succ, List.flatten_cons]
    exact hz.append (ih h)

section Calls

variable {name : String} {register : Place}

attribute [local simp] Core.out Comp.value Asm.Register.value Comp.usesMemory

theorem does_save (ht : Standard table)
    (hl : ∀ core : Core, core.line table (atSymbol name) = some { core with a := register.address })
    (h : Vm.save ram register = some changed) : Does table ([atSymbol name, setD (.copy .m)] ++ pushD) ram changed := by
  intro a d
  have hp : Vm.push (wordAt ram register) ram = some changed := h
  exact ⟨Place.sp.address,wordAt ram register,by simp [hl, lines_pushD ht, hp]⟩

theorem does_restore (ht : Standard table)
    (hl : ∀ core : Core, core.line table (atSymbol name) = some { core with a := register.address })
    (h : Vm.restore ram register = some changed) :
    Does table [atSymbol "R13", setAM (.pred .m), setD (.copy .m), atSymbol name, setM (.copy .d)] ram changed := by
  intro a d
  obtain ⟨ha,rfl⟩ := Vm.restore_eq_some.mp h
  exact ⟨register.address,_,by simp [line_registers ht, hl, ha]; rfl⟩

/-- The code of a call up to its jump. -/
def callEntry (arguments : Int) (number : Nat) : List Line :=
  ([atSymbol (returnLabel number), setD (.copy .a)] ++ pushD) ++
    (callerRegisters.flatMap fun register => [atSymbol register, setD (.copy .m)] ++ pushD) ++
    [atSymbol "SP", setD (.copy .m), atNumber (arguments + frameWords), setD (.sub .d .a), atSymbol "ARG",
      setM (.copy .d), atSymbol "SP", setD (.copy .m), atSymbol "LCL", setM (.copy .d)]

theorem linesOf_callPieces (arguments : Int) (number : Nat) : linesOf (callPieces name arguments number) =
    callEntry arguments number ++ [atSymbol name, leapAlways, .label (returnLabel number)] := by
  simp [linesOf, callPieces, Piece.lines, callEntry]

theorem does_saves (ht : Standard table) (h : Vm.savedRegisters.foldlM Vm.save ram = some changed) :
    Does table (callerRegisters.flatMap fun register => [atSymbol register, setD (.copy .m)] ++ pushD) ram changed := by
  simp only [Vm.savedRegisters, List.foldlM_cons, List.foldlM_nil, Option.bind_eq_bind, Option.bind_eq_some_iff,
    Option.pure_def, Option.some.injEq] at h
  obtain ⟨r1,h1,r2,h2,r3,h3,r4,h4,rfl⟩ := h
  have hr := line_registers ht
  exact (does_save ht (fun core => (hr core).2.1) h1).append
    ((does_save ht (fun core => (hr core).2.2.1) h2).append
      ((does_save ht (fun core => (hr core).2.2.2.1) h3).append
        ((does_save ht (fun core => (hr core).2.2.2.2.1) h4).append fun a d => ⟨a,d,rfl⟩)))

theorem does_enter (ht : Standard table) {back : Word} {arguments : Int} {number : Nat}
    (hb : ∀ core : Core, core.line table (atSymbol (returnLabel number)) = some { core with a := back })
    (hn : ∀ core : Core, core.line table (atNumber (arguments + frameWords)) =
      some { core with a := BitVec.ofInt 16 (arguments + 5) })
    (h : Vm.enter back arguments ram = some changed) : Does table (callEntry arguments number) ram changed := by
  simp only [Vm.enter, Option.bind_eq_bind, Option.bind_eq_some_iff, Option.pure_def, Option.some.injEq] at h
  obtain ⟨pushed,hp,saved,hs,rfl⟩ := h
  have hpush : Does table ([atSymbol (returnLabel number), setD (.copy .a)] ++ pushD) ram pushed :=
    fun a d => ⟨Place.sp.address,back,by simp [hb, lines_pushD ht, hp]⟩
  refine (hpush.append (does_saves ht hs)).append ?_
  intro a d
  refine ⟨Place.lcl.address,wordAt saved .sp,?_⟩
  simp [line_registers ht, hn, Vm.wordAt_setAt]

theorem does_restores (ht : Standard table) (h : Vm.savedRegisters.reverse.foldlM Vm.restore ram = some changed) :
    Does table (callerRegisters.reverse.flatMap fun register =>
      [atSymbol "R13", setAM (.pred .m), setD (.copy .m), atSymbol register, setM (.copy .d)]) ram changed := by
  change [Place.that, .this, .arg, .lcl].foldlM Vm.restore ram = some changed at h
  simp only [List.foldlM_cons, List.foldlM_nil, Option.bind_eq_bind, Option.bind_eq_some_iff, Option.pure_def,
    Option.some.injEq] at h
  obtain ⟨r1,h1,r2,h2,r3,h3,r4,h4,rfl⟩ := h
  have hr := line_registers ht
  exact (does_restore ht (fun core => (hr core).2.2.2.2.1) h1).append
    ((does_restore ht (fun core => (hr core).2.2.2.1) h2).append
      ((does_restore ht (fun core => (hr core).2.2.1) h3).append
        ((does_restore ht (fun core => (hr core).2.1) h4).append fun a d => ⟨a,d,rfl⟩)))

/-- The code of a return up to its jump. -/
def returnBody : List Line :=
  [atSymbol "LCL", setD (.copy .m), atSymbol "R13", setM (.copy .d), atNumber frameWords, setA (.sub .d .a),
    setD (.copy .m), atSymbol "R14", setM (.copy .d)] ++
  (popD ++
  [atSymbol "ARG", setA (.copy .m), setM (.copy .d), atSymbol "ARG", setD (.succ .m), atSymbol "SP",
    setM (.copy .d)]) ++
  (callerRegisters.reverse.flatMap fun register =>
    [atSymbol "R13", setAM (.pred .m), setD (.copy .m), atSymbol register, setM (.copy .d)])

theorem returnCode_eq : returnCode = returnBody ++ [atSymbol "R14", setA (.copy .m), leapAlways] := rfl

theorem does_leave (ht : Standard table)
    (hn : ∀ core : Core, core.line table (atNumber frameWords) = some { core with a := 5#16 }) {back : Word}
    (h : Vm.leave ram = some (back, changed)) : Does table returnBody ram changed ∧ wordAt changed .back = back := by
  obtain ⟨ha,value,popped,hp,harg,hr,hb⟩ := Vm.leave_eq_some.mp h
  refine ⟨?_,hb⟩
  have haside : Does table [atSymbol "LCL", setD (.copy .m), atSymbol "R13", setM (.copy .d), atNumber frameWords,
      setA (.sub .d .a), setD (.copy .m), atSymbol "R14", setM (.copy .d)] ram (Vm.setAside ram) := by
    intro a d
    refine ⟨Place.back.address,(setAt ram .frame (wordAt ram .lcl)).word (wordAt ram .lcl - 5#16),?_⟩
    simp [line_registers ht, hn, ha, Vm.setAside, Vm.wordAt_setAt]
  have hover : Does table (popD ++ [atSymbol "ARG", setA (.copy .m), setM (.copy .d), atSymbol "ARG",
      setD (.succ .m), atSymbol "SP", setM (.copy .d)]) (Vm.setAside ram) (Vm.handOver popped value) := by
    intro a d
    refine ⟨Place.sp.address,wordAt (popped.put (wordAt popped .arg) value) .arg + 1#16,?_⟩
    simp [line_registers ht, lines_popD ht, hp, harg, Vm.handOver]
  exact (haside.append hover).append (does_restores ht hr)

end Calls

end Does

end HackToolchain.Machine
