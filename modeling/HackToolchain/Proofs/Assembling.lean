import HackToolchain.Proofs.Statics

/-! # Programs whose code is assembled

The compiler checks little of what the assembler asks for, so a program that is compiled may still be refused.  Code is
assembled when each of its lines is accepted by itself and no label is there twice; of the lines of a template only
those that depend on the program can be refused.
-/
namespace HackToolchain.Asm

open Compile (labelsIn mem_labelsIn)
open Text (kept)

section Lines

/-- An operand that a load can have: a numeral that is not too large, or a symbol. -/
def isOperand (operand : List Char) : Bool :=
  if !operand.isEmpty && operand.all Text.isDigit then (Text.decimal operand).toOption.any (· ≤ largestLoad)
  else isSymbol operand

/-- The assembler can do with the line, labels that are there twice aside. -/
def Line.isAccepted : Line → Bool
  | .comment _ => true
  | .label name => isSymbol name.toList
  | .load operand => isOperand (kept operand.text.toList)
  | .compute instruction => instruction.comp.isListed

theorem isOperand_of_loadValue? {table : SymbolTable} {operand : List Char} {value : Nat}
    (h : loadValue? table operand = some value) : isOperand operand = true := by
  unfold loadValue? at h
  unfold isOperand
  split at h
  next hd =>
    obtain ⟨hv,hle⟩ := Option.filter_eq_some_iff.mp h
    rw [if_pos hd, hv]
    simpa using hle
  next hd =>
    rw [if_neg hd]
    split at h
    next hs => exact hs
    next => cases h

theorem Encoding.exists_load {operand : List Char} (h : isOperand operand = true) (encoding : Encoding)
    (line : SourceLine) : ∃ next, encoding.load line operand = .ok next := by
  unfold isOperand at h
  unfold Encoding.load
  split at h
  next hd =>
    rw [if_pos hd]
    cases hv : Text.decimal operand with
    | error fault => simp [hv, Except.toOption] at h
    | ok value =>
      have hle : ¬largestLoad < value := by simpa [hv, Except.toOption] using h
      exact ⟨_,by rw [Encoding.loadNumber, hv]; exact if_neg hle⟩
  next hd =>
    rw [if_neg hd, if_pos h]
    exact ⟨_,rfl⟩

theorem isLabel_of_text {line : Line} (hc : Compile.IsCode line) {source : SourceLine}
    (ht : source.text = line.readText) : source.isLabel = decide (line.size = 0) := by
  have hsize := (head_readText hc).1
  rw [← ht] at hsize
  rw [← hsize, SourceLine.isLabel]
  split <;> simp_all

/-- A line that is accepted and no label is encoded from every state of the second pass. -/
theorem Encoding.exists_add {line : Line} (hc : Compile.IsCode line) (ha : line.isAccepted = true)
    {source : SourceLine} (ht : source.text = line.readText) (hl : source.isLabel = false) (encoding : Encoding) :
    ∃ next, encoding.add source = .ok next := by
  have hload := (head_readText hc).2
  rw [← ht] at hload
  unfold Encoding.add
  cases line with
  | comment remark => cases hc.1
  | label name => simp [isLabel_of_text hc ht, Line.size] at hl
  | load operand =>
    have hl' : source.isLoad = true := hload
    rw [readText_load] at ht
    rw [if_pos hl', ht]
    exact Encoding.exists_load ha encoding source
  | compute instruction =>
    rw [readText_compute] at ht
    have hp : Compute.parse source.text = .ok instruction := ht ▸ (Compute.parse_chars instruction _).mpr ⟨ha,rfl⟩
    refine ⟨encoding.push instruction.code,?_⟩
    rw [if_neg (by simp [SourceLine.isLoad, hload, Line.isLoad]), Encoding.compute, hp]

theorem labelName_of_isSymbol {source : SourceLine} {name : String} (hs : isSymbol name.toList = true)
    (ht : source.text = '(' :: (name.toList ++ [')'])) : source.labelName = .ok name := by
  have hlength : 0 < name.toList.length := by
    cases hn : name.toList with
    | nil => simp [hn, isSymbol] at hs
    | cons c rest => simp
  have hd : (source.text.drop 1).dropLast = name.toList := by simp [ht]
  have hwhole : ¬((decide (source.text.length < 3) || source.text.getLast? != some ')') = true) := by
    simp only [ht, List.length_cons, List.length_append, List.length_nil, List.getLast?_cons, List.getLast?_append]
    simp only [Bool.or_eq_true, decide_eq_true_eq, not_or]
    exact ⟨by omega,by simp⟩
  rw [SourceLine.labelName, if_neg hwhole, hd]
  simp [hs]

/-- The first pass stops at no label, if all of them are symbols that are neither in the table nor there twice. -/
theorem Labels.exists_foldlM {sources : List SourceLine} {code : List Line} (hr : Reads sources code)
    (ha : ∀ line ∈ code, line.isAccepted = true) {labels : Labels}
    (hn : (labels.symbols.names ++ labelsIn code).Nodup) : ∃ last, sources.foldlM Labels.add labels = .ok last := by
  obtain ⟨ht,hc⟩ := hr
  induction code generalizing sources labels with
  | nil =>
    cases List.map_eq_nil_iff.mp ht
    exact ⟨labels,rfl⟩
  | cons line rest ih =>
    obtain ⟨source,after,rfl,hsource,hafter⟩ := List.map_eq_cons_iff.mp ht
    obtain ⟨hline,hcode⟩ := List.forall_mem_cons.mp hc
    obtain ⟨haccept,haccepts⟩ := List.forall_mem_cons.mp ha
    -- It is enough to take the first step and to go on from where it leads.
    suffices hstep : ∃ next, labels.add source = .ok next ∧ (next.symbols.names ++ labelsIn rest).Nodup by
      obtain ⟨next,hnext,hnodup⟩ := hstep
      obtain ⟨last,hlast⟩ := ih haccepts hnodup hafter hcode
      exact ⟨last,Outcome.foldlM_cons_eq_ok.mpr ⟨next,hnext,hlast⟩⟩
    cases line with
    | comment remark => cases hline.1
    | label name =>
      have hl := isLabel_of_text hline hsource
      rw [readText_label hline.2] at hsource
      have hfresh : labels.symbols.get? name = none := by
        rw [SymbolTable.get?_eq_none_iff hn.of_append_left]
        intro hm
        exact (List.nodup_append.mp hn).2.2 name hm name (mem_labelsIn.mpr List.mem_cons_self) rfl
      refine ⟨{ labels with symbols := labels.symbols.insert name labels.address },?_,?_⟩
      · simp [Labels.add, hl, Line.size, labelName_of_isSymbol haccept hsource, hfresh]
      · simpa [SymbolTable.names_insert, labelsIn] using hn
    | load operand | compute instruction =>
      have hl := isLabel_of_text hline hsource
      exact ⟨{ labels with address := labels.address + 1 },by simp [Labels.add, hl, Line.size],hn⟩

/-- The labels that the first pass enters are those of the code, in the same order. -/
theorem names_labelEntries {sources : List SourceLine} {code : List Line} (hr : Reads sources code)
    (ha : ∀ line ∈ code, line.isAccepted = true) (address : Nat) :
    (labelEntries address sources).map (·.1) = labelsIn code := by
  obtain ⟨ht,hc⟩ := hr
  induction code generalizing sources address with
  | nil =>
    cases List.map_eq_nil_iff.mp ht
    rfl
  | cons line rest ih =>
    obtain ⟨source,after,rfl,hsource,hafter⟩ := List.map_eq_cons_iff.mp ht
    obtain ⟨hline,hcode⟩ := List.forall_mem_cons.mp hc
    obtain ⟨haccept,haccepts⟩ := List.forall_mem_cons.mp ha
    have hl := isLabel_of_text hline hsource
    have hrest := fun address => ih haccepts address hafter hcode
    cases line with
    | comment remark => cases hline.1
    | label name =>
      rw [readText_label hline.2] at hsource
      simp [labelEntries, hl, Line.size, labelName_of_isSymbol haccept hsource, Except.toOption, hrest, labelsIn]
    | load operand | compute instruction => simp [labelEntries, hl, Line.size, hrest, labelsIn]

/-- Code is assembled when its lines are accepted one by one and its labels are new names, each of them there once. -/
theorem assembles_iff {sources : List SourceLine} {code : List Line} (hr : Reads sources code) :
    (∃ result, assembleLines sources = .ok result) ↔
      (∀ line ∈ code, line.isAccepted = true) ∧ (SymbolTable.predefined.names ++ labelsIn code).Nodup := by
  constructor
  · rintro ⟨⟨table,words⟩,h⟩
    obtain ⟨allocated,hres⟩ := resolved_of_assembleLines h
    have ha : ∀ line ∈ code, line.isAccepted = true := by
      intro line hm
      obtain ⟨before,after,rfl⟩ := List.append_of_mem hm
      cases line with
      | comment remark => rfl
      | label name => exact (hres.label_at hr).1
      | load operand =>
        obtain ⟨word,-,hv⟩ := hres.load_at hr
        exact isOperand_of_loadValue? hv
      | compute instruction => exact (hres.compute_at hr).1
    refine ⟨ha,?_⟩
    have hn := hres.nodup
    rw [SymbolTable.names, hres.entries, List.map_append, List.map_append, names_labelEntries hr ha] at hn
    rw [SymbolTable.names, SymbolTable.entries_predefined]
    exact hn.of_append_left
  · rintro ⟨ha,hn⟩
    obtain ⟨labels,hl⟩ := @Labels.exists_foldlM _ _ hr ha ⟨.predefined,0⟩ hn
    obtain ⟨encoding,he⟩ : ∃ encoding, (sources.filter (!·.isLabel)).foldlM Encoding.add
        ⟨labels.symbols,firstVariable,[]⟩ = .ok encoding := by
      apply Outcome.exists_foldlM
      intro state source hm
      obtain ⟨hsource,hlabel⟩ := List.mem_filter.mp hm
      have htext : source.text ∈ code.map Line.readText := hr.texts ▸ List.mem_map_of_mem hsource
      obtain ⟨line,hline,he⟩ := List.mem_map.mp htext
      exact Encoding.exists_add (hr.lines line hline) (ha line hline) he.symm (by simpa using hlabel) state
    refine ⟨(encoding.symbols,encoding.words.reverse),Outcome.bind_eq_ok.mpr ⟨labels.symbols,?_,?_⟩⟩
    · rw [placeLabels, hl]
      rfl
    · rw [encodeLines, he]
      rfl

end Lines

end HackToolchain.Asm

namespace HackToolchain.Compile

open Asm (Line isOperand isSymbol)
open Text (IsToken)
open Vm (Instruction Operator Segment staticName)

section Templates

theorem isOperand_of_isSymbol {operand : List Char} (h : isSymbol operand = true) : isOperand operand = true := by
  simp [isOperand, Asm.all_isDigit_of_isSymbol h, h]

theorem isAccepted_atSymbol {name : String} (h : IsToken name.toList) :
    (atSymbol name).isAccepted = isOperand name.toList := by
  change isOperand (Text.kept name.toList) = _
  rw [Text.kept_of_isToken h]

theorem isAccepted_atNumber (value : Int) : (atNumber value).isAccepted = true ↔ 0 ≤ value ∧ value ≤ 32767 := by
  change isOperand (Text.kept (toString value).toList) = true ↔ _
  rw [Text.kept_of_isToken (Text.isToken_toString value)]
  cases value with
  | ofNat n =>
    have ht : (toString (Int.ofNat n)).toList = Nat.toDigits 10 n := Nat.toList_repr
    have hd : (!(Nat.toDigits 10 n).isEmpty && (Nat.toDigits 10 n).all Text.isDigit) = true := by
      simp [Nat.toDigits_ne_nil, Text.toDigits_all_isDigit]
    rw [ht, isOperand, if_pos hd, Text.decimal_toDigits]
    split
    next hmax =>
      have hlong : ¬(Nat.toDigits 10 n).length ≤ 5 := by
        unfold Text.maxNumeralDigits at hmax
        omega
      rw [Nat.length_toDigits_le_iff (by decide) (by decide)] at hlong
      simp only [Except.toOption, Option.any_none, Bool.false_eq_true, false_iff, not_and]
      intro _ hle
      have hn : (n : Int) ≤ 32767 := hle
      omega
    next =>
      have hn : (0 ≤ Int.ofNat n ∧ Int.ofNat n ≤ 32767) ↔ n ≤ 32767 := by
        simp only [Int.ofNat_eq_natCast]
        omega
      rw [hn]
      exact decide_eq_true_iff
  | negSucc n =>
    have ht : (toString (Int.negSucc n)).toList = '-' :: Nat.toDigits 10 (n + 1) := by
      change ("-" ++ (n + 1).repr).toList = _
      rw [String.toList_append, Nat.toList_repr]
      rfl
    have hm : Text.isDigit '-' = false := by decide
    have hs : isSymbol ('-' :: Nat.toDigits 10 (n + 1)) = false := rfl
    rw [ht, isOperand, if_neg (by simp [hm]), hs]
    simp only [Bool.false_eq_true, false_iff, not_and]
    intro h
    exact absurd h (by simp)

theorem isAccepted_registers : (atSymbol "SP").isAccepted = true ∧ (atSymbol "LCL").isAccepted = true ∧
    (atSymbol "ARG").isAccepted = true ∧ (atSymbol "THIS").isAccepted = true ∧ (atSymbol "THAT").isAccepted = true ∧
    (atSymbol "R13").isAccepted = true ∧ (atSymbol "R14").isAccepted = true := by
  decide

/-- A made label is a symbol, wherever it is loaded or stands. -/
theorem isSymbol_numbered {word : String} (h : isSymbol word.toList = true) (number : Nat) :
    isSymbol (word.toList ++ Nat.toDigits 10 number) = true :=
  Asm.isSymbol_append h fun _ => Asm.isSymbolChar_of_mem_toDigits

theorem isAccepted_symbol {name : String} (h : isSymbol name.toList = true) : (atSymbol name).isAccepted = true := by
  rw [isAccepted_atSymbol (Asm.isToken_of_isSymbol h), isOperand_of_isSymbol h]

theorem isAccepted_compute (dest : Asm.Dest) (comp : Asm.Comp) (jump : Option Asm.Jump) :
    (Line.compute ⟨dest,comp,jump⟩).isAccepted = comp.isListed := rfl

/-- The machine has every computation that a template uses. -/
theorem isListed_used : Asm.Comp.zero.isListed = true ∧ Asm.Comp.negOne.isListed = true ∧
    (Asm.Comp.copy .a).isListed = true ∧ (Asm.Comp.copy .d).isListed = true ∧ (Asm.Comp.copy .m).isListed = true ∧
    (Asm.Comp.neg .m).isListed = true ∧ (Asm.Comp.not .m).isListed = true ∧ (Asm.Comp.succ .m).isListed = true ∧
    (Asm.Comp.pred .m).isListed = true ∧ (Asm.Comp.pred .a).isListed = true ∧ (Asm.Comp.add .m .d).isListed = true ∧
    (Asm.Comp.sub .m .d).isListed = true ∧ (Asm.Comp.sub .d .a).isListed = true ∧
    (Asm.Comp.and .d .m).isListed = true ∧ (Asm.Comp.or .d .m).isListed = true := by
  decide

theorem isAccepted_label (name : String) : (Line.label name).isAccepted = isSymbol name.toList := rfl

theorem isAccepted_static {unit : String} (hu : IsToken unit.toList) (index : Nat) :
    (atSymbol (staticName unit index)).isAccepted = isSymbol (staticName unit index).toList := by
  have hd : (staticName unit index).toList.all Text.isDigit = false := by
    rw [List.all_eq_false]
    exact ⟨'.',by simp [toList_staticName],by decide⟩
  rw [isAccepted_atSymbol (isToken_staticName hu index), isOperand, if_neg (by simp [hd])]

theorem isAccepted_atIndex (index : Nat) : (atNumber index).isAccepted = true ↔ index ≤ 32767 := by
  rw [isAccepted_atNumber]
  omega

theorem isAccepted_base {segment : Segment} {base : String} (h : segment.base? = some base) :
    (atSymbol base).isAccepted = true := by
  cases segment <;> cases h <;> simp [isAccepted_registers]

theorem le_of_admits {segment : Segment} {index last : Nat} (h : segment.admits index = true)
    (hl : segment.last? = some last) : index ≤ last := by
  simp only [Segment.admits, hl, Bool.and_eq_true] at h
  exact Int.ofNat_le.mp (of_decide_eq_true h.2)

/-- What the assembler asks of a segment entry: its index can be loaded, if the entry lies behind a register, and its
name is a symbol, if it has one. -/
def IsReachable (unit : String) (segment : Segment) (index : Nat) : Prop :=
  (segment.base?.isSome = true → index ≤ 32767) ∧ (segment = .static → isSymbol (staticName unit index).toList = true)

theorem isAccepted_fixedPlace {unit : String} (hu : IsToken unit.toList) {segment : Segment} {index : Nat} {line : Line}
    (hi : segment.admits index = true) (hc : segment ≠ .constant) (hb : segment.base? = none)
    (hf : fixedPlace (some unit) segment index = .ok line) :
    line.isAccepted = true ↔ IsReachable unit segment index := by
  cases segment with
  | constant => exact absurd rfl hc
  | argument | «local» | this | that => cases hb
  | static =>
    cases hf
    change (atSymbol (staticName unit index)).isAccepted = true ↔ _
    simp [isAccepted_static hu, IsReachable, Segment.base?]
  | pointer =>
    cases hf
    have hp : (atSymbol (pointerEntry index)).isAccepted = true := by
      unfold pointerEntry
      split <;> simp [isAccepted_registers]
    simp [IsReachable, Segment.base?, hp]
  | temp =>
    cases hf
    have hle : index ≤ 7 := le_of_admits hi rfl
    have ht : (atNumber (Segment.tempStart + index)).isAccepted = true := by
      rw [isAccepted_atNumber]
      unfold Segment.tempStart
      omega
    simp [IsReachable, Segment.base?, ht]

theorem isAccepted_push {unit : String} (hu : IsToken unit.toList) {segment : Segment} {index : Nat}
    (hi : segment.admits index = true) :
    (∀ line ∈ linesOf (pushPieces (some unit) segment index), line.isAccepted = true) ↔
      IsReachable unit segment index := by
  rcases Machine.segment_cases segment with rfl | ⟨hn,⟨base,-,hb,-⟩ | ⟨hb,-⟩⟩
  · have hl : linesOf (pushPieces (some unit) .constant index) = [atNumber index, setD (.copy .a)] ++ pushD := rfl
    have hx := (isAccepted_atIndex index).mpr (le_of_admits hi rfl)
    simp [hl, hx, IsReachable, Segment.base?, pushD, isAccepted_registers, isAccepted_compute, isListed_used, setA,
      setD, setM]
  · have hs : segment ≠ .static := by
      rintro rfl
      cases hb
    rw [Machine.linesOf_push_behind hb]
    simp [IsReachable, hb, hs, isAccepted_atIndex, isAccepted_base hb, pushD, isAccepted_registers, isAccepted_compute,
      isListed_used, setA, setD, setM]
  · obtain ⟨line,hf⟩ := Machine.exists_fixedPlace unit segment index
    rw [Machine.linesOf_push_fixed hn hb hf, ← isAccepted_fixedPlace hu hi hn hb hf]
    simp [pushD, isAccepted_registers, isAccepted_compute, isListed_used, setA, setD, setM]

theorem isAccepted_pop {unit : String} (hu : IsToken unit.toList) {segment : Segment} {index : Nat}
    (hn : segment ≠ .constant) (hi : segment.admits index = true) :
    (∀ line ∈ linesOf (popPieces (some unit) segment index), line.isAccepted = true) ↔
      IsReachable unit segment index := by
  rcases Machine.segment_cases segment with hc | ⟨-,⟨base,-,hb,-⟩ | ⟨hb,-⟩⟩
  · exact absurd hc hn
  · have hs : segment ≠ .static := by
      rintro rfl
      cases hb
    rw [Machine.linesOf_pop_behind hb]
    simp [IsReachable, hb, hs, isAccepted_atIndex, isAccepted_base hb, popD, isAccepted_registers, isAccepted_compute,
      isListed_used, setA, setAM, setD, setM]
  · obtain ⟨line,hf⟩ := Machine.exists_fixedPlace unit segment index
    rw [Machine.linesOf_pop_fixed hb hf, ← isAccepted_fixedPlace hu hi hn hb hf]
    simp [popD, isAccepted_registers, isAccepted_compute, isListed_used, setAM, setD, setM]

theorem isAccepted_call {name : String} (hn : IsToken name.toList) {arguments : Int} (ha : 0 ≤ arguments)
    (number : Nat) : (∀ line ∈ linesOf (callPieces name arguments number), line.isAccepted = true) ↔
      arguments ≤ 32762 ∧ isOperand name.toList = true := by
  have ht := isAccepted_atSymbol hn
  have hr : isSymbol (returnLabel number).toList = true := by
    rw [toList_returnLabel]
    exact isSymbol_numbered (by decide) number
  have hcount : (atNumber (arguments + frameWords)).isAccepted = true ↔ arguments ≤ 32762 := by
    rw [isAccepted_atNumber]
    unfold frameWords
    omega
  simp [linesOf, callPieces, callerRegisters, Piece.lines, pushD, isAccepted_registers, hcount, isAccepted_compute,
    isAccepted_label, isAccepted_symbol hr, hr, ht, isListed_used, setA, setD, setM, leap, leapAlways]

theorem isAccepted_operation (operator : Operator) (number : Nat) :
    ∀ line ∈ operation operator number, line.isAccepted = true := by
  have ht : isSymbol (trueLabel operator number).toList = true := by
    rw [toList_trueLabel]
    exact isSymbol_numbered (by cases operator <;> decide) number
  have he : isSymbol (endLabel operator number).toList = true := by
    rw [toList_endLabel]
    exact isSymbol_numbered (by cases operator <;> decide) number
  have hcomparison : ∀ jump, ∀ line ∈ comparison operator jump number, line.isAccepted = true := by
    intro jump
    simp [comparison, popOverNext, popD, atTop, isAccepted_registers, isAccepted_label, isAccepted_symbol ht,
      isAccepted_symbol he, ht, he, isAccepted_compute, isListed_used, setA, setAM, setD, setM, leap, leapAlways]
  cases operator with
  | eq => exact hcomparison .jeq
  | gt => exact hcomparison .jgt
  | lt => exact hcomparison .jlt
  | _ =>
    simp [operation, popOverNext, popD, atTop, isAccepted_registers, isAccepted_compute, isListed_used, setA, setAM,
      setD, setM]

/-- What the assembler asks of an instruction by itself. -/
def IsEncodable (unit : String) : Instruction → Prop
  | .operate _ | .ret => True
  | .push segment index | .pop segment index => IsReachable unit segment index
  | .label name | .function name _ => isSymbol name.toList = true
  | .goto name | .ifGoto name => isOperand name.toList = true
  | .call name arguments => arguments ≤ 32762 ∧ isOperand name.toList = true

/-- The lines of a template are accepted if what they take from the program is. -/
theorem isAccepted_template {unit : String} (hu : IsToken unit.toList) (number : Nat) {instruction : Instruction}
    (hi : instruction.IsSound) :
    (∀ line ∈ template unit number instruction, line.isAccepted = true) ↔ IsEncodable unit instruction := by
  cases instruction with
  | operate operator =>
    have ht : template unit number (.operate operator) = operation operator number := by
      cases operator <;> rfl
    rw [ht]
    exact iff_of_true (isAccepted_operation operator number) trivial
  | push segment index => exact isAccepted_push hu hi
  | pop segment index => exact isAccepted_pop hu hi.1 hi.2
  | label name => simp [template, linesOf, pieces, Piece.lines, IsEncodable, isAccepted_label]
  | goto name =>
    have ht := isAccepted_atSymbol hi
    simp [template, linesOf, pieces, Piece.lines, IsEncodable, ht, isAccepted_compute, isListed_used, leap, leapAlways]
  | ifGoto name =>
    have ht := isAccepted_atSymbol hi
    simp [template, linesOf, pieces, Piece.lines, IsEncodable, popD, isAccepted_registers, ht, isAccepted_compute,
      isListed_used, leap, setAM, setD]
  | function name locals =>
    have hzero : ∀ line ∈ pushZero, line.isAccepted = true := by
      simp [pushZero, isAccepted_registers, isAccepted_compute, isListed_used, setA, setM]
    rw [template_function, List.forall_mem_cons]
    refine and_iff_left ?_
    intro line hl
    obtain ⟨lines,hm,hl⟩ := List.mem_flatten.mp hl
    exact hzero line (List.eq_of_mem_replicate hm ▸ hl)
  | call name arguments => exact isAccepted_call hi.1 hi.2 number
  | ret =>
    simp [template, linesOf, pieces, Piece.lines, IsEncodable, returnCode, callerRegisters, popD, isAccepted_registers,
      isAccepted_atNumber, isAccepted_compute, isListed_used, leap, leapAlways, setA, setAM, setD, setM, frameWords]

theorem isAccepted_codeFrom {program : List (String × Instruction)} (hu : ∀ entry ∈ program, IsToken entry.1.toList)
    (hi : ∀ entry ∈ program, entry.2.IsSound) (number : Nat) :
    (∀ line ∈ codeFrom number program, line.isAccepted = true) ↔ ∀ entry ∈ program, IsEncodable entry.1 entry.2 := by
  induction program generalizing number with
  | nil => simp [codeFrom]
  | cons entry rest ih =>
    obtain ⟨hunit,hunits⟩ := List.forall_mem_cons.mp hu
    obtain ⟨hsound,hsounds⟩ := List.forall_mem_cons.mp hi
    rw [codeFrom, List.forall_mem_append, List.forall_mem_cons, isAccepted_template hunit number hsound,
      ih hunits hsounds]

theorem isAccepted_bootstrapCode {options : Options} (he : IsToken options.entry.toList) :
    (∀ line ∈ bootstrapCode options, line.isAccepted = true) ↔
      (0 ≤ options.stackBase ∧ options.stackBase ≤ 32767) ∧ isOperand options.entry.toList = true := by
  have hcode : bootstrapCode options =
      [atNumber options.stackBase, setD (.copy .a), atSymbol "SP", setM (.copy .d)] ++
        linesOf (callPieces options.entry 0 1) := rfl
  rw [hcode, List.forall_mem_append, isAccepted_call he (Int.le_refl 0)]
  simp [isAccepted_atNumber, isAccepted_registers, isAccepted_compute, isListed_used, setD, setM]

end Templates

section Labels

/-- The names of the labels and functions of a program. -/
def definedNames (program : List (String × Instruction)) : List String := program.filterMap (·.2.defines?)

/-- The labels that instructions in a row make, the first of which may take the label number `number`. -/
def madeFrom (number : Nat) : List (String × Instruction) → List String
  | [] => []
  | (_, instruction) :: rest => madeLabels number instruction ++ madeFrom (number + labelsTaken instruction) rest

/-- The labels that the code of a program has besides those that the program names. -/
def madeOf (bootstrap : Bool) (program : List (String × Instruction)) : List String :=
  if bootstrap then returnLabel 1 :: madeFrom 2 program else madeFrom 1 program

theorem labelsIn_append (xs ys : List Line) : labelsIn (xs ++ ys) = labelsIn xs ++ labelsIn ys := List.filterMap_append

theorem labelsIn_codeFrom (number : Nat) (program : List (String × Instruction)) :
    (labelsIn (codeFrom number program)).Perm (definedNames program ++ madeFrom number program) := by
  induction program generalizing number with
  | nil => simp [codeFrom, labelsIn, definedNames, madeFrom]
  | cons entry rest ih =>
    have hd : definedNames (entry :: rest) = entry.2.defines?.toList ++ definedNames rest := by
      cases h : entry.2.defines? <;> simp [definedNames, h]
    rw [codeFrom, labelsIn_append, labelsIn_template, madeFrom, hd, List.append_assoc, List.append_assoc]
    refine List.Perm.append_left _ (((ih _).append_left _).trans ?_)
    rw [← List.append_assoc, ← List.append_assoc]
    exact List.perm_append_comm.append_right _

theorem labelsIn_codeOf (options : Options) (bootstrap : Bool) (program : List (String × Instruction)) :
    (labelsIn (codeOf options bootstrap program)).Perm (definedNames program ++ madeOf bootstrap program) := by
  cases bootstrap with
  | false => exact labelsIn_codeFrom 1 program
  | true =>
    have hb : labelsIn (bootstrapCode options) = [returnLabel 1] := rfl
    have hc : codeOf options true program = bootstrapCode options ++ codeFrom 2 program := rfl
    rw [hc, labelsIn_append, hb, madeOf, if_pos rfl]
    exact ((labelsIn_codeFrom 2 program).cons _).trans List.perm_middle.symm

/-- A name that ends in a number after a low line. -/
def IsNumbered (number : Nat) (name : String) : Prop := ∃ stem, name.toList = stem ++ '_' :: Nat.toDigits 10 number

theorem IsNumbered.unique {m n : Nat} {name : String} (hm : IsNumbered m name) (hn : IsNumbered n name) : m = n := by
  obtain ⟨xs,hx⟩ := hm
  obtain ⟨ys,hy⟩ := hn
  exact (numbered_injective (by decide) (hx.symm.trans hy)).2

theorem IsNumbered.not_predefined {n : Nat} {name : String} (h : IsNumbered n name) :
    name ∉ Asm.SymbolTable.predefined.names := by
  have hnone : ∀ other ∈ Asm.SymbolTable.predefined.names, '_' ∉ other.toList := by decide
  obtain ⟨stem,hs⟩ := h
  intro hm
  exact hnone name hm (by simp [hs])

theorem isNumbered_returnLabel (number : Nat) : IsNumbered number (returnLabel number) :=
  ⟨"RETURN_ADDRESS".toList,by simp [toList_returnLabel]⟩

theorem isNumbered_of_mem_madeLabels {number : Nat} {instruction : Instruction} {name : String}
    (h : name ∈ madeLabels number instruction) : labelsTaken instruction = 1 ∧ IsNumbered number name := by
  cases instruction with
  | operate operator =>
    rw [madeLabels] at h
    split at h
    next hc =>
      refine ⟨if_pos hc,?_⟩
      rcases List.mem_pair.mp h with rfl | rfl
      · exact ⟨(operator.constant ++ "_TRUE").toList,by simp [toList_trueLabel]⟩
      · exact ⟨(operator.constant ++ "_END").toList,by simp [toList_endLabel]⟩
    next => cases h
  | call target arguments =>
    cases List.mem_singleton.mp h
    exact ⟨rfl,isNumbered_returnLabel number⟩
  | _ => cases h

theorem exists_of_mem_madeFrom {number : Nat} {program : List (String × Instruction)} {name : String}
    (h : name ∈ madeFrom number program) : ∃ n instruction, number ≤ n ∧ n < number + allTaken program ∧
      name ∈ madeLabels n instruction := by
  induction program generalizing number with
  | nil => cases h
  | cons entry rest ih =>
    have htaken : allTaken (entry :: rest) = labelsTaken entry.2 + allTaken rest := List.sum_cons
    rcases List.mem_append.mp h with h | h
    · obtain ⟨hone,-⟩ := isNumbered_of_mem_madeLabels h
      exact ⟨number,entry.2,Nat.le_refl number,by omega,h⟩
    · obtain ⟨n,instruction,hn,hlt,hname⟩ := ih h
      exact ⟨n,instruction,by omega,by omega,hname⟩

theorem isNumbered_of_mem_madeFrom {number : Nat} {program : List (String × Instruction)} {name : String}
    (h : name ∈ madeFrom number program) : ∃ n, number ≤ n ∧ IsNumbered n name := by
  obtain ⟨n,instruction,hn,-,hm⟩ := exists_of_mem_madeFrom h
  exact ⟨n,hn,(isNumbered_of_mem_madeLabels hm).2⟩

theorem nodup_madeLabels (number : Nat) (instruction : Instruction) : (madeLabels number instruction).Nodup := by
  cases instruction with
  | operate operator =>
    rw [madeLabels]
    split
    · rw [List.nodup_cons, List.mem_singleton]
      refine ⟨?_,List.nodup_singleton _⟩
      intro he
      have hl := congrArg String.toList he
      rw [toList_trueLabel, toList_endLabel] at hl
      cases operator <;> exact absurd (List.append_cancel_right hl) (by decide)
    · exact List.nodup_nil
  | call target arguments => exact List.nodup_singleton _
  | _ => exact List.nodup_nil

/-- Every comparison and every call takes a number of its own, so no label is made twice. -/
theorem nodup_madeFrom (number : Nat) (program : List (String × Instruction)) : (madeFrom number program).Nodup := by
  induction program generalizing number with
  | nil => exact List.nodup_nil
  | cons entry rest ih =>
    refine List.nodup_append.mpr ⟨nodup_madeLabels number entry.2,ih _,?_⟩
    rintro name hfirst _ hrest rfl
    obtain ⟨htaken,hnumber⟩ := isNumbered_of_mem_madeLabels hfirst
    obtain ⟨n,hn,hlater⟩ := isNumbered_of_mem_madeFrom hrest
    rw [htaken, hnumber.unique hlater] at hn
    omega

theorem nodup_madeOf (bootstrap : Bool) (program : List (String × Instruction)) :
    (madeOf bootstrap program).Nodup ∧ ∀ name ∈ madeOf bootstrap program, name ∉ Asm.SymbolTable.predefined.names := by
  cases bootstrap with
  | false =>
    refine ⟨nodup_madeFrom 1 program,?_⟩
    intro name hm
    obtain ⟨_,_,hn⟩ := isNumbered_of_mem_madeFrom hm
    exact hn.not_predefined
  | true =>
    constructor
    · refine List.nodup_cons.mpr ⟨?_,nodup_madeFrom 2 program⟩
      intro hm
      obtain ⟨n,hle,hn⟩ := isNumbered_of_mem_madeFrom hm
      rw [← (isNumbered_returnLabel 1).unique hn] at hle
      omega
    · intro name hm
      rcases List.mem_cons.mp hm with rfl | hm
      · exact (isNumbered_returnLabel 1).not_predefined
      · obtain ⟨_,_,hn⟩ := isNumbered_of_mem_madeFrom hm
        exact hn.not_predefined

/-- Only the names that a program defines can be in the way of each other, of a predefined name or of a made label. -/
theorem nodup_labels_iff (options : Options) (bootstrap : Bool) (program : List (String × Instruction)) :
    (Asm.SymbolTable.predefined.names ++ labelsIn (codeOf options bootstrap program)).Nodup ↔
      (definedNames program).Nodup ∧ ∀ name ∈ definedNames program,
        name ∉ Asm.SymbolTable.predefined.names ∧ name ∉ madeOf bootstrap program := by
  obtain ⟨hmade,hfree⟩ := nodup_madeOf bootstrap program
  rw [((labelsIn_codeOf options bootstrap program).append_left _).nodup_iff, List.nodup_append', List.nodup_append']
  simp only [List.disjoint_left, List.mem_append, not_or]
  constructor
  · rintro ⟨-,⟨hd,-,hdm⟩,hp⟩
    exact ⟨hd,fun name hm => ⟨fun hpre => (hp hpre).1 hm,hdm hm⟩⟩
  · rintro ⟨hd,hnames⟩
    refine ⟨Asm.SymbolTable.nodup_predefined,⟨hd,hmade,fun _ hm => (hnames _ hm).2⟩,?_⟩
    intro name hpre
    exact ⟨fun hm => (hnames name hm).1 hpre,fun hm => hfree name hm hpre⟩

end Labels

section Programs

/-- A name to which the assembler can load the way: a symbol, or a numeral of any script that is not too large. -/
def IsTarget (name : String) : Prop :=
  isSymbol name.toList = true ∨ ∃ value ≤ 32767, Text.Denotes name.toList value

theorem isOperand_iff_isTarget {name : String}
    (h : name.toList.all Text.isDigit = true → name.toList.length < Text.maxNumeralDigits) :
    isOperand name.toList = true ↔ IsTarget name := by
  unfold isOperand IsTarget
  split
  next hd =>
    have hdigits := (Bool.and_eq_true_iff.mp hd).2
    have hs : isSymbol name.toList ≠ true := fun hs => by simp [Asm.all_isDigit_of_isSymbol hs] at hdigits
    have hdecimal : ∀ value, (Text.decimal name.toList).toOption = some value ↔ Text.Denotes name.toList value := by
      intro value
      rw [Outcome.toOption_eq_some, Text.decimal_eq_ok, and_iff_right (Nat.le_of_lt (h hdigits))]
    simp only [or_iff_right hs, Option.any_eq_true, hdecimal, decide_eq_true_eq]
    exact exists_congr fun value => and_comm
  next hd =>
    refine (or_iff_left ?_).symm
    rintro ⟨value,-,hdenotes⟩
    exact hd hdenotes.all_isDigit

/-- What the assembler asks of a program. -/
structure Assemblable (options : Options) (bootstrap : Bool) (program : List (String × Instruction)) : Prop where
  symbols : ∀ name ∈ definedNames program, isSymbol name.toList = true
  unreserved : ∀ name ∈ definedNames program, name ∉ Asm.SymbolTable.predefined.names
  distinct : (definedNames program).Nodup
  apart : ∀ name ∈ definedNames program, name ∉ madeOf bootstrap program
  targets : ∀ entry ∈ program, ∀ name, entry.2.goesTo? = some name → IsTarget name
  indices : ∀ unit segment index, ((unit, .push segment index) ∈ program ∨ (unit, .pop segment index) ∈ program) →
    segment.base?.isSome = true → index ≤ 32767
  arguments : ∀ unit name arguments, (unit, .call name arguments) ∈ program → arguments ≤ 32762
  statics : ∀ unit index, Refers program unit index → isSymbol (staticName unit index).toList = true
  entry : bootstrap = true → IsTarget options.entry
  stackBase : bootstrap = true → 0 ≤ options.stackBase ∧ options.stackBase ≤ 32767

theorem mem_definedNames {program : List (String × Instruction)} {name : String} :
    name ∈ definedNames program ↔ ∃ entry ∈ program, entry.2.defines? = some name := List.mem_filterMap

/-- The conditions on a program are those on its instructions one by one and those on its labels together. -/
theorem assemblable_iff {options : Options} {bootstrap : Bool} {program : List (String × Instruction)}
    (ht : ∀ entry ∈ program, ∀ name, entry.2.goesTo? = some name → (isOperand name.toList = true ↔ IsTarget name))
    (he : bootstrap = true → (isOperand options.entry.toList = true ↔ IsTarget options.entry)) :
    Assemblable options bootstrap program ↔
      ((bootstrap = true → (0 ≤ options.stackBase ∧ options.stackBase ≤ 32767) ∧
          isOperand options.entry.toList = true) ∧ ∀ entry ∈ program, IsEncodable entry.1 entry.2) ∧
        (definedNames program).Nodup ∧ ∀ name ∈ definedNames program,
          name ∉ Asm.SymbolTable.predefined.names ∧ name ∉ madeOf bootstrap program := by
  constructor
  · intro h
    refine ⟨⟨fun hb => ⟨h.stackBase hb,(he hb).mpr (h.entry hb)⟩,?_⟩,h.distinct,
      fun name hm => ⟨h.unreserved name hm,h.apart name hm⟩⟩
    rintro ⟨unit,instruction⟩ hm
    have hdefined : ∀ name, instruction.defines? = some name → isSymbol name.toList = true :=
      fun name hd => h.symbols name (mem_definedNames.mpr ⟨_,hm,hd⟩)
    have htarget : ∀ name, instruction.goesTo? = some name → isOperand name.toList = true :=
      fun name hg => (ht _ hm name hg).mpr (h.targets _ hm name hg)
    cases instruction with
    | operate operator | ret => trivial
    | push segment index =>
      exact ⟨h.indices unit segment index (.inl hm),fun hs => h.statics unit index (.inl (hs ▸ hm))⟩
    | pop segment index =>
      exact ⟨h.indices unit segment index (.inr hm),fun hs => h.statics unit index (.inr (hs ▸ hm))⟩
    | label name | function name locals => exact hdefined name rfl
    | goto name | ifGoto name => exact htarget name rfl
    | call name arguments => exact ⟨h.arguments unit name arguments hm,htarget name rfl⟩
  · rintro ⟨⟨hboot,hencode⟩,hdistinct,hnames⟩
    refine ⟨?_,fun name hm => (hnames name hm).1,hdistinct,fun name hm => (hnames name hm).2,?_,?_,?_,?_,
      fun hb => (he hb).mp (hboot hb).2,fun hb => (hboot hb).1⟩
    · intro name hm
      obtain ⟨⟨unit,instruction⟩,hentry,hd⟩ := mem_definedNames.mp hm
      have h := hencode _ hentry
      cases instruction <;> cases hd <;> exact h
    · rintro ⟨unit,instruction⟩ hm name hg
      rw [← ht _ hm name hg]
      have h := hencode _ hm
      cases instruction with
      | goto other | ifGoto other =>
        cases hg
        exact h
      | call other arguments =>
        cases hg
        exact h.2
      | _ => cases hg
    · rintro unit segment index (hm | hm)
      · exact (hencode _ hm).1
      · exact (hencode _ hm).1
    · intro unit name arguments hm
      exact (hencode _ hm).1
    · rintro unit index (hm | hm)
      · exact (hencode _ hm).2 rfl
      · exact (hencode _ hm).2 rfl

/-- Every row of digits in the source of a unit is short enough for a numeral. -/
def CompilationUnit.HasShortNumerals (unit : CompilationUnit) : Prop :=
  ∀ line ∈ Vm.sourceLines unit.source unit.file, ∀ word ∈ line.words, word.text.all Text.isDigit = true →
    word.text.length < Text.maxNumeralDigits

instance (unit : CompilationUnit) : Decidable unit.HasShortNumerals :=
  @List.decidableBAll _ _ (fun _ => @List.decidableBAll _ _ (fun _ => inferInstance) _) _

theorem exists_word_of_goesTo {units : List CompilationUnit} {program : List (String × Instruction)}
    (hp : programOf units = .ok program) {entry : String × Instruction} (hm : entry ∈ program) {name : String}
    (hg : entry.2.goesTo? = some name) : ∃ unit ∈ units, ∃ line ∈ Vm.sourceLines unit.source unit.file,
      ∃ word ∈ line.words, word.text = name.toList := by
  obtain ⟨unit,hunit,-,commands,hc,command,hcommand,hi⟩ := exists_of_mem_programOf hp hm
  obtain ⟨kind,hk⟩ : ∃ kind, entry.2.named? = some (kind, name) := by
    cases he : entry.2 with
    | call other arguments | goto other | ifGoto other =>
      rw [he] at hg
      cases hg
      exact ⟨_,rfl⟩
    | _ =>
      rw [he] at hg
      cases hg
  have hn := Vm.Command.name_of_first (Vm.Command.first_of_named hi hk).2
  exact ⟨unit,hunit,Vm.exists_word_of_parse hc hcommand hn⟩

theorem exists_assemble_iff {session : Asm.Session} {text file : String} :
    (∃ words, (session.assemble text file).2 = .ok words) ↔
      ∃ result, Asm.assembleLines (Asm.sourceLines text file) = .ok result := by
  unfold Asm.Session.assemble
  cases Asm.assembleLines (Asm.sourceLines text file) with
  | error stopped => simp
  | ok result => simp

/-- A compiled program is assembled if and only if it is what the assembler asks for. -/
theorem assembles_iff_assemblable {options : Options} {units : List CompilationUnit} {summary : Summary} {text : String}
    (hnames : ∀ unit ∈ units, IsToken unit.name.toList)
    (hentry : wantsBootstrap options units = true → IsToken options.entry.toList)
    (hnumerals : ∀ unit ∈ units, unit.HasShortNumerals)
    (hnumeral : wantsBootstrap options units = true → options.entry.toList.all Text.isDigit = true →
      options.entry.toList.length < Text.maxNumeralDigits)
    (hcompile : compile options units = .ok (summary, text)) :
    ∃ program, programOf units = .ok program ∧ ∀ session : Asm.Session, ∀ file,
      (∃ words, (session.assemble text file).2 = .ok words) ↔
        Assemblable options (wantsBootstrap options units) program := by
  obtain ⟨program,lines,hp,-⟩ := code_of_compile hcompile
  refine ⟨program,hp,?_⟩
  intro session file
  obtain ⟨other,ho,hreads⟩ := reads_of_compile (fun unit hm => (hnames unit hm).isUnbroken)
    (fun hb => (hentry hb).isUnbroken) hcompile file
  obtain rfl : program = other := Except.ok.inj (hp.symm.trans ho)
  have htokens : ∀ entry ∈ program, IsToken entry.1.toList := by
    intro entry hm
    obtain ⟨unit,hunit,hname,-⟩ := exists_of_mem_programOf hp hm
    exact hname ▸ hnames unit hunit
  have htargets : ∀ entry ∈ program, ∀ name, entry.2.goesTo? = some name →
      (isOperand name.toList = true ↔ IsTarget name) := by
    intro entry hm name hg
    obtain ⟨unit,hunit,line,hline,word,hword,he⟩ := exists_word_of_goesTo hp hm hg
    apply isOperand_iff_isTarget
    rw [← he]
    exact hnumerals unit hunit line hline word hword
  rw [exists_assemble_iff, Asm.assembles_iff hreads, nodup_labels_iff,
    assemblable_iff htargets fun hb => isOperand_iff_isTarget (hnumeral hb)]
  refine and_congr_left fun _ => ?_
  have hcode := isAccepted_codeFrom htokens fun entry => isSound_of_mem_programOf hp
  cases hb : wantsBootstrap options units with
  | false => simpa [codeOf] using hcode 1
  | true =>
    rw [codeOf, if_pos rfl, List.forall_mem_append, isAccepted_bootstrapCode (hentry hb), hcode 2]
    simp

theorem sum_is_assemblable : ∃ summary text,
    (∀ unit ∈ Machine.sumUnits, IsToken unit.name.toList) ∧ IsToken ({} : Options).entry.toList ∧
    (∀ unit ∈ Machine.sumUnits, unit.HasShortNumerals) ∧ compile {} Machine.sumUnits = .ok (summary, text) ∧
    (∃ words, (Asm.Session.new.assemble text "out.asm").2 = .ok words) ∧ Assemblable {} true Machine.sumProgram := by
  have hnames : ∀ unit ∈ Machine.sumUnits, IsToken unit.name.toList := by decide
  have hentry : IsToken ({} : Options).entry.toList := by decide
  have hlengths : ∀ unit ∈ Machine.sumUnits, ∀ line ∈ Vm.sourceLines unit.source unit.file, ∀ word ∈ line.words,
      word.text.length < Text.maxNumeralDigits := by decide +kernel
  have hnumerals : ∀ unit ∈ Machine.sumUnits, unit.HasShortNumerals :=
    fun unit hu line hl word hw _ => hlengths unit hu line hl word hw
  obtain ⟨summary,text,assembled,words,-,hc,-,ha,-⟩ := Machine.exists_build
    (fun unit hm => (hnames unit hm).isUnbroken) hentry.isUnbroken Machine.sumUnits_compiled
    Machine.programOf_sumUnits Machine.isLoadable_sumProgram
  obtain ⟨program,hp,hiff⟩ := assembles_iff_assemblable hnames (fun _ => hentry) hnumerals
    (fun _ _ => by decide) hc
  obtain rfl : Machine.sumProgram = program := Except.ok.inj (Machine.programOf_sumUnits.symm.trans hp)
  have hwords : ∃ words, (Asm.Session.new.assemble text "out.asm").2 = .ok words := ⟨words,by rw [ha]⟩
  exact ⟨summary,text,hnames,hentry,hnumerals,hc,hwords,(hiff _ _).mp hwords⟩

end Programs

end HackToolchain.Compile
