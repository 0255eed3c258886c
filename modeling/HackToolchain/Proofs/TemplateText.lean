import HackToolchain.Compile.Template
import HackToolchain.Proofs.Numerals
import HackToolchain.Proofs.Reading
import HackToolchain.Proofs.Rendering
import HackToolchain.Proofs.StackMachine

/-! # The text of a template

Every line of a template stays on its line once the names in it do.  So the text of a template is read back line by
line, whatever names the program has chosen.
-/
namespace HackToolchain.Text

/-- A printed integer is a row of digits, after a sign if it is negative. -/
theorem toList_toString (n : Int) :
    ∃ k, (toString n).toList = Nat.toDigits 10 k ∨ (toString n).toList = '-' :: Nat.toDigits 10 k := by
  cases n with
  | ofNat k => exact ⟨k,Or.inl Nat.toList_repr⟩
  | negSucc k =>
    refine ⟨k + 1,Or.inr ?_⟩
    change ("-" ++ (k + 1).repr).toList = _
    rw [String.toList_append, Nat.toList_repr]
    rfl

theorem isToken_toString (n : Int) : IsToken (toString n).toList := by
  have hd : ∀ k : Nat, IsToken (Nat.toDigits 10 k) := by
    intro k
    apply isToken_of_forall
    intro c hc
    have hs := Asm.isSymbolChar_of_mem_toDigits hc
    exact ⟨Asm.isBlank_of_isSymbolChar hs,(Asm.toNat_of_isSymbolChar hs).2.2⟩
  obtain ⟨k,he | he⟩ := toList_toString n
  · exact he ▸ hd k
  · exact he ▸ (hd k).cons (by decide) (by decide)

theorem isSymbol_toString (n : Int) : Asm.isSymbol (toString n).toList = false := by
  obtain ⟨k,he | he⟩ := toList_toString n
  · rw [he, ← Bool.not_eq_true]
    intro hs
    have hd := Asm.all_isDigit_of_isSymbol hs
    rw [toDigits_all_isDigit] at hd
    cases hd
  · rw [he]
    rfl

end HackToolchain.Text

namespace HackToolchain.Compile

open Asm (Line isSymbol)
open Text (IsToken IsUnbroken)
open Vm (Instruction Operator Segment staticName)

/-- A line of code that stays on its line. -/
def IsCode (line : Line) : Prop := line.isComment = false ∧ line.IsSound

theorem isCode_atSymbol {name : String} (h : IsUnbroken name.toList) : IsCode (atSymbol name) := ⟨rfl,h⟩

theorem isCode_atNumber (value : Int) : IsCode (atNumber value) := ⟨rfl,(Text.isToken_toString value).isUnbroken⟩

theorem isCode_compute (instruction : Asm.Compute) : IsCode (.compute instruction) := ⟨rfl,trivial⟩

theorem isCode_label {name : String} (h : IsToken name.toList) : IsCode (.label name) := ⟨rfl,h⟩

/-- A piece that can be written without harm to the lines around it. -/
def Piece.IsSound : Piece → Prop
  | .remark text _ => IsUnbroken text.toList
  | .code lines => ∀ line ∈ lines, IsCode line
  | .number | .refuse _ => True

/-- A made label: a fixed word of symbol characters and a number. -/
theorem isToken_numbered {word : String} (h : word.toList.all Asm.isSymbolChar = true) (number : Nat) :
    IsToken (word.toList ++ Nat.toDigits 10 number) := by
  apply Text.isToken_of_forall
  intro c hc
  have hs : Asm.isSymbolChar c = true := by
    rcases List.mem_append.mp hc with hc | hc
    · exact List.all_eq_true.mp h c hc
    · exact Asm.isSymbolChar_of_mem_toDigits hc
  exact ⟨Asm.isBlank_of_isSymbolChar hs,(Asm.toNat_of_isSymbolChar hs).2.2⟩

theorem toList_trueLabel (operator : Operator) (number : Nat) :
    (trueLabel operator number).toList = (operator.constant ++ "_TRUE_").toList ++ Nat.toDigits 10 number := by
  simp [trueLabel, toString]

theorem toList_endLabel (operator : Operator) (number : Nat) :
    (endLabel operator number).toList = (operator.constant ++ "_END_").toList ++ Nat.toDigits 10 number := by
  simp [endLabel, toString]

theorem toList_returnLabel (number : Nat) :
    (returnLabel number).toList = "RETURN_ADDRESS_".toList ++ Nat.toDigits 10 number := by
  simp [returnLabel, toString]

theorem toList_staticName (unit : String) (index : Nat) :
    (staticName unit index).toList = unit.toList ++ '.' :: Nat.toDigits 10 index := by
  simp [staticName, toString]

theorem isSymbol_staticName {unit : String} (h : isSymbol unit.toList = true) (index : Nat) :
    isSymbol (staticName unit index).toList = true := by
  rw [toList_staticName]
  apply Asm.isSymbol_append h
  intro c hc
  rcases List.mem_cons.mp hc with rfl | hc
  · decide
  · exact Asm.isSymbolChar_of_mem_toDigits hc

theorem isUnbroken_staticName {unit : String} (h : IsUnbroken unit.toList) (index : Nat) :
    IsUnbroken (staticName unit index).toList := by
  have hd : IsToken (Nat.toDigits 10 index) := by simpa using @isToken_numbered "" (by decide) index
  rw [toList_staticName, Text.isUnbroken_append, Text.isUnbroken_cons]
  exact ⟨h,by decide,hd.isUnbroken⟩

theorem isCode_registers : IsCode (atSymbol "SP") ∧ IsCode (atSymbol "LCL") ∧ IsCode (atSymbol "ARG") ∧
    IsCode (atSymbol "THIS") ∧ IsCode (atSymbol "THAT") ∧ IsCode (atSymbol "R13") ∧ IsCode (atSymbol "R14") :=
  ⟨isCode_atSymbol (by decide),isCode_atSymbol (by decide),isCode_atSymbol (by decide),isCode_atSymbol (by decide),
    isCode_atSymbol (by decide),isCode_atSymbol (by decide),isCode_atSymbol (by decide)⟩

theorem isCode_comparison (operator : Operator) (jump : Asm.Jump) (number : Nat) :
    ∀ line ∈ comparison operator jump number, IsCode line := by
  have ht : IsToken (trueLabel operator number).toList := by
    rw [toList_trueLabel]
    exact isToken_numbered (by cases operator <;> decide) number
  have he : IsToken (endLabel operator number).toList := by
    rw [toList_endLabel]
    exact isToken_numbered (by cases operator <;> decide) number
  simp [comparison, popOverNext, popD, atTop, isCode_registers, isCode_atSymbol, isCode_label, isCode_compute, ht, he,
    ht.isUnbroken, he.isUnbroken,
    setA, setAM, setD, setM, leap, leapAlways]

theorem operation_of_isComparison {operator : Operator} (h : operator.isComparison = true) (number : Nat) :
    ∃ jump, operation operator number = comparison operator jump number := by
  cases operator with
  | eq => exact ⟨.jeq,rfl⟩
  | gt => exact ⟨.jgt,rfl⟩
  | lt => exact ⟨.jlt,rfl⟩
  | add | sub | and | or | neg | not => cases h

theorem isCode_operation (operator : Operator) (number : Nat) :
    ∀ line ∈ operation operator number, IsCode line := by
  cases operator with
  | eq => exact isCode_comparison .eq .jeq number
  | gt => exact isCode_comparison .gt .jgt number
  | lt => exact isCode_comparison .lt .jlt number
  | _ => simp [operation, popOverNext, popD, atTop, isCode_registers, isCode_compute, setA, setAM, setD, setM]

theorem isCode_fixedPlace {unit : String} (hu : IsUnbroken unit.toList) {segment : Segment} {index : Nat} {line : Line}
    (h : fixedPlace (some unit) segment index = .ok line) : IsCode line := by
  unfold fixedPlace at h
  split at h
  · cases h
    exact isCode_atSymbol (isUnbroken_staticName hu index)
  · cases h
    unfold pointerEntry
    split
    · exact isCode_registers.2.2.2.1
    · exact isCode_registers.2.2.2.2.1
  · cases h
    exact isCode_atNumber _

theorem isCode_base {segment : Segment} {base : String} (h : segment.base? = some base) : IsCode (atSymbol base) := by
  cases segment <;> cases h <;> exact isCode_atSymbol (by decide)

theorem isSound_pushPieces {unit : String} (hu : IsUnbroken unit.toList) (segment : Segment) (index : Nat) :
    ∀ piece ∈ pushPieces (some unit) segment index, piece.IsSound := by
  unfold pushPieces
  split
  next => simp [Piece.IsSound, pushD, isCode_registers, isCode_atNumber, setA, setD, setM, isCode_compute]
  next hb =>
    simp [Piece.IsSound, pushD, isCode_registers, isCode_atNumber, isCode_base hb, setA, setD, setM, isCode_compute]
  next =>
    split
    next line hf =>
      simp [Piece.IsSound, pushD, isCode_registers, isCode_fixedPlace hu hf, setA, setD, setM, isCode_compute]
    next => simp [Piece.IsSound]

theorem isSound_popPieces {unit : String} (hu : IsUnbroken unit.toList) (segment : Segment) (index : Nat) :
    ∀ piece ∈ popPieces (some unit) segment index, piece.IsSound := by
  unfold popPieces
  split
  next hb =>
    simp [Piece.IsSound, popD, isCode_registers, isCode_atNumber, isCode_base hb, setA, setAM, setD, setM,
      isCode_compute]
  next =>
    split
    next line hf =>
      simp [Piece.IsSound, popD, isCode_registers, isCode_fixedPlace hu hf, setAM, setD, setM, isCode_compute]
    next => simp [Piece.IsSound, popD, isCode_registers, setAM, setD, isCode_compute]

theorem isUnbroken_remark {word name : String} (hw : IsUnbroken word.toList) (hn : IsUnbroken name.toList) :
    IsUnbroken (word ++ name).toList := by
  rw [String.toList_append, Text.isUnbroken_append]
  exact ⟨hw,hn⟩

theorem isToken_keyword (segment : Segment) : IsToken segment.keyword.toList := by
  cases segment <;> decide

theorem isSound_callPieces {name : String} (hn : IsUnbroken name.toList) (arguments : Int) (number : Nat) :
    ∀ piece ∈ callPieces name arguments number, piece.IsSound := by
  have hr : IsToken (returnLabel number).toList := by
    rw [toList_returnLabel]
    exact isToken_numbered (by decide) number
  have ht : IsUnbroken ("call " ++ name).toList := isUnbroken_remark (by decide) hn
  simp only [callPieces, List.forall_mem_cons]
  refine ⟨trivial,ht,?_,?_,by simp⟩
  · simp [Piece.IsSound, pushD, callerRegisters, isCode_registers, isCode_atSymbol hr.isUnbroken, setA, setD, setM,
      isCode_compute]
  · simp [Piece.IsSound, isCode_registers, isCode_atNumber, isCode_atSymbol hn, isCode_label hr, setD, setM, leap,
      leapAlways, isCode_compute]

theorem isSound_pieces {unit : String} (hu : IsUnbroken unit.toList) (number : Nat) {instruction : Instruction}
    (hi : instruction.IsSound) : ∀ piece ∈ pieces (some unit) number instruction, piece.IsSound := by
  cases instruction with
  | operate operator =>
    have hk : IsToken operator.keyword.toList := by cases operator <;> decide
    intro piece hp
    simp only [pieces, List.mem_append, List.mem_cons, List.cons_append] at hp
    rcases hp with rfl | hp | rfl | hp
    · exact hk.isUnbroken
    · split at hp
      · cases List.mem_singleton.mp hp
        trivial
      · cases hp
    · exact isCode_operation operator number
    · cases hp
  | push segment index =>
    refine List.forall_mem_cons.mpr ⟨?_,isSound_pushPieces hu segment index⟩
    exact isUnbroken_remark (by decide) (isToken_keyword segment).isUnbroken
  | pop segment index =>
    refine List.forall_mem_cons.mpr ⟨?_,isSound_popPieces hu segment index⟩
    exact isUnbroken_remark (by decide) (isToken_keyword segment).isUnbroken
  | label name =>
    have ht : IsUnbroken ("label " ++ name).toList := isUnbroken_remark (by decide) (IsToken.isUnbroken hi)
    exact List.forall_mem_cons.mpr ⟨ht,by simpa [Piece.IsSound] using isCode_label hi⟩
  | goto name =>
    have ht : IsUnbroken ("goto " ++ name).toList := isUnbroken_remark (by decide) (IsToken.isUnbroken hi)
    refine List.forall_mem_cons.mpr ⟨ht,?_⟩
    simp [Piece.IsSound, isCode_atSymbol (IsToken.isUnbroken hi), leapAlways, leap, isCode_compute]
  | ifGoto name =>
    have ht : IsUnbroken ("if-goto " ++ name).toList := isUnbroken_remark (by decide) (IsToken.isUnbroken hi)
    refine List.forall_mem_cons.mpr ⟨ht,?_⟩
    simp [Piece.IsSound, popD, isCode_registers, isCode_atSymbol (IsToken.isUnbroken hi), leap, setAM, setD,
      isCode_compute]
  | function name locals =>
    have ht : IsUnbroken ("function " ++ name).toList := isUnbroken_remark (by decide) (IsToken.isUnbroken hi.1)
    refine List.forall_mem_cons.mpr ⟨ht,?_⟩
    have hz : ∀ line ∈ pushZero, IsCode line := by
      simp [pushZero, isCode_registers, setA, setM, isCode_compute]
    simp only [List.forall_mem_cons, Piece.IsSound]
    refine ⟨⟨isCode_label hi.1,?_⟩,by simp⟩
    intro line hl
    obtain ⟨lines,hm,hl⟩ := List.mem_flatten.mp hl
    cases List.eq_of_mem_replicate hm
    exact hz line hl
  | call name arguments => exact isSound_callPieces (IsToken.isUnbroken hi.1) arguments number
  | ret =>
    have ht : IsToken "return".toList := by decide
    refine List.forall_mem_cons.mpr ⟨ht.isUnbroken,?_⟩
    simp [Piece.IsSound, returnCode, popD, callerRegisters, isCode_registers, isCode_atNumber, setA, setAM, setD,
      setM, leap, leapAlways, isCode_compute]

theorem isSound_bootstrapPieces {entry : String} (he : IsUnbroken entry.toList) (stackBase : Int) (number : Nat) :
    ∀ piece ∈ bootstrapPieces stackBase entry number, piece.IsSound := by
  have ht : IsToken "bootstrap".toList := by decide
  refine List.forall_mem_cons.mpr ⟨ht.isUnbroken,List.forall_mem_cons.mpr ⟨?_,isSound_callPieces he 0 number⟩⟩
  simp [Piece.IsSound, isCode_registers, isCode_atNumber, setD, setM, isCode_compute]

end HackToolchain.Compile
