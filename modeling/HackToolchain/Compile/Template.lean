import HackToolchain.Asm.Line
import HackToolchain.Vm.Instruction

/-! # Code templates

Every instruction of the stack machine has a fixed piece of assembly code.  The stack pointer is SP, the segments of
the running function lie behind LCL, ARG, THIS and THAT, R13 and R14 are scratch, and static entry `i` of a unit is
the variable `unit.i`.  Comparisons and calls need labels of their own, which are made unique by a number.

A template is a list of pieces, because writing may stop between two of them.
-/
namespace HackToolchain.Compile

open Asm (Line Operand Compute Comp Dest Jump Register)
open Vm (Instruction Operator Segment)

/-- A step of writing a template. -/
inductive Piece where
  /-- A comment that names the instruction, with its last argument if that is a number. -/
  | remark (text : String) (number : Option Int)
  /-- Takes the next label number. -/
  | number
  | code (lines : List Line)
  /-- Nothing can be written from here on. -/
  | refuse (failure : Failure)
  deriving DecidableEq, Repr

def atSymbol (name : String) : Line := .load (.symbol name)

def atNumber (value : Int) : Line := .load (.number value)

def setA (comp : Comp) : Line := .compute ⟨⟨true, false, false⟩, comp, none⟩

def setD (comp : Comp) : Line := .compute ⟨⟨false, true, false⟩, comp, none⟩

def setM (comp : Comp) : Line := .compute ⟨⟨false, false, true⟩, comp, none⟩

def setAM (comp : Comp) : Line := .compute ⟨⟨true, false, true⟩, comp, none⟩

def leap (comp : Comp) (jump : Jump) : Line := .compute ⟨.none, comp, some jump⟩

def leapAlways : Line := leap .zero .jmp

/-- Pushes D. -/
def pushD : List Line := [atSymbol "SP", setA (.copy .m), setM (.copy .d), atSymbol "SP", setM (.succ .m)]

/-- Pops into D. -/
def popD : List Line := [atSymbol "SP", setAM (.pred .m), setD (.copy .m)]

/-- Pops into D and leaves A at the word below. -/
def popOverNext : List Line := popD ++ [setA (.pred .a)]

/-- Sets A to the top of the stack. -/
def atTop : List Line := [atSymbol "SP", setA (.pred .m)]

def trueLabel (operator : Operator) (number : Nat) : String := s!"{operator.constant}_TRUE_{number}"

def endLabel (operator : Operator) (number : Nat) : String := s!"{operator.constant}_END_{number}"

def returnLabel (number : Nat) : String := s!"RETURN_ADDRESS_{number}"

/-- A comparison takes the sign of the difference of its operands. -/
def comparison (operator : Operator) (jump : Jump) (number : Nat) : List Line :=
  popOverNext ++
    [setD (.sub .m .d), atSymbol (trueLabel operator number), leap (.copy .d) jump] ++
    atTop ++ [setM .zero, atSymbol (endLabel operator number), leapAlways, .label (trueLabel operator number)] ++
    atTop ++ [setM .negOne, .label (endLabel operator number)]

def operation (operator : Operator) (number : Nat) : List Line :=
  match operator with
  | .add => popOverNext ++ [setM (.add .m .d)]
  | .sub => popOverNext ++ [setM (.sub .m .d)]
  | .and => popOverNext ++ [setM (.and .d .m)]
  | .or => popOverNext ++ [setM (.or .d .m)]
  | .neg => atTop ++ [setM (.neg .m)]
  | .not => atTop ++ [setM (.not .m)]
  | .eq => comparison .eq .jeq number
  | .gt => comparison .gt .jgt number
  | .lt => comparison .lt .jlt number

/-- The pointer entries are the registers THIS and THAT. -/
def pointerEntry (index : Nat) : String := if index = 0 then "THIS" else "THAT"

/-- Where a segment entry lies whose address is known beforehand. -/
def fixedPlace (unit : Option String) (segment : Segment) (index : Nat) : Except Failure Line :=
  match segment with
  | .static =>
    match unit with
    | some unit => .ok (atSymbol s!"{unit}.{index}")
    | none => .error (.setup .staticOutsideUnit)
  | .pointer => .ok (atSymbol (pointerEntry index))
  | _ => .ok (atNumber (Segment.tempStart + index))

def pushPieces (unit : Option String) (segment : Segment) (index : Nat) : List Piece :=
  match segment, segment.base? with
  | .constant, _ => [.code ([atNumber index, setD (.copy .a)] ++ pushD)]
  | _, some base =>
    [.code ([atNumber index, setD (.copy .a), atSymbol base, setA (.add .m .d), setD (.copy .m)] ++ pushD)]
  | _, none =>
    match fixedPlace unit segment index with
    | .ok line => [.code ([line, setD (.copy .m)] ++ pushD)]
    | .error failure => [.refuse failure]

def popPieces (unit : Option String) (segment : Segment) (index : Nat) : List Piece :=
  match segment.base? with
  | some base =>
    [.code ([atNumber index, setD (.copy .a), atSymbol base, setD (.add .m .d), atSymbol "R13", setM (.copy .d)] ++
      popD ++ [atSymbol "R13", setA (.copy .m), setM (.copy .d)])]
  | none =>
    .code popD ::
      match fixedPlace unit segment index with
      | .ok line => [.code [line, setM (.copy .d)]]
      | .error failure => [.refuse failure]

/-- The words that a call saves below the frame, besides the return address. -/
def callerRegisters : List String := ["LCL", "ARG", "THIS", "THAT"]

/-- The number of words that a call saves. -/
def frameWords : Nat := 5

/-- A call saves the return address and four registers, moves ARG to the arguments and LCL to the top of the stack,
and jumps. -/
def callPieces (name : String) (arguments : Int) (number : Nat) : List Piece :=
  [.number,
   .remark s!"call {name}" (some arguments),
   .code ([atSymbol (returnLabel number), setD (.copy .a)] ++ pushD ++
     callerRegisters.flatMap fun register => [atSymbol register, setD (.copy .m)] ++ pushD),
   .code [atSymbol "SP", setD (.copy .m), atNumber (arguments + frameWords), setD (.sub .d .a),
     atSymbol "ARG", setM (.copy .d), atSymbol "SP", setD (.copy .m), atSymbol "LCL", setM (.copy .d),
     atSymbol name, leapAlways, .label (returnLabel number)]]

/-- A return keeps the frame in R13 and the return address in R14, since the returned word may overwrite the latter
on the stack. -/
def returnCode : List Line :=
  [atSymbol "LCL", setD (.copy .m), atSymbol "R13", setM (.copy .d), atNumber frameWords, setA (.sub .d .a),
    setD (.copy .m), atSymbol "R14", setM (.copy .d)] ++
  popD ++
  [atSymbol "ARG", setA (.copy .m), setM (.copy .d), atSymbol "ARG", setD (.succ .m), atSymbol "SP",
    setM (.copy .d)] ++
  (callerRegisters.reverse.flatMap fun register =>
    [atSymbol "R13", setAM (.pred .m), setD (.copy .m), atSymbol register, setM (.copy .d)]) ++
  [atSymbol "R14", setA (.copy .m), leapAlways]

def pushZero : List Line := [atSymbol "SP", setA (.copy .m), setM .zero, atSymbol "SP", setM (.succ .m)]

/-- The template of an instruction in a unit, with the label number that it may take. -/
def pieces (unit : Option String) (number : Nat) : Instruction → List Piece
  | .operate operator =>
    .remark operator.keyword none ::
      (if operator.isComparison then [.number] else []) ++ [.code (operation operator number)]
  | .push segment index => .remark s!"push {segment.keyword}" (some index) :: pushPieces unit segment index
  | .pop segment index => .remark s!"pop {segment.keyword}" (some index) :: popPieces unit segment index
  | .label name => [.remark s!"label {name}" none, .code [.label name]]
  | .goto name => [.remark s!"goto {name}" none, .code [atSymbol name, leapAlways]]
  | .ifGoto name => [.remark s!"if-goto {name}" none, .code (popD ++ [atSymbol name, leap (.copy .d) .jne])]
  | .function name locals =>
    [.remark s!"function {name}" (some locals),
     .code (.label name :: (List.replicate locals.toNat pushZero).flatten)]
  | .call name arguments => callPieces name arguments number
  | .ret => [.remark "return" none, .code returnCode]

/-- The code that sets the stack pointer and calls the entry function. -/
def bootstrapPieces (stackBase : Int) (entry : String) (number : Nat) : List Piece :=
  .remark "bootstrap" none ::
    .code [atNumber stackBase, setD (.copy .a), atSymbol "SP", setM (.copy .d)] :: callPieces entry 0 number

/-- What is noted once an instruction has been written. -/
def note (number : Nat) : Instruction → Option String
  | .operate operator => some s!"Wrote arithmetic command: {operator.keyword}"
  | .push segment index => some s!"Wrote push command: {segment.keyword} {index}"
  | .pop segment index => some s!"Wrote pop command: {segment.keyword} {index}"
  | .label _ | .goto _ | .ifGoto _ => none
  | .function name locals => some s!"Wrote function {name} with {locals} locals"
  | .call name arguments => some s!"Wrote call {name} {arguments} ({returnLabel number})"
  | .ret => some "Wrote return"

end HackToolchain.Compile
