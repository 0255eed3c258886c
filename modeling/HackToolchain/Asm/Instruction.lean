import HackToolchain.Failure

/-! # Computing instructions

An instruction `dest=comp;jump` names the registers that receive a value, the value, and the condition on which the
machine jumps.  Every computation has a spelling and seven code bits; the commutative ones may be spelled either way
round.
-/
namespace HackToolchain.Asm

inductive Register where
  | a | d | m
  deriving DecidableEq, Repr

def Register.char : Register → Char
  | .a => 'A'
  | .d => 'D'
  | .m => 'M'

inductive Comp where
  | zero | one | negOne
  | copy (r : Register) | not (r : Register) | neg (r : Register)
  | succ (r : Register) | onePlus (r : Register) | pred (r : Register)
  | add (x y : Register) | sub (x y : Register) | and (x y : Register) | or (x y : Register)
  deriving DecidableEq, Repr

namespace Comp

def chars : Comp → List Char
  | .zero => ['0']
  | .one => ['1']
  | .negOne => ['-', '1']
  | .copy r => [r.char]
  | .not r => ['!', r.char]
  | .neg r => ['-', r.char]
  | .succ r => [r.char, '+', '1']
  | .onePlus r => ['1', '+', r.char]
  | .pred r => [r.char, '-', '1']
  | .add x y => [x.char, '+', y.char]
  | .sub x y => [x.char, '-', y.char]
  | .and x y => [x.char, '&', y.char]
  | .or x y => [x.char, '|', y.char]

/-- The computations of the machine with their code bits: the choice of A or memory, then the six control bits of
the arithmetic-logic unit. -/
def table : List (Comp × Nat) :=
  [(.zero, 0b0101010), (.one, 0b0111111), (.negOne, 0b0111010),
   (.copy .d, 0b0001100), (.copy .a, 0b0110000), (.not .d, 0b0001101), (.not .a, 0b0110001),
   (.neg .d, 0b0001111), (.neg .a, 0b0110011), (.succ .d, 0b0011111), (.succ .a, 0b0110111),
   (.pred .d, 0b0001110), (.pred .a, 0b0110010), (.add .d .a, 0b0000010), (.sub .d .a, 0b0010011),
   (.sub .a .d, 0b0000111), (.and .d .a, 0b0000000), (.or .d .a, 0b0010101),
   (.copy .m, 0b1110000), (.not .m, 0b1110001), (.neg .m, 0b1110011), (.succ .m, 0b1110111),
   (.pred .m, 0b1110010), (.add .d .m, 0b1000010), (.sub .d .m, 0b1010011), (.sub .m .d, 0b1000111),
   (.and .d .m, 0b1000000), (.or .d .m, 0b1010101),
   (.add .a .d, 0b0000010), (.add .m .d, 0b1000010), (.and .a .d, 0b0000000), (.and .m .d, 0b1000000),
   (.or .a .d, 0b0010101), (.or .m .d, 0b1010101), (.onePlus .d, 0b0011111), (.onePlus .a, 0b0110111),
   (.onePlus .m, 0b1110111)]

def ofChars? (text : List Char) : Option Comp := (table.find? (·.1.chars == text)).map (·.1)

/-- The code bits; a computation outside the table has none and stands as 0. -/
def code (comp : Comp) : Nat := (table.lookup comp).getD 0

end Comp

/-- The registers that receive a value. -/
structure Dest where
  a : Bool
  d : Bool
  m : Bool
  deriving DecidableEq, Repr

namespace Dest

def none : Dest := ⟨false, false, false⟩

def chars (dest : Dest) : List Char :=
  (if dest.a then ['A'] else []) ++ (if dest.d then ['D'] else []) ++ (if dest.m then ['M'] else [])

def code (dest : Dest) : Nat :=
  (if dest.a then 4 else 0) + (if dest.d then 2 else 0) + (if dest.m then 1 else 0)

/-- Adds a register that has not been named before. -/
def add? (dest : Dest) (c : Char) : Option Dest :=
  if c = 'A' ∧ !dest.a then some { dest with a := true }
  else if c = 'D' ∧ !dest.d then some { dest with d := true }
  else if c = 'M' ∧ !dest.m then some { dest with m := true }
  else Option.none

/-- Registers in any order, each at most once. -/
def ofChars? (text : List Char) : Option Dest := text.foldlM add? none

end Dest

inductive Jump where
  | jgt | jeq | jge | jlt | jne | jle | jmp
  deriving DecidableEq, Repr

namespace Jump

def all : List Jump := [.jgt, .jeq, .jge, .jlt, .jne, .jle, .jmp]

def chars : Jump → List Char
  | .jgt => ['J', 'G', 'T']
  | .jeq => ['J', 'E', 'Q']
  | .jge => ['J', 'G', 'E']
  | .jlt => ['J', 'L', 'T']
  | .jne => ['J', 'N', 'E']
  | .jle => ['J', 'L', 'E']
  | .jmp => ['J', 'M', 'P']

def code : Jump → Nat
  | .jgt => 1
  | .jeq => 2
  | .jge => 3
  | .jlt => 4
  | .jne => 5
  | .jle => 6
  | .jmp => 7

def ofChars? (text : List Char) : Option Jump := all.find? (·.chars == text)

end Jump

/-- An instruction of the computing kind. -/
structure Compute where
  dest : Dest
  comp : Comp
  jump : Option Jump
  deriving DecidableEq, Repr

/-- The parts of a text before and after the first `mark`. -/
def splitAtFirst (mark : Char) : List Char → Option (List Char × List Char)
  | [] => none
  | c :: rest => if c = mark then some ([], rest) else (splitAtFirst mark rest).map fun (l, r) => (c :: l, r)

namespace Compute

def chars (compute : Compute) : List Char :=
  (if compute.dest = .none then [] else compute.dest.chars ++ ['=']) ++ compute.comp.chars ++
    match compute.jump with
    | some jump => ';' :: jump.chars
    | none => []

def code (compute : Compute) : Nat :=
  0xE000 + compute.comp.code * 64 + compute.dest.code * 8 +
    match compute.jump with
    | some jump => jump.code
    | none => 0

/-- A destination that is written must name a register. -/
def destination? : Option (List Char) → Option Dest
  | none => some .none
  | some text => if text.isEmpty then none else Dest.ofChars? text

/-- A jump that is written must be one of the seven. -/
def jump? : Option (List Char) → Option (Option Jump)
  | none => some none
  | some text => (Jump.ofChars? text).map some

/-- The three parts of an instruction: what stands before the first `=`, and of the rest what stands before and after
the first `;`. -/
def parts (text : List Char) : Option (List Char) × List Char × Option (List Char) :=
  let (dest, rest) := match splitAtFirst '=' text with
    | some (dest, rest) => (some dest, rest)
    | none => (none, text)
  match splitAtFirst ';' rest with
  | some (comp, jump) => (dest, comp, some jump)
  | none => (dest, rest, none)

/-- Reads an instruction; of several faults the one in the computation is told first, then the one in the
destination. -/
def parse (text : List Char) : Except AsmFault Compute :=
  let (dest, comp, jump) := parts text
  match Comp.ofChars? comp, destination? dest, jump? jump with
  | none, _, _ => .error (.unknownComputation (String.ofList comp))
  | some _, none, _ => .error (.invalidDestination (String.ofList (dest.getD [])))
  | some _, some _, none => .error (.unknownJump (String.ofList (jump.getD [])))
  | some comp, some dest, some jump => .ok ⟨dest, comp, jump⟩

end Compute

end HackToolchain.Asm
