import HackToolchain.Asm.Instruction

/-! # Lines of assembly code

Code is written as a list of lines, each a comment, a label, a load or a computing instruction, and printed only at
the end.
-/
namespace HackToolchain.Asm

/-- What a load puts into A: a number or the address of a symbol. -/
inductive Operand where
  | number (value : Int)
  | symbol (name : String)
  deriving DecidableEq, Repr

def Operand.text : Operand → String
  | .number value => toString value
  | .symbol name => name

inductive Line where
  | comment (text : String)
  | label (name : String)
  | load (operand : Operand)
  | compute (instruction : Compute)
  deriving DecidableEq, Repr

namespace Line

def text : Line → String
  | .comment text => "// " ++ text
  | .label name => "(" ++ name ++ ")"
  | .load operand => "@" ++ operand.text
  | .compute instruction => String.ofList instruction.chars

/-- No number on the line is too long to print. -/
def isPrintable : Line → Bool
  | .load (.number value) => Text.isPrintableInteger value
  | _ => true

end Line

/-- The text of a list of lines, each ended by a line feed. -/
def render (lines : List Line) : String := lines.foldl (fun text line => text ++ line.text ++ "\n") ""

end HackToolchain.Asm
