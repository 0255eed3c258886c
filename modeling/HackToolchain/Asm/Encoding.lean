import HackToolchain.Asm.Instruction
import HackToolchain.Asm.Source
import HackToolchain.Asm.Symbol

/-! # The two passes

A first pass gives every label the number of instructions before it; a second pass encodes the instructions and gives
every symbol that is no label the next free address from 16 on.  A pass that stops keeps the symbols found so far.
-/
namespace HackToolchain.Asm

/-- The name between the parentheses of a label line. -/
def SourceLine.labelName (line : SourceLine) : Except AsmFault String :=
  if line.text.length < 3 || line.text.getLast? != some ')' then .error .malformedLabel
  else
    let name := (line.text.drop 1).dropLast
    if isSymbol name then .ok (String.ofList name) else .error (.invalidLabel (String.ofList name))

/-- The symbols, and how many instructions have been passed. -/
structure Labels where
  symbols : SymbolTable
  address : Nat

/-- A pass that stopped: the symbols it had found, and why. -/
abbrev Stopped := SymbolTable × Failure

def Labels.add (labels : Labels) (line : SourceLine) : Except Stopped Labels :=
  if line.isLabel then
    match line.labelName with
    | .error fault => .error (labels.symbols, line.fail fault)
    | .ok name =>
      match labels.symbols.get? name with
      | some address => .error (labels.symbols, line.fail (.duplicateLabel name address))
      | none => .ok { labels with symbols := labels.symbols.insert name labels.address }
  else .ok { labels with address := labels.address + 1 }

/-- The first pass. -/
def placeLabels (lines : List SourceLine) : Except Stopped SymbolTable :=
  (lines.foldlM Labels.add ⟨.predefined, 0⟩).map Labels.symbols

/-- The symbols, the address of the next variable, and the words encoded so far with the latest first. -/
structure Encoding where
  symbols : SymbolTable
  nextVariable : Nat
  words : List Nat

namespace Encoding

def push (encoding : Encoding) (word : Nat) : Encoding := { encoding with words := word :: encoding.words }

/-- Encodes a load of a number. -/
def loadNumber (encoding : Encoding) (line : SourceLine) (digits : List Char) : Except Stopped Encoding :=
  match Text.decimal digits with
  | .error fault => .error (encoding.symbols, .numeral fault)
  | .ok value =>
    if largestLoad < value then .error (encoding.symbols, line.fail (.constantOutOfRange value))
    else .ok (encoding.push value)

/-- Encodes a load of a symbol, which becomes a variable if it is new. -/
def loadSymbol (encoding : Encoding) (name : String) : Encoding :=
  match encoding.symbols.get? name with
  | some address => encoding.push address
  | none =>
    { symbols := encoding.symbols.insert name encoding.nextVariable
      nextVariable := encoding.nextVariable + 1
      words := encoding.nextVariable :: encoding.words }

def load (encoding : Encoding) (line : SourceLine) (operand : List Char) : Except Stopped Encoding :=
  if !operand.isEmpty && operand.all Text.isDigit then encoding.loadNumber line operand
  else if isSymbol operand then .ok (encoding.loadSymbol (String.ofList operand))
  else .error (encoding.symbols, line.fail (.invalidSymbol (String.ofList operand)))

def compute (encoding : Encoding) (line : SourceLine) : Except Stopped Encoding :=
  match Compute.parse line.text with
  | .ok instruction => .ok (encoding.push instruction.code)
  | .error fault => .error (encoding.symbols, line.fail fault)

def add (encoding : Encoding) (line : SourceLine) : Except Stopped Encoding :=
  if line.isLoad then encoding.load line (line.text.drop 1) else encoding.compute line

end Encoding

/-- The second pass. -/
def encodeLines (symbols : SymbolTable) (lines : List SourceLine) : Except Stopped (SymbolTable × List Nat) :=
  ((lines.filter (!·.isLabel)).foldlM Encoding.add ⟨symbols, firstVariable, []⟩).map
    fun encoding => (encoding.symbols, encoding.words.reverse)

/-- Both passes: the symbol table and the words of the program. -/
def assembleLines (lines : List SourceLine) : Except Stopped (SymbolTable × List Nat) := do
  encodeLines (← placeLabels lines) lines

end HackToolchain.Asm
