import HackToolchain.Compile.Template

/-! # Writing code

A writer collects lines of code.  It knows the unit it is in, whether comments are wanted, and the number of the next
label; the number is never reset, so no label is made twice.  A write that fails keeps the pieces written before the
failure.
-/
namespace HackToolchain.Compile

open Asm (Line)
open Vm (Command Instruction Operator)

structure Writer where
  comments : Bool := true
  stackBase : Int := 256
  unit : Option String := none
  nextLabel : Nat := 1
  /-- The blocks of lines written so far, the latest first. -/
  blocks : List (List Line) := []
  isOpen : Bool := true

namespace Writer

def lines (writer : Writer) : List Line := writer.blocks.reverse.flatten

/-- Starts a new unit, after which static variables are named. -/
def enterUnit (writer : Writer) (name : String) : Writer := { writer with unit := some name }

def close (writer : Writer) : Writer := { writer with isOpen := false }

def emit (writer : Writer) (lines : List Line) : Except Failure Writer :=
  if writer.isOpen then .ok { writer with blocks := lines :: writer.blocks } else .error .outputClosed

@[simp] theorem lines_enterUnit (writer : Writer) (name : String) : (writer.enterUnit name).lines = writer.lines := rfl

theorem lines_emit {writer written : Writer} {lines : List Line} (h : writer.emit lines = .ok written) :
    written.lines = writer.lines ++ lines := by
  unfold emit at h
  split at h
  · cases h
    simp [Writer.lines]
  · cases h

/-- The text of a remark, unless its number is too long to print. -/
def remarkText (text : String) : Option Int → Except Failure String
  | none => .ok text
  | some number =>
    if Text.isPrintableInteger number then .ok s!"{text} {number}" else .error (.numeral .tooLongToPrint)

def perform (writer : Writer) : Piece → Except Failure Writer
  | .remark text number => do
    let text ← remarkText text number
    if writer.comments then writer.emit [.comment text] else return writer
  | .number => .ok { writer with nextLabel := writer.nextLabel + 1 }
  | .code lines =>
    if lines.all Line.isPrintable then writer.emit lines else .error (.numeral .tooLongToPrint)
  | .refuse failure => .error failure

/-- Performs pieces up to the first that fails. -/
def performAll (writer : Writer) : List Piece → Writer × Except Failure Unit
  | [] => (writer, .ok ())
  | piece :: rest =>
    match writer.perform piece with
    | .ok writer => writer.performAll rest
    | .error failure => (writer, .error failure)

def write (writer : Writer) (instruction : Instruction) : Writer × Except Failure Unit :=
  writer.performAll (pieces writer.unit writer.nextLabel instruction)

/-- Writes an instruction that may have been refused before. -/
def writeIfOk (writer : Writer) : Except Failure Instruction → Writer × Except Failure Unit
  | .ok instruction => writer.write instruction
  | .error failure => (writer, .error failure)

def writeCommand (writer : Writer) (command : Command) : Writer × Except Failure Unit :=
  writer.writeIfOk command.instruction

def writeOperator (writer : Writer) (word : String) : Writer × Except Failure Unit :=
  writer.writeIfOk ((Operator.parse word none none).map .operate)

def writeBootstrap (writer : Writer) (entry : String) : Writer × Except Failure Unit :=
  writer.performAll (bootstrapPieces writer.stackBase entry writer.nextLabel)

def text (writer : Writer) : String := Asm.render writer.lines

end Writer

/-- Writes commands up to the first that fails. -/
def Writer.writeCommands (writer : Writer) : List Command → Writer × Except Failure Unit
  | [] => (writer, .ok ())
  | command :: rest =>
    match writer.writeCommand command with
    | (writer, .ok ()) => writer.writeCommands rest
    | (writer, .error failure) => (writer, .error failure)

/-- The code of commands as they stand, with no check of the program as a whole. -/
def compileCommands (commands : List Command) (unit : String) (comments : Bool) : Except Failure String :=
  let (writer, outcome) := ({ comments : Writer }.enterUnit unit).writeCommands commands
  outcome.map fun _ => writer.text

end HackToolchain.Compile
