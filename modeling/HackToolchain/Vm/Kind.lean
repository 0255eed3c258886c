/-! # Kinds of VM commands

A VM program is a list of commands of nine kinds.  Every kind but the arithmetical one has a keyword of its own;
the kind fixes how many arguments stand after the keyword and how the command is written.
-/
namespace HackToolchain.Vm

inductive Kind where
  | arithmetic | push | pop | label | goto | ifGoto | function | ret | call
  deriving DecidableEq, Repr

namespace Kind

def hasFirst (kind : Kind) : Bool := kind != .ret

def hasSecond : Kind → Bool
  | .push | .pop | .function | .call => true
  | _ => false

/-- The number of arguments after the keyword. -/
def arity : Kind → Nat
  | .arithmetic | .ret => 0
  | .label | .goto | .ifGoto => 1
  | .push | .pop | .function | .call => 2

/-- The keywords in the order in which they are listed to the reader. -/
def keywords : List (String × Kind) :=
  [("push", .push), ("pop", .pop), ("label", .label), ("goto", .goto), ("if-goto", .ifGoto),
   ("function", .function), ("call", .call), ("return", .ret)]

def keyword? : Kind → Option String
  | .arithmetic => none
  | .push => some "push"
  | .pop => some "pop"
  | .label => some "label"
  | .goto => some "goto"
  | .ifGoto => some "if-goto"
  | .function => some "function"
  | .ret => some "return"
  | .call => some "call"

def ofKeyword? (word : String) : Option Kind := keywords.lookup word

/-- How a command with arguments is written. -/
def usage? : Kind → Option String
  | .label => some "label NAME"
  | .goto => some "goto NAME"
  | .ifGoto => some "if-goto NAME"
  | .push => some "push SEGMENT INDEX"
  | .pop => some "pop SEGMENT INDEX"
  | .function => some "function NAME NLOCALS"
  | .call => some "call NAME NARGS"
  | .arithmetic | .ret => none

/-- The constant by which a kind is known in messages. -/
def constant : Kind → String
  | .arithmetic => "ARITHMETIC"
  | .push => "PUSH"
  | .pop => "POP"
  | .label => "LABEL"
  | .goto => "GOTO"
  | .ifGoto => "IF"
  | .function => "FUNCTION"
  | .ret => "RETURN"
  | .call => "CALL"

end Kind

end HackToolchain.Vm
