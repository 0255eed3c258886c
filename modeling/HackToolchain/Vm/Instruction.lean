import HackToolchain.Vm.Command

/-! # Instructions of the stack machine

What a command asks the stack machine to do, once its arguments have been found right.  Code is generated from
instructions alone.
-/
namespace HackToolchain.Vm

inductive Instruction where
  | operate (operator : Operator)
  | push (segment : Segment) (index : Nat)
  | pop (segment : Segment) (index : Nat)
  | label (name : String)
  | goto (name : String)
  | ifGoto (name : String)
  | function (name : String) (locals : Int)
  | call (name : String) (arguments : Int)
  | ret
  deriving DecidableEq, Repr

/-- The instruction of a push or pop whose arguments are given as text and number. -/
def Instruction.ofAccess (kind : Kind) (segment : String) (index : Int) (position : Option Position)
    (line : Option String) : Except Failure Instruction := do
  let segment ← access kind segment index position line
  return if kind = .push then .push segment index.toNat else .pop segment index.toNat

/-- The instruction that a command stands for.  A push or pop is asked for its segment before its index. -/
def Command.instruction (command : Command) : Except Failure Instruction :=
  match command.kind with
  | .arithmetic => return .operate (← command.operator)
  | .push => do
    let segment ← command.segment
    let index ← command.second
    checkEntry .push segment index command.position command.text
    return .push segment index.toNat
  | .pop => do
    let segment ← command.segment
    let index ← command.second
    checkEntry .pop segment index command.position command.text
    return .pop segment index.toNat
  | .label => return .label (← command.first)
  | .goto => return .goto (← command.first)
  | .ifGoto => return .ifGoto (← command.first)
  | .function => return .function (← command.first) (← command.second)
  | .call => return .call (← command.first) (← command.second)
  | .ret => return .ret

end HackToolchain.Vm
