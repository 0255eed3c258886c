/-! # Arithmetic and logical operators

Nine operators work on the top of the stack: two take one operand, four take two, and three compare.
-/
namespace HackToolchain.Vm

inductive Operator where
  | add | sub | neg | eq | gt | lt | and | or | not
  deriving DecidableEq, Repr

namespace Operator

def all : List Operator := [.add, .sub, .neg, .eq, .gt, .lt, .and, .or, .not]

def keyword : Operator → String
  | .add => "add"
  | .sub => "sub"
  | .neg => "neg"
  | .eq => "eq"
  | .gt => "gt"
  | .lt => "lt"
  | .and => "and"
  | .or => "or"
  | .not => "not"

/-- The keyword in capitals, from which labels are made. -/
def constant : Operator → String
  | .add => "ADD"
  | .sub => "SUB"
  | .neg => "NEG"
  | .eq => "EQ"
  | .gt => "GT"
  | .lt => "LT"
  | .and => "AND"
  | .or => "OR"
  | .not => "NOT"

def ofKeyword? (word : String) : Option Operator := all.find? (·.keyword == word)

def isUnary : Operator → Bool
  | .neg | .not => true
  | _ => false

def isComparison : Operator → Bool
  | .eq | .gt | .lt => true
  | _ => false

end Operator

end HackToolchain.Vm
