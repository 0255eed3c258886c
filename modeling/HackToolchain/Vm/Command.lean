import HackToolchain.Failure

/-! # Commands

A command as it stands on a line: its kind, the arguments it was given, and where it was found.  Arguments are asked
for through `first` and `second`, which refuse what the kind does not carry.  `access` is the check that every push
and pop has to pass: a known segment, no pop to a constant, and an index inside the segment.
-/
namespace HackToolchain.Vm

structure Command where
  kind : Kind
  name : Option String := none
  index : Option Int := none
  position : Option Position := none
  /-- The line without comment and surrounding blanks. -/
  text : Option String := none
  deriving DecidableEq, Repr

def Segment.parse (word : String) (position : Option Position) (line : Option String) : Except Failure Segment :=
  match Segment.ofKeyword? word with
  | some segment => .ok segment
  | none => .error (.vm ⟨.unknownSegment word, position, line⟩)

def Operator.parse (word : String) (position : Option Position) (line : Option String) : Except Failure Operator :=
  match Operator.ofKeyword? word with
  | some operator => .ok operator
  | none => .error (.vm ⟨.unknownOperator word, position, line⟩)

/-- A push or pop may use a segment at an index. -/
def checkEntry (kind : Kind) (segment : Segment) (index : Int) (position : Option Position) (line : Option String) :
    Except Failure Unit :=
  if kind = .pop ∧ segment = .constant then .error (.vm ⟨.popsConstant, position, line⟩)
  else if segment.admits index then .ok ()
  else if Text.isPrintableInteger index then .error (.vm ⟨.badIndex segment index, position, line⟩)
  else .error (.numeral .tooLongToPrint)

/-- The segment of a push or pop, once kind, segment and index have been found right. -/
def access (kind : Kind) (segment : String) (index : Int) (position : Option Position) (line : Option String) :
    Except Failure Segment := do
  unless kind = .push ∨ kind = .pop do throw (.notMemoryAccess kind)
  let segment ← Segment.parse segment position line
  checkEntry kind segment index position line
  return segment

namespace Command

def keyword (command : Command) : String :=
  match command.kind.keyword? with
  | some keyword => keyword
  | none =>
    match command.name with
    | some name => if name.isEmpty then "arithmetic" else name
    | none => "arithmetic"

def fail (command : Command) (cause : VmCause) : Failure := .vm ⟨cause, command.position, command.text⟩

def first (command : Command) : Except Failure String :=
  match command.kind.hasFirst, command.name with
  | true, some name => .ok name
  | _, _ => .error (command.fail (.missingArgument (.noFirst command.keyword)))

def second (command : Command) : Except Failure Int :=
  match command.kind.hasSecond, command.index with
  | true, some index => .ok index
  | _, _ => .error (command.fail (.missingArgument (.noSecond command.keyword)))

def segment (command : Command) : Except Failure Segment := do
  Segment.parse (← command.first) command.position command.text

def operator (command : Command) : Except Failure Operator := do
  Operator.parse (← command.first) command.position command.text

/-- The command as source text; an argument that is missing prints as `None`. -/
def render (command : Command) : String :=
  let name := command.name.getD "None"
  if command.kind = .arithmetic ∨ command.kind = .ret then command.keyword
  else if command.kind.hasSecond then
    let index := match command.index with
      | some index => toString index
      | none => "None"
    s!"{command.keyword} {name} {index}"
  else s!"{command.keyword} {name}"

/-- The source text of a command whose index can be printed. -/
def printed (command : Command) : Except Failure String :=
  if command.kind.hasSecond && !command.index.all Text.isPrintableInteger then .error (.numeral .tooLongToPrint)
  else .ok command.render

def arithmetic (operator : Operator) : Command := { kind := .arithmetic, name := some operator.keyword }

def push (segment : Segment) (index : Int) : Command :=
  { kind := .push, name := some segment.keyword, index := some index }

def pop (segment : Segment) (index : Int) : Command :=
  { kind := .pop, name := some segment.keyword, index := some index }

/-- The check of a push or pop; other commands pass. -/
def checkAccess (command : Command) : Except Failure Unit := do
  if command.kind = .push ∨ command.kind = .pop then
    let segment ← command.first
    let index ← command.second
    let _ ← access command.kind segment index command.position command.text

end Command

/-- Every push and pop of a program is in order; the first that is not is refused. -/
def checkAccesses (commands : List Command) : Except Failure Unit := commands.forM Command.checkAccess

end HackToolchain.Vm
