import HackToolchain.Diagnostic
import HackToolchain.Machine.Processor
import HackToolchain.Text.Lowercase
import HackToolchain.Text.Numeral
import HackToolchain.Text.Utf8
import HackToolchain.Vm.Kind
import HackToolchain.Vm.Operator
import HackToolchain.Vm.Segment

/-! # What can go wrong

Every failure of the tools is a value that names its cause; the wording is kept in one `message` function per cause.
Failures that lie in a source text carry the place and print as diagnostics.  The constructors named `told` hold a
failure that someone has already put into words.
-/
namespace HackToolchain

open Text (NumeralFault DecodeFault ExtentFault)
open Vm (Kind Operator Segment)

/-- What is wrong with a line of VM code, or with asking for one. -/
inductive SyntaxFault where
  | unknownCommand (word : String)
  | wrongArity (kind : Kind) (word : String) (found : Nat)
  | badNumeral (kind : Kind) (word : String)
  | noMoreCommands
  | told (message : String) (hint : Option String)
  deriving DecidableEq, Repr

namespace SyntaxFault

def message : SyntaxFault → String
  | .unknownCommand word => s!"unknown command '{word}'"
  | .wrongArity kind word found => s!"'{word}' expects {kind.arity} argument(s), got {found}"
  | .badNumeral _ word => s!"expected a non-negative integer, got '{word}'"
  | .noMoreCommands => "no more commands"
  | .told message _ => message

def hint : SyntaxFault → Option String
  | .unknownCommand _ =>
    some ("expected an arithmetic operator or one of: " ++ ", ".intercalate (Kind.keywords.map (·.1)))
  | .wrongArity kind word _ =>
    some (match kind.usage? with
      | some usage => s!"usage: {usage}"
      | none => s!"'{word}' takes no arguments")
  | .badNumeral kind _ => kind.usage?.map ("usage: " ++ ·)
  | .noMoreCommands => none
  | .told _ hint => hint

end SyntaxFault

/-- Which argument was asked for in vain. -/
inductive ArgumentFault where
  | noFirst (keyword : String)
  | noSecond (keyword : String)
  | noCurrentCommand
  | told (message : String) (hint : Option String)
  deriving DecidableEq, Repr

namespace ArgumentFault

def message : ArgumentFault → String
  | .noFirst keyword => s!"'{keyword}' command has no first argument"
  | .noSecond keyword => s!"'{keyword}' command has no second argument"
  | .noCurrentCommand => "no current command; call advance() first"
  | .told message _ => message

def hint : ArgumentFault → Option String
  | .told _ hint => hint
  | _ => none

end ArgumentFault

inductive VmCause where
  | malformed (fault : SyntaxFault)
  | missingArgument (fault : ArgumentFault)
  | unusableSegment (reason name : String) (hint : Option String)
  | indexOutOfRange (segment : String) (index low : Int) (high : Option Int)
  | unknownOperator (word : String)
  | told (message : String) (hint : Option String)
  deriving DecidableEq, Repr

namespace VmCause

def unknownSegment (name : String) : VmCause :=
  .unusableSegment "unknown segment" name
    (some ("valid segments are " ++ ", ".intercalate (Segment.all.map Segment.keyword)))

def popsConstant : VmCause :=
  .unusableSegment "cannot pop to segment" Segment.constant.keyword (some "constants are not addressable storage")

def badIndex (segment : Segment) (index : Int) : VmCause :=
  .indexOutOfRange segment.keyword index 0 (segment.last?.map Int.ofNat)

def numbers : VmCause → List Int
  | .indexOutOfRange _ index low high => [index, low] ++ high.toList
  | _ => []

def message : VmCause → String
  | .malformed fault => fault.message
  | .missingArgument fault => fault.message
  | .unusableSegment reason name _ => s!"{reason} '{name}'"
  | .indexOutOfRange segment index _ _ => s!"invalid {segment} index {index}"
  | .unknownOperator word => s!"invalid arithmetic command '{word}'"
  | .told message _ => message

def hint : VmCause → Option String
  | .malformed fault => fault.hint
  | .missingArgument fault => fault.hint
  | .unusableSegment _ _ hint => hint
  | .indexOutOfRange segment _ low none => some s!"{segment} indices must be >= {low}"
  | .indexOutOfRange segment _ low (some high) => some s!"{segment} indices must be in {low}..{high}"
  | .unknownOperator _ => some ("valid operators are " ++ ", ".intercalate (Operator.all.map Operator.keyword))
  | .told _ hint => hint

end VmCause

/-- A failure that lies in VM code. -/
structure VmError where
  cause : VmCause
  position : Option Position := none
  sourceLine : Option String := none
  deriving DecidableEq, Repr

def VmError.diagnostic (error : VmError) : Diagnostic :=
  ⟨error.cause.message, error.position, error.sourceLine, error.cause.hint⟩

/-- What is wrong with a line of assembly code. -/
inductive AsmFault where
  | malformedLabel
  | invalidLabel (name : String)
  | duplicateLabel (name : String) (address : Nat)
  | constantOutOfRange (value : Nat)
  | invalidSymbol (name : String)
  | unknownComputation (text : String)
  | invalidDestination (text : String)
  | unknownJump (text : String)
  | told (message : String) (hint : Option String)
  deriving DecidableEq, Repr

namespace AsmFault

def message : AsmFault → String
  | .malformedLabel => "malformed label"
  | .invalidLabel name => s!"invalid label name '{name}'"
  | .duplicateLabel name _ => s!"duplicate label '{name}'"
  | .constantOutOfRange value => s!"constant {value} out of range"
  | .invalidSymbol name => s!"invalid symbol '{name}'"
  | .unknownComputation text => s!"unknown computation '{text}'"
  | .invalidDestination text => s!"invalid destination '{text}'"
  | .unknownJump text => s!"unknown jump '{text}'"
  | .told message _ => message

def hint : AsmFault → Option String
  | .duplicateLabel name address => some s!"'{name}' already refers to address {address}"
  | .constantOutOfRange _ => some "A-instructions load 0..32767"
  | .told _ hint => hint
  | _ => none

end AsmFault

inductive AsmCause where
  | malformed (fault : AsmFault)
  | told (message : String) (hint : Option String)
  deriving DecidableEq, Repr

/-- A failure that lies in assembly code. -/
structure AsmError where
  cause : AsmCause
  position : Option Position := none
  sourceLine : Option String := none
  deriving DecidableEq, Repr

def AsmError.diagnostic (error : AsmError) : Diagnostic :=
  match error.cause with
  | .malformed fault => ⟨fault.message, error.position, error.sourceLine, fault.hint⟩
  | .told message hint => ⟨message, error.position, error.sourceLine, hint⟩

/-- A failure to resolve functions across units. -/
inductive LinkError where
  | duplicate (name firstUnit secondUnit : String)
  | undefined (name : String) (position : Option Position)
  | frozen (name : String)
  | told (message : String)
  deriving DecidableEq, Repr

def LinkError.message : LinkError → String
  | .duplicate name first second =>
    if first = second then s!"function '{name}' is defined twice in '{first}'"
    else s!"function '{name}' is defined in both '{first}' and '{second}'"
  | .undefined name none => s!"call to undefined function '{name}'"
  | .undefined name (some position) => s!"{position.text}: call to undefined function '{name}'"
  | .frozen name => s!"function table is frozen; cannot add '{name}'"
  | .told message => message

/-- A compilation that cannot be started or carried through. -/
inductive SetupError where
  | noUnits
  | repeatedUnit (name : String)
  | staticOutsideUnit
  | wrongExtension (path : String)
  | emptyDirectory (path : String)
  | told (message : String)
  deriving DecidableEq, Repr

def SetupError.message : SetupError → String
  | .noUnits => "nothing to translate"
  | .repeatedUnit name => s!"unit name '{name}' used twice"
  | .staticOutsideUnit => "static segment used before set_file_name() was called"
  | .wrongExtension path => s!"input file must have a .vm extension: {path}"
  | .emptyDirectory path => s!"no .vm files found in directory: {path}"
  | .told message => message

/-- An error of the file system: a bare remark, or a numbered reason that may name a file. -/
inductive SystemError where
  | remark (message : String)
  | numbered (number : Int) (reason : String) (file : Option String)
  deriving DecidableEq, Repr

namespace SystemError

def missing (file : String) : SystemError := .numbered 2 "No such file or directory" (some file)

def fileExists (file : String) : SystemError := .numbered 17 "File exists" (some file)

def notDirectory (file : String) : SystemError := .numbered 20 "Not a directory" (some file)

def isDirectory (file : String) : SystemError := .numbered 21 "Is a directory" (some file)

def nameTooLong (file : String) : SystemError := .numbered 36 "File name too long" (some file)

def message : SystemError → String
  | .remark message => message
  | .numbered number reason none => s!"[Errno {number}] {reason}"
  | .numbered number reason (some file) => s!"[Errno {number}] {reason}: " ++ Text.quoted file

/-- The reason alone, where one is given. -/
def reason? : SystemError → Option String
  | .remark _ => none
  | .numbered _ reason _ => if reason.isEmpty then none else some reason

def file? : SystemError → Option String
  | .remark _ => none
  | .numbered _ _ file => file.filter (!·.isEmpty)

def numbers : SystemError → List Int
  | .remark _ => []
  | .numbered number _ _ => [number]

end SystemError

/-- Bytes that are no text in some encoding, from one offset up to and excluding another. -/
structure EncodingError where
  encoding : String
  bytes : List UInt8
  start : Int
  stop : Int
  reason : String
  deriving DecidableEq, Repr

namespace EncodingError

/-- The first bad byte; an offset below 0 is counted back from the end. -/
def badByte? (error : EncodingError) : Option UInt8 :=
  let offset := if error.start < 0 then error.start + error.bytes.length else error.start
  if offset < 0 then none else error.bytes[offset.toNat]?

/-- The byte that the message shows if it is a single one.  Before the first byte all bits are set, or none if there
is no byte at all. -/
def shownByte? (error : EncodingError) : Option UInt8 :=
  if error.stop ≠ error.start + 1 then none
  else if error.start < 0 then some (if error.bytes.isEmpty then 0 else 0xFF)
  else error.bytes[error.start.toNat]?

/-- The offset of the last bad byte, in 64 bits. -/
def last (error : EncodingError) : Int := Int.bmod (error.stop - 1) 18446744073709551616

def hasExtents (error : EncodingError) : Bool := Text.isExtent error.start && Text.isExtent error.stop

def message (error : EncodingError) : String :=
  match error.shownByte? with
  | some byte =>
    s!"'{error.encoding}' codec can't decode byte 0x" ++ String.ofList (Text.hexDigits 2 byte.toNat) ++
      s!" in position {error.start}: {error.reason}"
  | none =>
    s!"'{error.encoding}' codec can't decode bytes in position {error.start}-{error.last}: {error.reason}"

end EncodingError

inductive Failure where
  | vm (error : VmError)
  | asm (error : AsmError)
  | located (report : Diagnostic)
  | link (error : LinkError)
  | setup (error : SetupError)
  | machine (fault : Machine.Fault)
  | unreadable (path reason : String)
  | numeral (fault : NumeralFault)
  | notMemoryAccess (kind : Kind)
  | outputClosed
  | system (error : SystemError)
  | encoding (error : EncodingError)
  | nullCharacter
  | noSuchByte
  | extent (fault : ExtentFault)
  | offsetTooWide
  | usage (message : String)
  | told (message : String)
  | unexpected (message : String)
  deriving DecidableEq, Repr

namespace Failure

def message : Failure → String
  | .vm error => error.diagnostic.text
  | .asm error => error.diagnostic.text
  | .located report => report.text
  | .link error => error.message
  | .setup error => error.message
  | .machine fault => fault.message
  | .unreadable path reason => s!"cannot read input '{path}': {reason}"
  | .numeral fault => fault.message
  | .notMemoryAccess kind => s!"expected PUSH or POP, got CommandKind.{kind.constant}"
  | .outputClosed => "I/O operation on closed file"
  | .system error => error.message
  | .encoding error => error.message
  | .nullCharacter => "embedded null byte"
  | .noSuchByte => "index out of range"
  | .extent fault => fault.message
  | .offsetTooWide => "Python int too large to convert to C ssize_t"
  | .usage message => message
  | .told message => message
  | .unexpected message => message

/-- A byte that is no UTF-8, as a reason why a file cannot be read. -/
def badByteReason (byte : UInt8) (offset : Int) : String :=
  "not UTF-8 text (byte 0x" ++ String.ofList (Text.hexDigits 2 byte.toNat) ++ s!" at offset {offset})"

/-- The numbers that the wording of a failure shows. -/
def numbers : Failure → List Int
  | .vm error => error.cause.numbers ++ Position.numbers error.position
  | .asm error => Position.numbers error.position
  | .located report => Position.numbers report.position
  | .link (.undefined _ position) => Position.numbers position
  | .machine (.addressOutOfRange address _) => [address]
  | .machine (.outOfCycles budget pc) => [budget, pc]
  | .system error => error.numbers
  | _ => []

/-- The indent of the caret that a failure sets. -/
def caretIndent? : Failure → Option Int
  | .vm error => error.diagnostic.caretIndent?
  | .asm error => error.diagnostic.caretIndent?
  | .located report => report.caretIndent?
  | _ => none

/-- Why a failure cannot be put into words. -/
def obstacle? (failure : Failure) : Option Failure :=
  if !failure.numbers.all Text.isPrintableInteger then some (.numeral .tooLongToPrint)
  else (failure.caretIndent?.bind Text.extentFault?).map .extent

/-- An encoding error, unless its offsets are too wide. -/
def ofEncoding (error : EncodingError) : Except Failure Failure :=
  if error.hasExtents then .ok (.encoding error) else .error .offsetTooWide

/-- A failure that cannot be put into words gives way to the reason why. -/
def worded (failure : Failure) : Failure := failure.obstacle?.getD failure

/-- A failure that can be put into words. -/
def checked (failure : Failure) : Except Failure Failure :=
  match failure.obstacle? with
  | some obstacle => .error obstacle
  | none => .ok failure

/-- The same failure, blamed on an input file, or why that cannot be done. -/
def ofInput (path : String) : Failure → Except Failure Failure
  | .encoding error =>
    match error.badByte? with
    | some byte => .ok (.unreadable path (badByteReason byte error.start))
    | none => .error .noSuchByte
  | .system error =>
    match error.reason? with
    | some reason => .ok (.unreadable path (Text.lower reason))
    | none => (checked (.system error)).map fun failure => .unreadable path failure.message
  | failure => failure.checked.map fun failure => .unreadable path failure.message

end Failure

end HackToolchain
