import HackToolchain.Text.Extent
import HackToolchain.Text.Numeral

/-! # Diagnostics

A diagnostic says what is wrong and, where that is known, at which place of which file.  It is printed as one line,
followed by the source line with a caret under the reported column, and by a hint.
-/
namespace HackToolchain

/-- A place in a source file; lines and columns count from 1. -/
structure Position where
  file : String
  line : Int
  column : Int
  deriving DecidableEq, Repr

def Position.text (position : Position) : String :=
  s!"{position.file}:{position.line}:{position.column}"

def Position.numbers : Option Position → List Int
  | some position => [position.line, position.column]
  | none => []

/-- A place can be written out. -/
def Position.isPrintable (position : Option Position) : Bool :=
  (Position.numbers position).all Text.isPrintableInteger

structure Diagnostic where
  message : String
  position : Option Position
  sourceLine : Option String
  hint : Option String
  deriving DecidableEq, Repr

namespace Diagnostic

/-- The line that points at a column of the source line above it, which is indented by four. -/
def caret (column : Int) : String :=
  String.ofList (List.replicate (3 + column.toNat) ' ' ++ ['^'])

/-- How far the caret is indented, if there is one. -/
def caretIndent? (diagnostic : Diagnostic) : Option Int :=
  match diagnostic.position, diagnostic.sourceLine with
  | some position, some _ => if 0 < position.column then some (3 + position.column) else none
  | _, _ => none

def headline (diagnostic : Diagnostic) : String :=
  match diagnostic.position with
  | some position => s!"{position.text}: error: {diagnostic.message}"
  | none => s!"error: {diagnostic.message}"

/-- The source line and the caret, shown only for a known place. -/
def excerpt (diagnostic : Diagnostic) : List String :=
  match diagnostic.position, diagnostic.sourceLine with
  | some position, some line =>
    s!"    {line}" :: if 0 < position.column then [caret position.column] else []
  | _, _ => []

/-- An empty hint is as good as none. -/
def advice (diagnostic : Diagnostic) : List String :=
  match diagnostic.hint with
  | some hint => if hint.isEmpty then [] else [s!"hint: {hint}"]
  | none => []

def text (diagnostic : Diagnostic) : String :=
  "\n".intercalate (diagnostic.headline :: diagnostic.excerpt ++ diagnostic.advice)

end Diagnostic

end HackToolchain
