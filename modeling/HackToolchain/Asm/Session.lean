import HackToolchain.Asm.Encoding

/-! # Assembling

One assembler may be given several sources.  It remembers the symbols of the last of them and the words of the last
that it accepted, and prints a program as lines of sixteen binary digits.
-/
namespace HackToolchain.Asm

/-- The symbols of the last source that was given, and the words of the last one that was accepted. -/
structure Session where
  symbols : SymbolTable
  words : List Nat

namespace Session

def new : Session := ⟨.empty, []⟩

def assemble (session : Session) (source file : String) : Session × Except Failure (List Nat) :=
  match assembleLines (sourceLines source file) with
  | .ok (symbols, words) => (⟨symbols, words⟩, .ok words)
  | .error (symbols, failure) => ({ session with symbols }, .error failure)

/-- What is noted after a successful assembly. -/
def note (session : Session) : String :=
  s!"Assembled {session.words.length} instructions, {session.symbols.user.length} user symbols"

end Session

def assemble (source file : String) : Except Failure (List Nat) := (Session.new.assemble source file).2

/-- A word in binary, with zeros in front up to sixteen digits. -/
def binary (word : Nat) : List Char :=
  let digits := Nat.toDigits 2 word
  List.replicate (16 - digits.length) '0' ++ digits

/-- A program as text, one word to a line. -/
def hackText (words : List Nat) : String :=
  words.foldl (fun text word => text ++ String.ofList (binary word) ++ "\n") ""

end HackToolchain.Asm
