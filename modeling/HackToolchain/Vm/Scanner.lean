import HackToolchain.Text.Lines
import HackToolchain.Vm.Command

/-! # Scanning VM source

A line of VM code, once its comment is cut off, is blank or holds one command: a keyword and as many words as the
kind of the command asks for, the last of them a numeral where the kind carries one.  A scanner hands out the
commands of a source one at a time and may look ahead for the next of them; a malformed line is used up by the attempt
to read it and changes nothing else.
-/
namespace HackToolchain.Vm

open Text (Token)

/-- The kind that the first word of a line announces. -/
def kindOf? (word : String) : Option Kind :=
  match Kind.ofKeyword? word with
  | some kind => some kind
  | none => (Operator.ofKeyword? word).map fun _ => .arithmetic

/-- A line of source, with its number counted from 1. -/
structure Line where
  file : String
  number : Nat
  chars : List Char
  deriving DecidableEq, Repr

namespace Line

def code (line : Line) : List Char := Text.beforeComment line.chars

def text (line : Line) : String := String.ofList (Text.withoutComment line.chars)

def words (line : Line) : List Token := Text.tokens line.code

def positionOf (line : Line) (word : Token) : Position := ⟨line.file, line.number, word.start + 1⟩

def fail (line : Line) (word : Token) (fault : SyntaxFault) : Failure :=
  .vm ⟨.malformed fault, some (line.positionOf word), some line.text⟩

/-- The numeral that a word of ASCII digits denotes. -/
def numeral (line : Line) (kind : Kind) (word : Token) : Except Failure Int :=
  if word.text.all Text.isAsciiDigit then
    match Text.decimal word.text with
    | .ok value => .ok value
    | .error fault => .error (.numeral fault)
  else .error (line.fail word (.badNumeral kind (String.ofList word.text)))

/-- The command on a line whose first word is `head`. -/
def commandFrom (line : Line) (head : Token) (arguments : List Token) : Except Failure Command :=
  let word := String.ofList head.text
  match kindOf? word with
  | none => .error (line.fail head (.unknownCommand word))
  | some kind =>
    let found (name : Option String) (index : Option Int) : Command :=
      { kind, name, index, position := some (line.positionOf head), text := some line.text }
    match kind.arity, arguments with
    | 0, [] => .ok (found (if kind = .arithmetic then some word else none) none)
    | 1, [name] => .ok (found (some (String.ofList name.text)) none)
    | 2, [name, index] => do
      let value ← line.numeral kind index
      return found (some (String.ofList name.text)) (some value)
    | _, _ => .error (line.fail head (.wrongArity kind word arguments.length))

/-- The command on a line, if the line is not blank. -/
def command? (line : Line) : Option (Except Failure Command) :=
  match line.words with
  | [] => none
  | head :: arguments => some (line.commandFrom head arguments)

end Line

/-- The lines of a source text, numbered. -/
def sourceLines (source file : String) : List Line :=
  (Text.lines source).zipIdx.map fun (chars, i) => ⟨file, i + 1, chars⟩

/-- All the commands of a source text, or what is wrong with its first malformed line. -/
def parse (source file : String) : Except Failure (List Command) :=
  ((sourceLines source file).filterMap Line.command?).mapM id

/-- A line that is not blank. -/
abbrev FullLine := { line : Line // line.words ≠ [] }

/-- What reading the line comes to. -/
def FullLine.outcome (line : FullLine) : Except Failure Command :=
  line.val.commandFrom (line.val.words.head line.property) line.val.words.tail

/-- The first line that is not blank, and the lines after it. -/
def firstFull? : List Line → Option (FullLine × List Line)
  | [] => none
  | line :: rest => if h : line.words = [] then firstFull? rest else some (⟨line, h⟩, rest)

/-- A source text that is being read: the lines that have not been looked at, the line that was found by looking ahead,
and the command last read. -/
structure Scanner where
  file : String
  lineCount : Nat
  upcoming : List Line
  pending : Option FullLine
  current? : Option Command

namespace Scanner

def ofSource (source file : String) : Scanner :=
  let lines := sourceLines source file
  ⟨file, lines.length, lines, none, none⟩

/-- Finds the next line that is not blank, unless one has been found and not been read yet. -/
def lookAhead (scanner : Scanner) : Scanner :=
  match scanner.pending with
  | some _ => scanner
  | none =>
    match firstFull? scanner.upcoming with
    | some (line, rest) => { scanner with upcoming := rest, pending := some line }
    | none => { scanner with upcoming := [] }

def hasMore (scanner : Scanner) : Bool := scanner.lookAhead.pending.isSome

/-- Reads the next command.  What remains is given back in either case. -/
def advance (scanner : Scanner) : Scanner × Except Failure Command :=
  let scanner := scanner.lookAhead
  match scanner.pending with
  | none =>
    (scanner, .error (.vm ⟨.malformed .noMoreCommands, some ⟨scanner.file, scanner.lineCount, 0⟩, none⟩))
  | some line =>
    match line.outcome with
    | .ok command => ({ scanner with pending := none, current? := some command }, .ok command)
    | .error failure => ({ scanner with pending := none }, .error failure)

def current (scanner : Scanner) : Except Failure Command :=
  match scanner.current? with
  | some command => .ok command
  | none => .error (.vm ⟨.missingArgument .noCurrentCommand, some ⟨scanner.file, 0, 0⟩, none⟩)

/-- Reads the next command, if there is one. -/
def next (scanner : Scanner) : Scanner × Option (Except Failure Command) :=
  if scanner.hasMore then
    let (after, outcome) := scanner.advance
    (after, some outcome)
  else (scanner.lookAhead, none)

/-- The number of lines that have not been read. -/
def unread (scanner : Scanner) : Nat := scanner.upcoming.length + scanner.pending.toList.length

theorem length_of_firstFull? {lines rest : List Line} {line : FullLine} (h : firstFull? lines = some (line, rest)) :
    rest.length < lines.length := by
  induction lines with
  | nil => cases h
  | cons first others ih =>
    unfold firstFull? at h
    split at h
    next => exact Nat.lt_succ_of_lt (ih h)
    next =>
      cases h
      exact Nat.lt_succ_self _

theorem unread_lookAhead_le (scanner : Scanner) : scanner.lookAhead.unread ≤ scanner.unread := by
  unfold lookAhead
  split
  next => exact Nat.le_refl _
  next hp =>
    split
    next hf =>
      simpa [unread, hp] using Nat.succ_le_of_lt (length_of_firstFull? hf)
    next => simp [unread, hp]

theorem unread_advance_lt {scanner : Scanner} (h : scanner.hasMore = true) :
    scanner.advance.1.unread < scanner.unread := by
  refine Nat.lt_of_lt_of_le ?_ scanner.unread_lookAhead_le
  obtain ⟨line, hl⟩ := Option.isSome_iff_exists.mp h
  unfold advance
  simp only [hl]
  split <;> simp [unread, hl]

theorem unread_next_lt {scanner after : Scanner} {outcome : Except Failure Command}
    (h : scanner.next = (after, some outcome)) : after.unread < scanner.unread := by
  unfold next at h
  split at h
  next hm =>
    cases h
    exact unread_advance_lt hm
  next => cases h

/-- Reads commands up to and including the first failure; `found` holds the commands read, the last one first. -/
def restFrom (scanner : Scanner) (found : List Command) : Scanner × Except Failure (List Command) :=
  match h : scanner.next with
  | (after, none) => (after, .ok found.reverse)
  | (after, some (.ok command)) =>
    have : after.unread < scanner.unread := unread_next_lt h
    after.restFrom (command :: found)
  | (after, some (.error failure)) => (after, .error failure)
termination_by scanner.unread

/-- Reads all the commands that remain. -/
def rest (scanner : Scanner) : Scanner × Except Failure (List Command) := scanner.restFrom []

end Scanner

end HackToolchain.Vm
