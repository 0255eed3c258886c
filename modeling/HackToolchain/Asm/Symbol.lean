/-! # Symbols

A symbol is a word of letters, digits and four marks that does not start with a digit.  A symbol table gives
addresses to names, the predefined ones before all others.
-/
namespace HackToolchain.Asm

def isSymbolMark (c : Char) : Bool := c == '_' || c == '.' || c == '$' || c == ':'

def isAsciiLetter (c : Char) : Bool := ('A' ≤ c && c ≤ 'Z') || ('a' ≤ c && c ≤ 'z')

def isSymbolStart (c : Char) : Bool := isAsciiLetter c || isSymbolMark c

def isSymbolChar (c : Char) : Bool := isSymbolStart c || ('0' ≤ c && c ≤ '9')

def isSymbol : List Char → Bool
  | [] => false
  | c :: rest => isSymbolStart c && rest.all isSymbolChar

/-- Names with their addresses, the latest first. -/
structure SymbolTable where
  latest : List (String × Nat)
  deriving DecidableEq, Repr

namespace SymbolTable

def empty : SymbolTable := ⟨[]⟩

/-- The entries in the order in which they came in. -/
def entries (table : SymbolTable) : List (String × Nat) := table.latest.reverse

/-- The registers of the stack machine, the sixteen named words of memory and the two devices. -/
def predefinedEntries : List (String × Nat) :=
  [("SP", 0), ("LCL", 1), ("ARG", 2), ("THIS", 3), ("THAT", 4),
   ("R0", 0), ("R1", 1), ("R2", 2), ("R3", 3), ("R4", 4), ("R5", 5), ("R6", 6), ("R7", 7),
   ("R8", 8), ("R9", 9), ("R10", 10), ("R11", 11), ("R12", 12), ("R13", 13), ("R14", 14), ("R15", 15),
   ("SCREEN", 16384), ("KBD", 24576)]

def predefined : SymbolTable := ⟨predefinedEntries.reverse⟩

/-- The address that goes with a name. -/
def addressIn? (name : String) : List (String × Nat) → Option Nat
  | [] => none
  | (key, address) :: rest => if key = name then some address else addressIn? name rest

def get? (table : SymbolTable) (name : String) : Option Nat := addressIn? name table.latest

/-- Adds a name that the table does not hold yet. -/
def insert (table : SymbolTable) (name : String) (address : Nat) : SymbolTable :=
  ⟨(name, address) :: table.latest⟩

@[simp] theorem entries_insert (table : SymbolTable) (name : String) (address : Nat) :
    (table.insert name address).entries = table.entries ++ [(name, address)] := by
  simp [insert, entries]

@[simp] theorem get?_insert (table : SymbolTable) (name other : String) (address : Nat) :
    (table.insert name address).get? other = if name = other then some address else table.get? other := by
  simp [get?, insert, addressIn?]

/-- The entries that a program has added. -/
def user (table : SymbolTable) : List (String × Nat) := table.entries.drop predefinedEntries.length

end SymbolTable

/-- The address of the first variable. -/
def firstVariable : Nat := 16

/-- The largest number that a load can hold. -/
def largestLoad : Nat := 32767

end HackToolchain.Asm
