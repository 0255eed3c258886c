/-! # Terminal control sequences

A control sequence starts with an escape character and a bracket.  Parameters, from the digit 0 to the question mark,
and intermediates, from the space to the slash, may follow, and a character from the at sign to the tilde ends it.
Such sequences steer a terminal; any other reader is shown the text without them.  What only begins like one stays.
-/
namespace HackToolchain.Text

def isParameter (c : Char) : Bool := '0' ≤ c && c ≤ '?'

def isIntermediate (c : Char) : Bool := ' ' ≤ c && c ≤ '/'

def isFinal (c : Char) : Bool := '@' ≤ c && c ≤ '~'

/-- The length of the control sequence that a text starts with, or 0. -/
def sequenceLength : List Char → Nat
  | '\x1b' :: '[' :: rest =>
    let parameters := rest.takeWhile isParameter
    let afterParameters := rest.drop parameters.length
    let intermediates := afterParameters.takeWhile isIntermediate
    if (afterParameters.drop intermediates.length).head?.any isFinal then
      parameters.length + intermediates.length + 3
    else 0
  | _ => 0

/-- Leaves out the next `skipped` characters and every sequence after them; `kept` holds what stays, the last one
first. -/
def plainFrom (kept : List Char) (skipped : Nat) : List Char → List Char
  | [] => kept.reverse
  | c :: rest =>
    match skipped with
    | skipped + 1 => plainFrom kept skipped rest
    | 0 =>
      match sequenceLength (c :: rest) with
      | 0 => plainFrom (c :: kept) 0 rest
      | skipped + 1 => plainFrom kept skipped rest

/-- A text without its control sequences. -/
def plain (text : String) : String := String.ofList (plainFrom [] 0 text.toList)

end HackToolchain.Text
