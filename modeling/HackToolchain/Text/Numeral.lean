import HackToolchain.Text.Blank
import HackToolchain.Text.Digits
import HackToolchain.Text.Quoted

/-! # Decimal numerals

Numerals are read and printed up to a fixed number of digits, leading zeros included.  Within the limit every
integer has one printed form and every string of digits one value.
-/
namespace HackToolchain.Text

/-- The longest numeral that is read or printed. -/
def maxNumeralDigits : Nat := 4300

/-- Why a numeral could not be read or printed. -/
inductive NumeralFault where
  | tooManyDigits (count : Nat)
  | tooLongToPrint
  | notANumeral (text : String)
  deriving DecidableEq, Repr

def NumeralFault.message : NumeralFault → String
  | .tooManyDigits count =>
    s!"Exceeds the limit (4300 digits) for integer string conversion: value has {count} digits; " ++
      "use sys.set_int_max_str_digits() to increase the limit"
  | .tooLongToPrint =>
    "Exceeds the limit (4300 digits) for integer string conversion; " ++
      "use sys.set_int_max_str_digits() to increase the limit"
  | .notANumeral text =>
    "invalid literal for int() with base 10: " ++ String.ofList ((quoted text).toList.take 200)

/-- The number that a sequence of digit values denotes, the most significant one first. -/
def ofDigits (digits : List Nat) : Nat := digits.foldl (fun value digit => 10 * value + digit) 0

/-- The value of a text of decimal digits of any script. -/
def decimal (text : List Char) : Except NumeralFault Nat :=
  let digits := (text.map decimalValue?).takeWhile Option.isSome
  if maxNumeralDigits < digits.length then .error (.tooManyDigits digits.length)
  else if digits.length < text.length || text.isEmpty then .error (.notANumeral (String.ofList text))
  else .ok (ofDigits digits.reduceOption)

/-- The digit values of a numeral in which single underscores may part the digits. -/
def groupedDigits : List Char → Option (List Nat)
  | [] => none
  | [c] => (decimalValue? c).map ([·])
  | c :: d :: rest =>
    if d = '_' then do return (← decimalValue? c) :: (← groupedDigits rest)
    else do return (← decimalValue? c) :: (← groupedDigits (d :: rest))

def natural? (text : List Char) : Option Nat := do
  let digits ← groupedDigits text
  if maxNumeralDigits < digits.length then none else some (ofDigits digits)

/-- The blanks that may stand around an integer; the four separators below the space are none of them. -/
def isPadding (c : Char) : Bool := isBlank c && !(0x1C ≤ c.toNat && c.toNat ≤ 0x1F)

/-- An integer with padding around it, a sign before it and underscores between its digits, all at will. -/
def integer? (text : String) : Option Int :=
  match ((text.toList.dropWhile isPadding).reverse.dropWhile isPadding).reverse with
  | '-' :: digits => (natural? digits).map fun n => -(n : Int)
  | '+' :: digits => (natural? digits).map Int.ofNat
  | digits => (natural? digits).map Int.ofNat

def isPrintableInteger (n : Int) : Bool := n.natAbs < Nat.pow 10 maxNumeralDigits

end HackToolchain.Text
