import HackToolchain.Machine.Word

/-! # The arithmetic-logic unit

Six control bits, the highest first, zero and complement either input, choose between the sum and the conjunction,
and complement the result.
-/
namespace HackToolchain.Machine

/-- An input of the unit after its two control bits. -/
def prepared (isZeroed isFlipped : Bool) (x : Word) : Word :=
  let x := if isZeroed then 0 else x
  if isFlipped then ~~~x else x

def alu (control : BitVec 6) (x y : Word) : Word :=
  let x := prepared (control.getLsbD 5) (control.getLsbD 4) x
  let y := prepared (control.getLsbD 3) (control.getLsbD 2) y
  let out := if control.getLsbD 1 then x + y else x &&& y
  if control.getLsbD 0 then ~~~out else out

/-- The conjunction of two integers in two's complement without a width. -/
def conjunction : Int → Int → Int
  | .ofNat m, .ofNat n => (m &&& n : Nat)
  | .ofNat m, .negSucc n => (m - (m &&& n) : Nat)
  | .negSucc m, .ofNat n => (n - (m &&& n) : Nat)
  | .negSucc m, .negSucc n => .negSucc (m ||| n)

/-- The unit fed with integers.  Inputs wider than a word are cut at the first complement or sum; the bare
conjunction, whose control bits are all clear, cuts nothing. -/
def aluOfInts (x y control : Int) : Int :=
  let control := BitVec.ofInt 6 control
  if control = 0 then conjunction x y else (alu control (Word.ofInt x) (Word.ofInt y)).toNat

end HackToolchain.Machine
