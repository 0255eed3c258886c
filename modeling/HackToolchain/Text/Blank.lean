/-! # Blanks and the words between them

White space here is the Unicode set: the ASCII blanks, the four separators at `1C` to `1F`, the next-line
control, the no-break space and the spaces of the general punctuation block.  The zero-width characters do not
belong to it.  A line falls into maximal blank-free words, each known by the column at which it starts.
-/
namespace HackToolchain.Text

def isBlank (c : Char) : Bool :=
  let n := c.toNat
  (9 ≤ n && n ≤ 13) || (0x1C ≤ n && n ≤ 0x20) || n == 0x85 || n == 0xA0 || n == 0x1680 ||
    (0x2000 ≤ n && n ≤ 0x200A) || n == 0x2028 || n == 0x2029 || n == 0x202F || n == 0x205F || n == 0x3000

def trimLeft (cs : List Char) : List Char := cs.dropWhile isBlank

def trimRight (cs : List Char) : List Char := (cs.reverse.dropWhile isBlank).reverse

def trim (cs : List Char) : List Char := trimRight (trimLeft cs)

/-- A blank-free run of characters and the number of characters that stand before it on its line. -/
structure Token where
  start : Nat
  text : List Char
  deriving DecidableEq, Repr

/-- The words of a line whose first character has `start` characters before it: a word that begins at the very
next character is one with the present character. -/
def tokensFrom (start : Nat) : List Char → List Token
  | [] => []
  | c :: rest =>
    let later := tokensFrom (start + 1) rest
    if isBlank c then later
    else match later with
      | [] => [⟨start, [c]⟩]
      | next :: others =>
        if next.start = start + 1 then ⟨start, c :: next.text⟩ :: others else ⟨start, [c]⟩ :: later

def tokens (cs : List Char) : List Token := tokensFrom 0 cs

/-- Everything before the first `//`. -/
def beforeComment : List Char → List Char
  | [] => []
  | c :: rest => if c = '/' ∧ rest.head? = some '/' then [] else c :: beforeComment rest

/-- A line of source without its comment and the blanks around it. -/
def withoutComment (line : List Char) : List Char := trim (beforeComment line)

end HackToolchain.Text
