/-! # Reading UTF-8

Bytes are decoded one character at a time.  Overlong forms, surrogates and values beyond the last code point are
no characters, and a bad sequence is reported at its first byte.
-/
namespace HackToolchain.Text

/-- The byte at which a text stops being UTF-8, and how many bytes stand before it. -/
structure DecodeFault where
  offset : Nat
  byte : UInt8
  deriving DecidableEq, Repr

def isTail (b : UInt8) : Bool := 0x80 ≤ b && b ≤ 0xBF

/-- The six low bits that a byte after the first contributes. -/
def tailBits (b : UInt8) : Nat := b.toNat % 64

/-- The bytes that may follow `first`: the range of the second byte, which excludes overlong forms and surrogates,
and the number of bytes in all. -/
def sequenceShape (first : UInt8) : Option (UInt8 × UInt8 × Nat) :=
  if 0xC2 ≤ first && first ≤ 0xDF then some (0x80, 0xBF, 2)
  else if first = 0xE0 then some (0xA0, 0xBF, 3)
  else if first = 0xED then some (0x80, 0x9F, 3)
  else if 0xE1 ≤ first && first ≤ 0xEF then some (0x80, 0xBF, 3)
  else if first = 0xF0 then some (0x90, 0xBF, 4)
  else if first = 0xF4 then some (0x80, 0x8F, 4)
  else if 0xF1 ≤ first && first ≤ 0xF3 then some (0x80, 0xBF, 4)
  else none

/-- Reads bytes on from `offset`; `seen` holds the characters read, the last one first. -/
def decodeFrom (offset : Nat) (seen : List Char) : List UInt8 → Except DecodeFault (List Char)
  | [] => .ok seen.reverse
  | a :: rest =>
    if a < 0x80 then decodeFrom (offset + 1) (Char.ofNat a.toNat :: seen) rest
    else match sequenceShape a, rest with
      | some (low, high, 2), b :: rest =>
        if low ≤ b && b ≤ high then
          decodeFrom (offset + 2) (Char.ofNat (a.toNat % 32 * 64 + tailBits b) :: seen) rest
        else .error ⟨offset, a⟩
      | some (low, high, 3), b :: c :: rest =>
        if low ≤ b && b ≤ high && isTail c then
          decodeFrom (offset + 3) (Char.ofNat ((a.toNat % 16 * 64 + tailBits b) * 64 + tailBits c) :: seen) rest
        else .error ⟨offset, a⟩
      | some (low, high, 4), b :: c :: d :: rest =>
        if low ≤ b && b ≤ high && isTail c && isTail d then
          decodeFrom (offset + 4)
            (Char.ofNat (((a.toNat % 8 * 64 + tailBits b) * 64 + tailBits c) * 64 + tailBits d) :: seen) rest
        else .error ⟨offset, a⟩
      | _, _ => .error ⟨offset, a⟩

def decodeUtf8 (bytes : ByteArray) : Except DecodeFault String :=
  (decodeFrom 0 [] bytes.toList).map String.ofList

end HackToolchain.Text
