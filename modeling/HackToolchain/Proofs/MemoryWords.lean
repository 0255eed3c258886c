import HackToolchain.Machine.Word
import Mathlib.Tactic.Common

/-! # Words of memory

Memory is addressed by words, half of which lie outside of it.  A read or a write outside fails.
-/
namespace HackToolchain.Machine

def Word.IsAddress (word : Word) : Prop := word.toNat < memorySize

instance (word : Word) : Decidable word.IsAddress := inferInstanceAs (Decidable (_ < _))

@[simp] theorem isAddress_ofNat {n : Nat} (h : n < 32768) : Word.IsAddress (BitVec.ofNat 16 n) := by
  simp only [Word.IsAddress, memorySize, BitVec.toNat_ofNat]
  omega

theorem toNat_ofNat_of_lt {n : Nat} (h : n < memorySize) : (BitVec.ofNat 16 n).toNat = n := by
  unfold memorySize at h
  rw [BitVec.toNat_ofNat, Nat.mod_eq_of_lt (by omega)]

namespace Memory

/-- The word at an address inside the memory; every other address has 0. -/
def word (memory : Memory) (address : Word) : Word := memory[address.toNat]?.getD 0

def put (memory : Memory) (address value : Word) : Memory := memory.setIfInBounds address.toNat value

def read? (memory : Memory) (address : Word) : Option Word :=
  if address.IsAddress then some (memory.word address) else none

def write? (memory : Memory) (address value : Word) : Option Memory :=
  if address.IsAddress then some (memory.put address value) else none

theorem word_zero (address : Word) : zero.word address = 0 := by
  unfold word zero
  by_cases h : address.toNat < memorySize
  · simp [h]
  · simp [h]

theorem word_put {address : Word} (h : address.IsAddress) (memory : Memory) (value other : Word) :
    (memory.put address value).word other = if other = address then value else memory.word other := by
  unfold word put
  split
  next he =>
    rw [he, Vector.getElem?_setIfInBounds_self_of_lt h]
    rfl
  next he =>
    have hn : address.toNat ≠ other.toNat := fun hn => he (BitVec.eq_of_toNat_eq hn.symm)
    rw [Vector.getElem?_setIfInBounds_ne hn]

theorem read?_eq_some {memory : Memory} {address value : Word} :
    memory.read? address = some value ↔ address.IsAddress ∧ memory.word address = value := by
  unfold read?
  split
  next h => simp [h]
  next h => simp [h]

theorem write?_eq_some {memory written : Memory} {address value : Word} :
    memory.write? address value = some written ↔ address.IsAddress ∧ memory.put address value = written := by
  unfold write?
  split
  next h => simp [h]
  next h => simp [h]

end Memory

end HackToolchain.Machine
