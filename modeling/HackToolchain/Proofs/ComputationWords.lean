import Mathlib.Algebra.Ring.Nat
import HackToolchain.Asm.Encoding
import HackToolchain.Proofs.Spelling

/-! # Words of computing instructions

The second pass encodes a computing instruction when its text spells one, and refuses it otherwise.  The word is the sum
of the bits of its parts, so it tells the parts apart: two instructions have the same word when they name the same
registers and the same jump, and spell the same computation or the same one the other way round.
-/
namespace HackToolchain.Asm

/-- The bit of a register in the field of destinations. -/
def Register.bit : Register → Nat
  | .a => 4
  | .d => 2
  | .m => 1

namespace Comp

/-- Computations spelled with their operands swapped, and how else they are spelled. -/
def swapped : List (Comp × Comp) :=
  [(.add .a .d, .add .d .a), (.add .m .d, .add .d .m), (.and .a .d, .and .d .a), (.and .m .d, .and .d .m),
   (.or .a .d, .or .d .a), (.or .m .d, .or .d .m), (.onePlus .d, .succ .d), (.onePlus .a, .succ .a),
   (.onePlus .m, .succ .m)]

def canonical (comp : Comp) : Comp := (swapped.lookup comp).getD comp

/-- The first computation of the table that has a code. -/
def ofCode? (code : Nat) : Option Comp := (table.find? (·.2 == code)).map (·.1)

theorem code_canonical (comp : Comp) : comp.canonical.code = comp.code := by
  cases comp with
  | zero | one | negOne => rfl
  | copy r | not r | neg r | succ r | onePlus r | pred r => cases r <;> rfl
  | add x y | sub x y | and x y | or x y => cases x <;> cases y <;> rfl

theorem ofCode?_code {comp : Comp} (h : comp.isListed = true) : ofCode? comp.code = some comp.canonical := by
  revert h
  cases comp with
  | zero | one | negOne => decide
  | copy r | not r | neg r | succ r | onePlus r | pred r => cases r <;> decide
  | add x y | sub x y | and x y | or x y => cases x <;> cases y <;> decide

/-- No two computations share a code, but for swapped operands. -/
theorem code_eq_iff {comp other : Comp} (hc : comp.isListed = true) (ho : other.isListed = true) :
    comp.code = other.code ↔ comp.canonical = other.canonical := by
  constructor
  · intro h
    apply Option.some.inj
    rw [← ofCode?_code hc, ← ofCode?_code ho, h]
  · intro h
    rw [← code_canonical comp, ← code_canonical other, h]

end Comp

theorem Dest.code_inj {x y : Dest} : x.code = y.code ↔ x = y := by
  constructor
  · rcases x with ⟨_|_,_|_,_|_⟩ <;> rcases y with ⟨_|_,_|_,_|_⟩ <;> decide
  · rintro rfl
    rfl

theorem Dest.ofRegisters_inj {xs ys : List Register} :
    ofRegisters xs = ofRegisters ys ↔ ∀ r, r ∈ xs ↔ r ∈ ys := by
  constructor
  · intro h r
    have hr : (ofRegisters xs).has r = (ofRegisters ys).has r := by rw [h]
    simpa using hr
  · intro h
    apply ext_has
    intro r
    simp [h r]

/-- Registers that are named once each add their bits up. -/
theorem Dest.code_ofRegisters {registers : List Register} (h : registers.Nodup) :
    (ofRegisters registers).code = (registers.map Register.bit).sum := by
  induction registers with
  | nil => rfl
  | cons r rest ih =>
    obtain ⟨hr,hrest⟩ := List.nodup_cons.mp h
    rw [List.map_cons, List.sum_cons, ← ih hrest]
    cases r <;> simp [ofRegisters, code, hr, Register.bit] <;> omega

theorem Jump.code_inj {x y : Option Jump} : x.elim 0 Jump.code = y.elim 0 Jump.code ↔ x = y := by
  constructor
  · rcases x with _ | _ | _ | _ | _ | _ | _ | _ <;> rcases y with _ | _ | _ | _ | _ | _ | _ | _ <;> decide
  · rintro rfl
    rfl

/-- A word tells the fields of an instruction apart. -/
theorem Compute.code_inj {x y : Compute} :
    x.code = y.code ↔ x.comp.code = y.comp.code ∧ x.dest = y.dest ∧ x.jump = y.jump := by
  have hd := Dest.code_lt x.dest
  have hd' := Dest.code_lt y.dest
  have hj := Jump.code_lt x.jump
  have hj' := Jump.code_lt y.jump
  rw [code_eq, code_eq, ← Dest.code_inj, ← Jump.code_inj]
  omega

namespace Spells

variable {text : List Char} {registers : List Register} {comp : Comp} {jump : Option Jump}

/-- The word that the parts of an instruction add up to. -/
theorem code_eq (h : Spells text registers comp jump) : (Compute.mk (.ofRegisters registers) comp jump).code =
    0xE000 + comp.code * 64 + (registers.map Register.bit).sum * 8 + jump.elim 0 Jump.code := by
  rw [Compute.code_eq, Dest.code_ofRegisters h.nodup]

theorem compute_eq {line : SourceLine} (h : Spells line.text registers comp jump) (encoding : Encoding) :
    encoding.compute line = .ok (encoding.push (Compute.mk (.ofRegisters registers) comp jump).code) := by
  have hparse : Compute.parse line.text = .ok ⟨.ofRegisters registers,comp,jump⟩ :=
    Compute.parse_iff_spells.mpr ⟨registers,h,rfl⟩
  rw [Encoding.compute, hparse]

end Spells

theorem Encoding.exists_compute_iff (encoding : Encoding) (line : SourceLine) :
    (∃ next, encoding.compute line = .ok next) ↔ ∃ registers comp jump, Spells line.text registers comp jump := by
  constructor
  · rintro ⟨next,h⟩
    unfold Encoding.compute at h
    split at h
    next instruction hi =>
      obtain ⟨registers,hs,-⟩ := Compute.parse_iff_spells.mp hi
      exact ⟨registers,_,_,hs⟩
    next => cases h
  · rintro ⟨registers,comp,jump,hs⟩
    exact ⟨_,hs.compute_eq encoding⟩

/-- A computing instruction is encoded when its text spells one, as the sum of the bits of its parts.  Two instructions
have the same word when they name the same registers and the same jump, and spell the same computation once operands
are put in order. -/
theorem computing_words_are_exact (encoding : Encoding) (line other : SourceLine) :
    ((∃ next, encoding.compute line = .ok next) ↔ ∃ registers comp jump, Spells line.text registers comp jump) ∧
    ∀ registers comp jump, Spells line.text registers comp jump →
      encoding.compute line = .ok (encoding.push
        (0xE000 + comp.code * 64 + (registers.map Register.bit).sum * 8 + jump.elim 0 Jump.code)) ∧
      ∀ registers' comp' jump', Spells other.text registers' comp' jump' →
        (encoding.compute line = encoding.compute other ↔
          (∀ r, r ∈ registers ↔ r ∈ registers') ∧ jump = jump' ∧ comp.canonical = comp'.canonical) := by
  refine ⟨encoding.exists_compute_iff line,fun registers comp jump hs => ⟨?_,?_⟩⟩
  · rw [hs.compute_eq, hs.code_eq]
  · intro registers' comp' jump' hs'
    have hpush : ∀ word word' : Nat, (Except.ok (encoding.push word) : Except Stopped Encoding) =
        .ok (encoding.push word') ↔ word = word' := by
      simp [Encoding.push]
    rw [hs.compute_eq, hs'.compute_eq, hpush, Compute.code_inj, Comp.code_eq_iff hs.isListed hs'.isListed,
      Dest.ofRegisters_inj, and_comm, and_assoc]

/-- A sum is spelled in two ways and its registers are named in two orders, without a difference to the word. -/
theorem swapped_sums_share_word :
    let encoding : Encoding := ⟨.predefined,firstVariable,[]⟩
    let line : SourceLine := ⟨"DM=M+D;JLE".toList,⟨"sum.asm",1,1⟩,"DM=M+D;JLE"⟩
    let other : SourceLine := ⟨"MD=D+M;JLE".toList,⟨"sum.asm",2,1⟩,"MD=D+M;JLE"⟩
    Spells line.text [.d, .m] (.add .m .d) (some .jle) ∧ Spells other.text [.m, .d] (.add .d .m) (some .jle) ∧
      encoding.compute line = .ok (encoding.push 0xF09E) ∧ encoding.compute line = encoding.compute other := by
  intro encoding line other
  have hline : Spells line.text [.d, .m] (.add .m .d) (some .jle) := ⟨by decide,by decide,by decide⟩
  have hother : Spells other.text [.m, .d] (.add .d .m) (some .jle) := ⟨by decide,by decide,by decide⟩
  obtain ⟨-,hword⟩ := computing_words_are_exact encoding line other
  obtain ⟨hcode,hsame⟩ := hword _ _ _ hline
  refine ⟨hline,hother,hcode,(hsame _ _ _ hother).mpr ⟨?_,rfl,rfl⟩⟩
  intro r
  cases r <;> decide

end HackToolchain.Asm
