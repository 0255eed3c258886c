import Mathlib.Data.List.Chain
import HackToolchain.Proofs.StackMachine

/-! # Frames on the stack

A call saves the return address and the registers of its caller in a frame, above which the stack of the callee begins.
The frames of the calls that have not returned make up a chain, which calls extend, returns shorten and all other
changes of memory leave alone as long as they keep to the stack of the activation.
-/
namespace HackToolchain.Vm

open Machine (Word Memory)

section Words

variable {ram changed : Memory} {address value : Word} {place other : Place}

/-- The fixed places lie below address 16. -/
theorem Place.ne_address (place : Place) (h : 16 ≤ address.toNat) : address ≠ place.address := by
  rintro rfl
  revert h
  cases place <;> decide

theorem isAddress_of_lt (h : address.toNat < 32768) : address.IsAddress := h

theorem word_setAt_high (h : 16 ≤ address.toNat) (ram : Memory) (place : Place) (value : Word) :
    (setAt ram place value).word address = ram.word address := by
  rw [word_setAt, if_neg (place.ne_address h)]

theorem wordAt_put_high (ha : address.IsAddress) (h : 16 ≤ address.toNat) (ram : Memory) (value : Word)
    (place : Place) : wordAt (ram.put address value) place = wordAt ram place := by
  rw [wordAt, Memory.word_put ha, if_neg (place.ne_address h).symm]

end Words

/-- A word has been pushed onto a stack that lies above the fixed places. -/
structure Pushed (value : Word) (ram changed : Memory) : Prop where
  room : (wordAt ram .sp).toNat < 32768
  sp : wordAt changed .sp = wordAt ram .sp + 1#16
  places : ∀ place ≠ Place.sp, wordAt changed place = wordAt ram place
  top : changed.word (wordAt ram .sp) = value
  words : ∀ address : Word, 16 ≤ address.toNat → address ≠ wordAt ram .sp → changed.word address = ram.word address

theorem pushed_of_push {value : Word} {ram changed : Memory} (hs : 16 ≤ (wordAt ram .sp).toNat)
    (h : push value ram = some changed) : Pushed value ram changed := by
  obtain ⟨written,hw,h⟩ := Option.bind_eq_some_iff.mp h
  obtain ⟨ha,rfl⟩ := Memory.write?_eq_some.mp hw
  cases h
  refine ⟨ha,?_,?_,?_,?_⟩
  · rw [wordAt_setAt, if_pos rfl, wordAt_put_high ha hs]
  · intro place hp
    rw [wordAt_setAt, if_neg hp, wordAt_put_high ha hs]
  · rw [word_setAt_high hs, Memory.word_put ha, if_pos rfl]
  · intro address hl hne
    rw [word_setAt_high hl, Memory.word_put ha, if_neg hne]

theorem exists_push {ram : Memory} (h : (wordAt ram .sp).toNat < 32768) (value : Word) :
    ∃ changed, push value ram = some changed :=
  ⟨_,Option.bind_eq_some_iff.mpr ⟨_,Memory.write?_eq_some.mpr ⟨h,rfl⟩,rfl⟩⟩

/-- An activation whose stack begins at `base` has changed memory: its registers, the words that lie below its stack
and the bounds of the stack are as they have to be.  It may have written to one address of its own choice. -/
structure Calm (base : Nat) (target : Option Word) (ram changed : Memory) : Prop where
  lcl : wordAt changed .lcl = wordAt ram .lcl
  arg : wordAt changed .arg = wordAt ram .arg
  low : base ≤ (wordAt changed .sp).toNat
  high : (wordAt changed .sp).toNat ≤ 32768
  words : ∀ address : Word, 16 ≤ address.toNat → address.toNat < base → target ≠ some address →
    changed.word address = ram.word address

section Calm

variable {base : Nat} {ram between changed : Memory} {value : Word} {target : Option Word}

theorem Calm.refl (hl : base ≤ (wordAt ram .sp).toNat) (hh : (wordAt ram .sp).toNat ≤ 32768) :
    Calm base none ram ram := ⟨rfl,rfl,hl,hh,fun _ _ _ _ => rfl⟩

theorem Calm.trans (hx : Calm base none ram between) (hy : Calm base target between changed) :
    Calm base target ram changed := by
  refine ⟨hy.lcl.trans hx.lcl,hy.arg.trans hx.arg,hy.low,hy.high,?_⟩
  intro address hl hb ht
  rw [hy.words address hl hb ht, hx.words address hl hb nofun]

theorem calm_push (hb : 16 ≤ base) (hl : base ≤ (wordAt ram .sp).toNat) (h : push value ram = some changed) :
    Calm base none ram changed := by
  have hp := pushed_of_push (Nat.le_trans hb hl) h
  have hroom := hp.room
  have hsp : (wordAt changed .sp).toNat = (wordAt ram .sp).toNat + 1 := by
    rw [hp.sp]
    bv_omega
  refine ⟨hp.places _ nofun,hp.places _ nofun,by omega,by omega,?_⟩
  intro address ha hlt _
  refine hp.words address ha ?_
  rintro rfl
  omega

theorem calm_pop (hl : base + 1 ≤ (wordAt ram .sp).toNat) (hh : (wordAt ram .sp).toNat ≤ 32768)
    (h : pop ram = some (value, changed)) : Calm base none ram changed := by
  obtain ⟨rfl,-,-⟩ := pop_eq_some.mp h
  have hsp : (wordAt (setAt ram .sp (wordAt ram .sp - 1#16)) .sp).toNat = (wordAt ram .sp).toNat - 1 := by
    rw [wordAt_setAt, if_pos rfl]
    bv_omega
  refine ⟨?_,?_,by omega,by omega,?_⟩
  · rw [wordAt_setAt, if_neg nofun]
  · rw [wordAt_setAt, if_neg nofun]
  · intro address ha _ _
    rw [word_setAt_high ha]

theorem calm_changeTop {f : Word → Word} (hb : 16 ≤ base) (hl : base + 1 ≤ (wordAt ram .sp).toNat)
    (hh : (wordAt ram .sp).toNat ≤ 32768) (h : changeTop f ram = some changed) : Calm base none ram changed := by
  obtain ⟨ha,rfl⟩ := changeTop_eq_some.mp h
  have htop : (wordAt ram .sp - 1#16).toNat = (wordAt ram .sp).toNat - 1 := by bv_omega
  have hplace := wordAt_put_high ha (by omega) ram (f (ram.word (wordAt ram .sp - 1#16)))
  refine ⟨hplace _,hplace _,?_,?_,?_⟩
  · rw [hplace]
    omega
  · rw [hplace]
    exact hh
  · intro address _ hlt _
    rw [Memory.word_put ha, if_neg]
    rintro rfl
    omega

theorem calm_write {address : Word} (ha : address.IsAddress) (hs : address ≠ Place.sp.address)
    (hl : address ≠ Place.lcl.address) (hg : address ≠ Place.arg.address) (hlow : base ≤ (wordAt ram .sp).toNat)
    (hhigh : (wordAt ram .sp).toNat ≤ 32768) : Calm base (some address) ram (ram.put address value) := by
  have hsp : wordAt (ram.put address value) .sp = wordAt ram .sp := by
    rw [wordAt, Memory.word_put ha, if_neg hs.symm]
  refine ⟨?_,?_,hsp ▸ hlow,hsp ▸ hhigh,?_⟩
  · rw [wordAt, Memory.word_put ha, if_neg hl.symm]
  · rw [wordAt, Memory.word_put ha, if_neg hg.symm]
  · intro other _ _ hne
    rw [Memory.word_put ha, if_neg]
    rintro rfl
    exact hne rfl

theorem calm_setFrame (hl : base ≤ (wordAt ram .sp).toNat) (hh : (wordAt ram .sp).toNat ≤ 32768) :
    Calm base none ram (setAt ram .frame value) := by
  have hsp : wordAt (setAt ram .frame value) .sp = wordAt ram .sp := by rw [wordAt_setAt, if_neg nofun]
  refine ⟨?_,?_,hsp ▸ hl,hsp ▸ hh,?_⟩
  · rw [wordAt_setAt, if_neg nofun]
  · rw [wordAt_setAt, if_neg nofun]
  · intro address ha _ _
    rw [word_setAt_high ha]

theorem calm_pushZeros {count : Nat} (hb : 16 ≤ base) (hl : base ≤ (wordAt ram .sp).toNat)
    (hh : (wordAt ram .sp).toNat ≤ 32768) (h : pushZeros count ram = some changed) : Calm base none ram changed := by
  induction count generalizing ram with
  | zero =>
    cases h
    exact Calm.refl hl hh
  | succ count ih =>
    obtain ⟨pushed,hp,h⟩ := Option.bind_eq_some_iff.mp h
    have hc := calm_push hb hl hp
    exact hc.trans (ih hc.low hc.high h)

variable {statics : Statics} {unit : String} {segment : Segment} {index : Nat}

theorem calm_pushEntry (hb : 16 ≤ base) (hl : base ≤ (wordAt ram .sp).toNat)
    (h : pushEntry statics unit segment index ram = some changed) : Calm base none ram changed := by
  unfold pushEntry at h
  split at h
  · exact calm_push hb hl h
  · obtain ⟨address,-,h⟩ := Option.bind_eq_some_iff.mp h
    obtain ⟨word,-,h⟩ := Option.bind_eq_some_iff.mp h
    exact calm_push hb hl h

theorem calm_popEntry {address : Word} (hl : base + 1 ≤ (wordAt ram .sp).toNat)
    (hh : (wordAt ram .sp).toNat ≤ 32768) (he : entry? statics unit segment index ram = some address)
    (ha : ∀ place ∈ [Place.sp, .lcl, .arg], address ≠ place.address)
    (h : popEntry statics unit segment index ram = some changed) : Calm base (some address) ram changed := by
  simp only [popEntry, he, Option.bind_eq_bind, Option.bind_some, Option.bind_eq_some_iff] at h
  obtain ⟨⟨word,popped⟩,hp,hw⟩ := h
  obtain ⟨haddress,rfl⟩ := Memory.write?_eq_some.mp hw
  have hput : Calm (base + 1) none ram (if segment.register?.isSome then setAt ram .frame address else ram) := by
    split
    · exact calm_setFrame hl hh
    · exact Calm.refl hl hh
  have hpop : Calm base none ram popped := by
    have hc := calm_pop hput.low hput.high hp
    refine ⟨hc.lcl.trans hput.lcl,hc.arg.trans hput.arg,hc.low,hc.high,?_⟩
    intro other ho hlt _
    rw [hc.words other ho hlt nofun, hput.words other ho (by omega) nofun]
  simp only [List.forall_mem_cons] at ha
  exact hpop.trans (calm_write haddress ha.1 ha.2.1 ha.2.2.1 hpop.low hpop.high)

def Operator.arity (operator : Operator) : Nat :=
  match operator.meaning with
  | .inl _ => 1
  | .inr _ => 2

theorem Operator.arity_pos (operator : Operator) : 0 < operator.arity := by
  cases operator <;> decide

theorem calm_operate {operator : Operator} (hb : 16 ≤ base) (hl : base + operator.arity ≤ (wordAt ram .sp).toNat)
    (hh : (wordAt ram .sp).toNat ≤ 32768) (h : operate operator ram = some changed) : Calm base none ram changed := by
  unfold operate at h
  unfold Operator.arity at hl
  split at h
  next f hm =>
    rw [hm] at hl
    exact calm_changeTop hb hl hh h
  next f hm =>
    rw [hm] at hl
    obtain ⟨⟨word,popped⟩,hp,h⟩ := Option.bind_eq_some_iff.mp h
    have hc := @calm_pop (base + 1) ram popped word hl hh hp
    exact (calm_pop (Nat.le_of_succ_le hl) hh hp).trans (calm_changeTop hb hc.low hc.high h)

end Calm

section Frames

variable {ram changed : Memory}

/-- Registers have been saved on the stack, the first lowest. -/
structure Saved (registers : List Place) (ram changed : Memory) : Prop where
  room : (wordAt ram .sp).toNat + registers.length ≤ 32768
  sp : wordAt changed .sp = wordAt ram .sp + BitVec.ofNat 16 registers.length
  places : ∀ place ≠ Place.sp, wordAt changed place = wordAt ram place
  slots : ∀ i register, registers[i]? = some register →
    changed.word (wordAt ram .sp + BitVec.ofNat 16 i) = wordAt ram register
  words : ∀ address : Word, 16 ≤ address.toNat → address.toNat < (wordAt ram .sp).toNat →
    changed.word address = ram.word address

theorem saved_of_foldlM {registers : List Place} (hr : Place.sp ∉ registers) (hl : 16 ≤ (wordAt ram .sp).toNat)
    (hh : (wordAt ram .sp).toNat ≤ 32768) (h : registers.foldlM save ram = some changed) :
    Saved registers ram changed := by
  induction registers generalizing ram with
  | nil =>
    cases h
    exact ⟨hh,by simp,fun _ _ => rfl,by simp,fun _ _ _ => rfl⟩
  | cons register rest ih =>
    obtain ⟨pushed,hp,h⟩ := Option.bind_eq_some_iff.mp h
    have hp := pushed_of_push hl hp
    have hroom := hp.room
    have hsp : (wordAt pushed .sp).toNat = (wordAt ram .sp).toNat + 1 := by
      rw [hp.sp]
      bv_omega
    have hrest : Place.sp ∉ rest := fun hm => hr (List.mem_cons_of_mem register hm)
    have hs := ih hrest (by omega) (by omega) h
    refine ⟨?_,?_,?_,?_,?_⟩
    · have hle := hs.room
      rw [List.length_cons]
      omega
    · rw [hs.sp, hp.sp, List.length_cons, Nat.add_comm rest.length 1, BitVec.ofNat_add, BitVec.add_assoc]
    · intro place hplace
      rw [hs.places place hplace, hp.places place hplace]
    · intro i other hi
      cases i with
      | zero =>
        cases hi
        rw [BitVec.add_zero, hs.words _ hl (by omega), hp.top]
      | succ i =>
        have hother : other ≠ Place.sp := by
          rintro rfl
          exact hrest (List.mem_of_getElem? hi)
        have hslot := hs.slots i other hi
        rw [hp.sp, BitVec.add_assoc, ← BitVec.ofNat_add, Nat.add_comm 1 i, hp.places other hother] at hslot
        exact hslot
    · intro address ha hlt
      rw [hs.words address ha (by omega), hp.words address ha]
      rintro rfl
      omega

theorem exists_foldlM_save {registers : List Place} (hl : 16 ≤ (wordAt ram .sp).toNat)
    (hroom : (wordAt ram .sp).toNat + registers.length ≤ 32768) :
    ∃ changed, registers.foldlM save ram = some changed := by
  induction registers generalizing ram with
  | nil => exact ⟨ram,rfl⟩
  | cons register rest ih =>
    rw [List.length_cons] at hroom
    obtain ⟨pushed,hp⟩ := @exists_push ram (by omega) (wordAt ram register)
    have hsp : (wordAt pushed .sp).toNat = (wordAt ram .sp).toNat + 1 := by
      rw [(pushed_of_push hl hp).sp]
      bv_omega
    obtain ⟨changed,hc⟩ := @ih pushed (by omega) (by omega)
    exact ⟨changed,Option.bind_eq_some_iff.mpr ⟨pushed,hp,hc⟩⟩

/-- How far below the stack of an activation the register of its caller lies. -/
def Place.depth : Place → Word
  | .lcl => 4#16
  | .arg => 3#16
  | .this => 2#16
  | .that => 1#16
  | .sp | .frame | .back => 0#16

theorem exists_depth : ∀ register ∈ savedRegisters, register ≠ Place.sp ∧ ∃ i < 4,
    savedRegisters[i]? = some register ∧ register.depth = 4#16 - BitVec.ofNat 16 i := by decide

/-- A call has made a frame, and a new stack begins above it. -/
structure Entered (back : Word) (arguments : Int) (ram changed : Memory) : Prop where
  room : (wordAt ram .sp).toNat + 5 ≤ 32768
  sp : wordAt changed .sp = wordAt ram .sp + 5#16
  lcl : wordAt changed .lcl = wordAt ram .sp + 5#16
  arg : wordAt changed .arg = wordAt ram .sp - BitVec.ofInt 16 arguments
  back : changed.word (wordAt ram .sp) = back
  saved : ∀ register ∈ savedRegisters,
    changed.word (wordAt ram .sp + 5#16 - register.depth) = wordAt ram register
  words : ∀ address : Word, 16 ≤ address.toNat → address.toNat < (wordAt ram .sp).toNat →
    changed.word address = ram.word address

theorem entered_of_enter {back : Word} {arguments : Int} (hl : 16 ≤ (wordAt ram .sp).toNat)
    (h : enter back arguments ram = some changed) : Entered back arguments ram changed := by
  obtain ⟨pushed,hp,h⟩ := Option.bind_eq_some_iff.mp h
  obtain ⟨full,hs,h⟩ := Option.bind_eq_some_iff.mp h
  have hc : changed = setAt (setAt full .arg (wordAt full .sp - BitVec.ofInt 16 (arguments + 5))) .lcl
      (wordAt full .sp) := by
    cases h
    rw [wordAt_setAt, if_neg nofun]
  have hp := pushed_of_push hl hp
  have hroom := hp.room
  have hsp : (wordAt pushed .sp).toNat = (wordAt ram .sp).toNat + 1 := by
    rw [hp.sp]
    bv_omega
  have hs := saved_of_foldlM (by decide) (by omega) (by omega) hs
  have hlength : savedRegisters.length = 4 := rfl
  have hframe := hs.room
  rw [hlength] at hframe
  have hfull : wordAt full .sp = wordAt ram .sp + 5#16 := by
    rw [hs.sp, hp.sp, hlength]
    bv_omega
  have hword : ∀ address : Word, 16 ≤ address.toNat → changed.word address = full.word address := by
    intro address ha
    rw [hc, word_setAt_high ha, word_setAt_high ha]
  refine ⟨by omega,?_,?_,?_,?_,?_,?_⟩
  · rw [hc, wordAt_setAt, if_neg nofun, wordAt_setAt, if_neg nofun, hfull]
  · rw [hc, wordAt_setAt, if_pos rfl, hfull]
  · have hfive : BitVec.ofInt 16 5 = 5#16 := rfl
    rw [hc, wordAt_setAt, if_neg nofun, wordAt_setAt, if_pos rfl, hfull, BitVec.ofInt_add, hfive]
    bv_omega
  · rw [hword _ hl, hs.words _ hl (by omega), hp.top]
  · intro register hr
    obtain ⟨hne,i,hi,hget,hd⟩ := exists_depth register hr
    have hslot := hs.slots i register hget
    have haddress : wordAt pushed .sp + BitVec.ofNat 16 i = wordAt ram .sp + 5#16 - register.depth := by
      rw [hp.sp, hd]
      bv_omega
    rw [haddress, hp.places register hne] at hslot
    have hhigh : 16 ≤ (wordAt ram .sp + 5#16 - register.depth).toNat := by
      rw [← haddress, BitVec.toNat_add, hsp, BitVec.toNat_ofNat]
      omega
    rw [hword _ hhigh, hslot]
  · intro address ha hlt
    rw [hword _ ha, hs.words address ha (by omega), hp.words address ha]
    rintro rfl
    omega

theorem exists_enter (hl : 16 ≤ (wordAt ram .sp).toNat) (hroom : (wordAt ram .sp).toNat + 5 ≤ 32768) (back : Word)
    (arguments : Int) : ∃ changed, enter back arguments ram = some changed := by
  obtain ⟨pushed,hp⟩ := @exists_push ram (by omega) back
  have hsp : (wordAt pushed .sp).toNat = (wordAt ram .sp).toNat + 1 := by
    rw [(pushed_of_push hl hp).sp]
    bv_omega
  have hlength : savedRegisters.length = 4 := rfl
  obtain ⟨full,hf⟩ := @exists_foldlM_save pushed savedRegisters (by omega) (by omega)
  exact ⟨_,Option.bind_eq_some_iff.mpr ⟨pushed,hp,Option.bind_eq_some_iff.mpr ⟨full,hf,rfl⟩⟩⟩

/-- Registers have been taken back from the words below the frame pointer, the first highest. -/
structure Restored (registers : List Place) (ram changed : Memory) : Prop where
  slots : ∀ i register, registers[i]? = some register →
    wordAt changed register = ram.word (wordAt ram .frame - BitVec.ofNat 16 (i + 1))
  places : ∀ place ∉ registers, place ≠ Place.frame → wordAt changed place = wordAt ram place
  words : ∀ address : Word, 16 ≤ address.toNat → changed.word address = ram.word address

theorem exists_restored {registers : List Place} (hn : registers.Nodup) (hr : Place.frame ∉ registers)
    (hl : 16 + registers.length ≤ (wordAt ram .frame).toNat) (hh : (wordAt ram .frame).toNat ≤ 32768) :
    ∃ changed, registers.foldlM restore ram = some changed ∧ Restored registers ram changed := by
  induction registers generalizing ram with
  | nil => exact ⟨ram,rfl,by simp,fun _ _ _ => rfl,fun _ _ => rfl⟩
  | cons register rest ih =>
    obtain ⟨hregister,hrest⟩ := List.nodup_cons.mp hn
    have hne : register ≠ Place.frame := by
      rintro rfl
      exact hr List.mem_cons_self
    rw [List.length_cons] at hl
    have hslot : (wordAt ram .frame - 1#16).toNat = (wordAt ram .frame).toNat - 1 := by bv_omega
    obtain ⟨taken,ht⟩ : ∃ taken, restore ram register = some taken :=
      ⟨_,restore_eq_some.mpr ⟨isAddress_of_lt (by omega),rfl⟩⟩
    obtain ⟨-,he⟩ := restore_eq_some.mp ht
    rw [word_setAt_high (by omega)] at he
    have hframe : wordAt taken .frame = wordAt ram .frame - 1#16 := by
      rw [he, wordAt_setAt, if_neg hne.symm, wordAt_setAt, if_pos rfl]
    have hword : ∀ address : Word, 16 ≤ address.toNat → taken.word address = ram.word address := by
      intro address ha
      rw [he, word_setAt_high ha, word_setAt_high ha]
    obtain ⟨changed,hc,hrestored⟩ := ih hrest (fun hm => hr (List.mem_cons_of_mem register hm))
      (by rw [hframe]; omega) (by rw [hframe]; omega)
    refine ⟨changed,Option.bind_eq_some_iff.mpr ⟨taken,ht,hc⟩,?_,?_,?_⟩
    · intro i other hi
      cases i with
      | zero =>
        cases hi
        rw [hrestored.places register hregister hne, he, wordAt_setAt, if_pos rfl]
      | succ i =>
        have hlt : i < rest.length := (List.getElem?_eq_some_iff.mp (show rest[i]? = some other from hi)).1
        have haddress : wordAt ram .frame - 1#16 - BitVec.ofNat 16 (i + 1) =
            wordAt ram .frame - BitVec.ofNat 16 (i + 1 + 1) := by
          rw [BitVec.ofNat_add (i + 1) 1]
          bv_omega
        rw [hrestored.slots i other hi, hframe, haddress, hword]
        rw [BitVec.toNat_sub, BitVec.toNat_ofNat]
        omega
    · intro place hp hf
      obtain ⟨hfirst,hothers⟩ := not_or.mp (mt List.mem_cons.mpr hp)
      rw [hrestored.places place hothers hf, he, wordAt_setAt, if_neg hfirst, wordAt_setAt, if_neg hf]
    · intro address ha
      rw [hrestored.words address ha, hword address ha]

/-- A return has handed its word over and has still to give the registers back. -/
structure Handed (ram changed : Memory) : Prop where
  frame : wordAt changed .frame = wordAt ram .lcl
  back : wordAt changed .back = ram.word (wordAt ram .lcl - 5#16)
  sp : wordAt changed .sp = wordAt ram .arg + 1#16
  words : ∀ address : Word, 16 ≤ address.toNat → changed.word address =
    if address = wordAt ram .arg then ram.word (wordAt ram .sp - 1#16) else ram.word address

theorem exists_handed (ha : 16 ≤ (wordAt ram .arg).toNat) (hf : (wordAt ram .arg).toNat + 5 ≤ (wordAt ram .lcl).toNat)
    (hl : (wordAt ram .lcl).toNat + 1 ≤ (wordAt ram .sp).toNat) (hh : (wordAt ram .sp).toNat ≤ 32768) :
    ∃ value popped, pop (setAside ram) = some (value, popped) ∧ (wordAt popped .arg).IsAddress ∧
      Handed ram (handOver popped value) := by
  have hback : (wordAt ram .lcl - 5#16).toNat = (wordAt ram .lcl).toNat - 5 := by bv_omega
  have htop : (wordAt ram .sp - 1#16).toNat = (wordAt ram .sp).toNat - 1 := by bv_omega
  have haddress : (wordAt ram .arg).IsAddress := isAddress_of_lt (by omega)
  -- What is put aside lies below the stack.
  have haside : setAside ram = setAt (setAt ram .frame (wordAt ram .lcl)) .back
      (ram.word (wordAt ram .lcl - 5#16)) := by
    rw [setAside, wordAt_setAt, if_pos rfl, word_setAt_high (by omega)]
  have hplace : ∀ place, place ≠ Place.frame → place ≠ Place.back →
      wordAt (setAside ram) place = wordAt ram place := by
    intro place hframe hback
    rw [haside, wordAt_setAt, if_neg hback, wordAt_setAt, if_neg hframe]
  have hword : ∀ address : Word, 16 ≤ address.toNat → (setAside ram).word address = ram.word address := by
    intro address ha
    rw [haside, word_setAt_high ha, word_setAt_high ha]
  obtain ⟨popped,hp⟩ : ∃ popped, popped = setAt (setAside ram) .sp (wordAt ram .sp - 1#16) := ⟨_,rfl⟩
  have hpop : pop (setAside ram) = some (ram.word (wordAt ram .sp - 1#16), popped) := by
    rw [pop_eq_some, hplace .sp (by simp) (by simp)]
    refine ⟨hp,isAddress_of_lt (by omega),?_⟩
    rw [hp, word_setAt_high (by omega), hword _ (by omega)]
  have harg : wordAt popped .arg = wordAt ram .arg := by
    rw [hp, wordAt_setAt, if_neg (by simp), hplace .arg (by simp) (by simp)]
  have hput := wordAt_put_high haddress ha popped (ram.word (wordAt ram .sp - 1#16))
  refine ⟨_,popped,hpop,harg ▸ haddress,?_,?_,?_,?_⟩
  · rw [handOver, harg, wordAt_setAt, if_neg (by simp), hput, hp, wordAt_setAt, if_neg (by simp), haside, wordAt_setAt,
      if_neg (by simp), wordAt_setAt, if_pos rfl]
  · rw [handOver, harg, wordAt_setAt, if_neg (by simp), hput, hp, wordAt_setAt, if_neg (by simp), haside, wordAt_setAt,
      if_pos rfl]
  · rw [handOver, harg, wordAt_setAt, if_pos rfl, hput, harg]
  · intro address ha
    rw [handOver, harg, word_setAt_high ha, Memory.word_put haddress, hp, word_setAt_high ha, hword address ha]

/-- A return has handed its word over and given the registers back. -/
structure Left (ram changed : Memory) : Prop where
  sp : wordAt changed .sp = wordAt ram .arg + 1#16
  registers : ∀ register ∈ savedRegisters, wordAt changed register = ram.word (wordAt ram .lcl - register.depth)
  value : changed.word (wordAt ram .arg) = ram.word (wordAt ram .sp - 1#16)
  words : ∀ address : Word, 16 ≤ address.toNat → address ≠ wordAt ram .arg → changed.word address = ram.word address

theorem exists_height : ∀ register ∈ savedRegisters, ∃ i < 4,
    savedRegisters.reverse[i]? = some register ∧ register.depth = BitVec.ofNat 16 (i + 1) := by decide

/-- A return whose frame lies above its arguments reads the frame before it writes over any of it. -/
theorem exists_left (ha : 16 ≤ (wordAt ram .arg).toNat) (hf : (wordAt ram .arg).toNat + 5 ≤ (wordAt ram .lcl).toNat)
    (hl : (wordAt ram .lcl).toNat + 1 ≤ (wordAt ram .sp).toNat) (hh : (wordAt ram .sp).toNat ≤ 32768) :
    ∃ changed, leave ram = some (ram.word (wordAt ram .lcl - 5#16), changed) ∧ Left ram changed := by
  obtain ⟨value,popped,hpop,haddress,hhanded⟩ := exists_handed ha hf hl hh
  have hframe := congrArg BitVec.toNat hhanded.frame
  have hlength : savedRegisters.reverse.length = 4 := rfl
  obtain ⟨changed,hc,hr⟩ := @exists_restored (handOver popped value) savedRegisters.reverse (by decide) (by decide)
    (by omega) (by omega)
  have hbound : (wordAt ram .lcl - 5#16).toNat = (wordAt ram .lcl).toNat - 5 := by bv_omega
  have hback : wordAt changed .back = ram.word (wordAt ram .lcl - 5#16) := by
    rw [hr.places .back (by decide) nofun, hhanded.back]
  refine ⟨changed,leave_eq_some.mpr ⟨isAddress_of_lt (by omega),value,popped,hpop,haddress,hc,hback⟩,?_,?_,?_,?_⟩
  · rw [hr.places .sp (by decide) nofun, hhanded.sp]
  · intro register hm
    obtain ⟨i,hi,hget,hd⟩ := exists_height register hm
    have hslot : (wordAt ram .lcl - BitVec.ofNat 16 (i + 1)).toNat = (wordAt ram .lcl).toNat - (i + 1) := by
      rw [BitVec.toNat_sub, BitVec.toNat_ofNat]
      omega
    rw [hr.slots i register hget, hhanded.frame, hhanded.words _ (by omega), if_neg, hd]
    intro he
    have he := congrArg BitVec.toNat he
    omega
  · rw [hr.words _ ha, hhanded.words _ ha, if_pos rfl]
  · intro address hhigh hne
    rw [hr.words _ hhigh, hhanded.words _ hhigh, if_neg hne]

end Frames

/-- One of the five words below the stack of an activation, in which its call has saved what the return needs. -/
def IsSaved (base address : Word) : Prop := address.toNat < base.toNat ∧ base.toNat ≤ address.toNat + 5

/-- A call that has not returned: where its stack and its arguments begin, and what it has saved. -/
structure Frame where
  base : Word
  args : Word
  back : Word
  saved : Place → Word

def Frame.ofCall (back : Word) (arguments : Nat) (ram : Memory) : Frame :=
  ⟨wordAt ram .sp + 5#16, wordAt ram .sp - BitVec.ofNat 16 arguments, back, wordAt ram⟩

structure Frame.Kept (floor : Nat) (ram : Memory) (frame : Frame) : Prop where
  low : floor ≤ frame.args.toNat
  room : frame.args.toNat + 5 ≤ frame.base.toNat
  back : ram.word (frame.base - 5#16) = frame.back
  saved : ∀ register ∈ savedRegisters, ram.word (frame.base - register.depth) = frame.saved register

theorem depth_bounds : ∀ register ∈ savedRegisters, 1 ≤ register.depth.toNat ∧ register.depth.toNat ≤ 4 := by decide

theorem Frame.Kept.of_agree {floor : Nat} {ram changed : Memory} {frame : Frame} (h : frame.Kept floor ram)
    (ha : ∀ address, IsSaved frame.base address → changed.word address = ram.word address) :
    frame.Kept floor changed := by
  have hroom := h.room
  refine ⟨h.low,hroom,?_,?_⟩
  · have hback : (frame.base - 5#16).toNat = frame.base.toNat - 5 := by bv_omega
    rw [ha _ ⟨by omega,by omega⟩, h.back]
  · intro register hr
    obtain ⟨hl,hh⟩ := depth_bounds register hr
    have hslot : (frame.base - register.depth).toNat = frame.base.toNat - register.depth.toNat := by bv_omega
    rw [ha _ ⟨by omega,by omega⟩, h.saved register hr]

/-- The frames of all calls that have not returned, the innermost first.  Each of them is as its call has left it, and
the registers that it has saved belong to the next one. -/
structure Chained (floor : Nat) (ram : Memory) (frames : List Frame) : Prop where
  kept : ∀ frame ∈ frames, frame.Kept floor ram
  apart : frames.Pairwise fun inner outer => outer.base.toNat ≤ inner.args.toNat
  linked : frames.IsChain fun inner outer => inner.saved .lcl = outer.base ∧ inner.saved .arg = outer.args
  top : ∀ frame ∈ frames.head?, wordAt ram .lcl = frame.base ∧ wordAt ram .arg = frame.args ∧
    frame.base.toNat ≤ (wordAt ram .sp).toNat ∧ (wordAt ram .sp).toNat ≤ 32768

namespace Chained

variable {floor : Nat} {ram changed : Memory} {frame : Frame} {frames rest : List Frame}

theorem base_le (h : Chained floor ram (frame :: rest)) : ∀ f ∈ frame :: rest, f.base.toNat ≤ frame.base.toNat := by
  intro f hf
  rcases List.mem_cons.mp hf with rfl | hf
  · exact Nat.le_refl _
  · have hargs := (List.pairwise_cons.mp h.apart).1 f hf
    have hroom := (h.kept frame List.mem_cons_self).room
    omega

theorem floor_le (h : Chained floor ram frames) (hf : frame ∈ frames) {address : Word}
    (hs : IsSaved frame.base address) : floor ≤ address.toNat := by
  have hk := h.kept frame hf
  have hlow := hk.low
  have hroom := hk.room
  obtain ⟨-,hle⟩ := hs
  omega

theorem of_calm (h : Chained floor ram (frame :: rest)) (hfloor : 16 ≤ floor) {target : Option Word}
    (hc : Calm frame.base.toNat target ram changed)
    (ht : ∀ address, target = some address → ∀ f ∈ frame :: rest, ¬IsSaved f.base address) :
    Chained floor changed (frame :: rest) := by
  obtain ⟨hlcl,harg,-,-⟩ := h.top frame rfl
  refine ⟨?_,h.apart,h.linked,?_⟩
  · intro f hf
    refine (h.kept f hf).of_agree ?_
    intro address hs
    have hlow := h.floor_le hf hs
    have hle := h.base_le f hf
    exact hc.words address (by omega) (by have := hs.1; omega) fun he => ht address he f hf hs
  · rintro _ ⟨⟩
    exact ⟨hc.lcl.trans hlcl,hc.arg.trans harg,hc.low,hc.high⟩

theorem enter (h : Chained floor ram frames) (hfloor : 16 ≤ floor) {back : Word} {arguments : Nat}
    (hlow : floor + arguments ≤ (wordAt ram .sp).toNat)
    (hbase : ∀ frame ∈ frames.head?, frame.base.toNat + arguments ≤ (wordAt ram .sp).toNat)
    (he : Entered back arguments ram changed) :
    Chained floor changed (Frame.ofCall back arguments ram :: frames) := by
  have hroom := he.room
  have hargs : (Frame.ofCall back arguments ram).args.toNat = (wordAt ram .sp).toNat - arguments := by
    rw [Frame.ofCall, BitVec.toNat_sub, BitVec.toNat_ofNat]
    omega
  have hstack : (Frame.ofCall back arguments ram).base.toNat = (wordAt ram .sp).toNat + 5 := by
    rw [Frame.ofCall]
    bv_omega
  have hle : ∀ f ∈ frames, f.base.toNat + arguments ≤ (wordAt ram .sp).toNat := by
    intro f hf
    cases frames with
    | nil => cases hf
    | cons first others =>
      have hfirst := hbase first rfl
      have hother := h.base_le f hf
      omega
  refine ⟨?_,?_,?_,?_⟩
  · refine List.forall_mem_cons.mpr ⟨⟨by omega,by omega,?_,he.saved⟩,?_⟩
    · have hslot : (Frame.ofCall back arguments ram).base - 5#16 = wordAt ram .sp := by
        rw [Frame.ofCall]
        bv_omega
      rw [hslot, he.back]
      rfl
    · intro f hf
      refine (h.kept f hf).of_agree ?_
      intro address hs
      have hfl := h.floor_le hf hs
      have hbl := hle f hf
      exact he.words address (by omega) (by have := hs.1; omega)
  · refine List.pairwise_cons.mpr ⟨?_,h.apart⟩
    intro f hf
    have hbl := hle f hf
    omega
  · cases frames with
    | nil => exact List.isChain_singleton _
    | cons first others =>
      obtain ⟨hlcl,harg,-,-⟩ := h.top first rfl
      exact h.linked.cons_cons ⟨hlcl,harg⟩
  · rintro _ ⟨⟩
    have hsp : wordAt changed .sp = (Frame.ofCall back arguments ram).base := he.sp
    refine ⟨he.lcl,?_,?_,?_⟩
    · rw [he.arg, BitVec.ofInt_natCast]
      rfl
    · rw [hsp]
    · rw [hsp, hstack]
      exact hroom

/-- A return finds its frame as the call has left it, and takes it off the chain. -/
theorem leave (h : Chained floor ram (frame :: rest)) (hfloor : 16 ≤ floor)
    (hl : frame.base.toNat + 1 ≤ (wordAt ram .sp).toNat) :
    ∃ changed, Vm.leave ram = some (frame.back, changed) ∧ Left ram changed ∧ Chained floor changed rest := by
  obtain ⟨hlcl,harg,-,hhigh⟩ := h.top frame rfl
  have hk := h.kept frame List.mem_cons_self
  have hlow := hk.low
  have hroom := hk.room
  obtain ⟨changed,hc,hleft⟩ := @exists_left ram (by rw [harg]; omega) (by rw [harg, hlcl]; omega)
    (by rw [hlcl]; omega) hhigh
  rw [hlcl, hk.back] at hc
  obtain ⟨hargs,hapart⟩ := List.pairwise_cons.mp h.apart
  refine ⟨changed,hc,hleft,?_,hapart,h.linked.tail,?_⟩
  · intro f hf
    refine (h.kept f (List.mem_cons_of_mem frame hf)).of_agree ?_
    intro address hs
    have hfl := h.floor_le (List.mem_cons_of_mem frame hf) hs
    have hbelow := hargs f hf
    refine hleft.words address (by omega) ?_
    rintro rfl
    have := hs.1
    rw [harg] at this
    omega
  · cases rest with
    | nil => nofun
    | cons outer others =>
      rintro _ ⟨⟩
      obtain ⟨hl,ha⟩ := (List.isChain_cons_cons.mp h.linked).1
      have hbelow := hargs outer List.mem_cons_self
      have hsp : (wordAt changed .sp).toNat = frame.args.toNat + 1 := by
        rw [hleft.sp, harg]
        bv_omega
      refine ⟨?_,?_,by omega,by omega⟩
      · rw [hleft.registers .lcl (by decide), hlcl, hk.saved .lcl (by decide), hl]
      · rw [hleft.registers .arg (by decide), hlcl, hk.saved .arg (by decide), ha]

end Chained

end HackToolchain.Vm
