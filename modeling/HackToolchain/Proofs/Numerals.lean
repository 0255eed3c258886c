import Mathlib.Algebra.Ring.Nat
import Mathlib.Data.List.ReduceOption
import Mathlib.Data.List.TakeWhile
import Mathlib.Tactic.Common
import HackToolchain.Asm.Symbol
import HackToolchain.Proofs.Tokens
import HackToolchain.Text.Numeral

/-! # Numerals

A row of decimal digits of any scripts denotes one number and is read as that number, as long as there are not too many
of them; so the digits that a number is printed with are read back.  A number whose numeral is short can be printed
even with a little added to it.  No symbol of assembly code looks like a numeral, since none starts with a digit.
-/
namespace HackToolchain.Text

theorem decimalValue?_digitChar {digit : Nat} (h : digit < 10) : decimalValue? digit.digitChar = some digit := by
  revert digit
  decide

theorem ofDigits_append_singleton (digits : List Nat) (digit : Nat) :
    ofDigits (digits ++ [digit]) = 10 * ofDigits digits + digit := by
  simp [ofDigits]

/-- Printing a number gives digits whose values denote it. -/
theorem toDigits_values (n : Nat) :
    ∃ digits, (Nat.toDigits 10 n).map decimalValue? = digits.map some ∧ ofDigits digits = n := by
  induction n using Nat.strongRecOn with
  | _ n ih =>
    by_cases hn : n < 10
    · refine ⟨[n],?_,by simp [ofDigits]⟩
      rw [Nat.toDigits_of_lt_base hn]
      simp [decimalValue?_digitChar hn]
    · obtain ⟨digits,hd,hv⟩ := ih (n / 10) (by omega)
      refine ⟨digits ++ [n % 10],?_,?_⟩
      · rw [Nat.toDigits_of_base_le (by omega) (by omega), List.map_append, hd]
        simp [decimalValue?_digitChar (Nat.mod_lt n (by omega : 0 < 10))]
      · rw [ofDigits_append_singleton, hv]
        omega

theorem takeWhile_isSome_map_some {α : Type} (xs : List α) : (xs.map some).takeWhile Option.isSome = xs.map some := by
  induction xs with
  | nil => rfl
  | cons x rest ih => simp [ih]

theorem decimal_toDigits (n : Nat) : decimal (Nat.toDigits 10 n) =
    if maxNumeralDigits < (Nat.toDigits 10 n).length then .error (.tooManyDigits (Nat.toDigits 10 n).length)
    else .ok n := by
  obtain ⟨digits,hd,hv⟩ := toDigits_values n
  have hl : digits.length = (Nat.toDigits 10 n).length := by simpa using (congrArg List.length hd).symm
  have hne : (Nat.toDigits 10 n).isEmpty = false := by simp [Nat.toDigits_ne_nil]
  have hr : (digits.map some).reduceOption = digits := by simp [List.reduceOption]
  simp only [decimal, hd, takeWhile_isSome_map_some, List.length_map, hl, hr, hv, hne]
  simp

theorem eq_of_decimal_toDigits {n value : Nat} (h : decimal (Nat.toDigits 10 n) = .ok value) : value = n := by
  rw [decimal_toDigits] at h
  split at h
  · cases h
  · exact (Except.ok.inj h).symm

theorem isDigit_of_mem_toDigits {n : Nat} {c : Char} (h : c ∈ Nat.toDigits 10 n) : isDigit c = true := by
  obtain ⟨digits,hd,_⟩ := toDigits_values n
  have hm : decimalValue? c ∈ digits.map some := hd ▸ List.mem_map_of_mem h
  obtain ⟨value,_,hv⟩ := List.mem_map.mp hm
  simp [isDigit, ← hv]

theorem toDigits_all_isDigit (n : Nat) : (Nat.toDigits 10 n).all isDigit = true :=
  List.all_eq_true.mpr fun _ h => isDigit_of_mem_toDigits h

/-- Below the second block of digits only the ten ASCII digits are digits. -/
theorem isDigit_of_ascii {c : Char} (hc : c.toNat < 0x80) (hd : ¬(0x30 ≤ c.toNat ∧ c.toNat < 0x3A)) :
    isDigit c = false := by
  have hv : decimalValue? c = none := by
    rw [decimalValue?, Option.map_eq_none_iff, List.find?_eq_none]
    intro base hbase
    have hb : base = 0x30 ∨ 0x80 ≤ base := by
      revert base
      decide
    simp only [Bool.and_eq_true, decide_eq_true_eq]
    omega
  rw [isDigit, hv, Option.isSome_none, Bool.false_or, List.any_eq_false]
  rintro ⟨low,high⟩ hrange
  have hl : ∀ range ∈ ornamentalDigits, 0x80 ≤ range.1 := by decide
  have := hl _ hrange
  simp only [Bool.and_eq_true, decide_eq_true_eq]
  omega

/-- A row of decimal digits of any scripts, and the number that it denotes. -/
def Denotes (text : List Char) (value : Nat) : Prop :=
  ∃ digits, digits ≠ [] ∧ text.map decimalValue? = digits.map some ∧ ofDigits digits = value

theorem map_some_reduceOption {α : Type} {xs : List (Option α)} (h : ∀ x ∈ xs, x.isSome = true) :
    xs.reduceOption.map some = xs := by
  induction xs with
  | nil => rfl
  | cons x rest ih =>
    obtain ⟨hx,hr⟩ := List.forall_mem_cons.mp h
    obtain ⟨y,rfl⟩ := Option.isSome_iff_exists.mp hx
    rw [List.reduceOption_cons_of_some, List.map_cons, ih hr]

theorem decimal_eq_ok {text : List Char} {value : Nat} :
    decimal text = .ok value ↔ text.length ≤ maxNumeralDigits ∧ Denotes text value := by
  constructor
  · intro h
    simp only [decimal] at h
    split at h
    next => cases h
    next hmax =>
      split at h
      next => cases h
      next hwhole =>
        simp only [Bool.or_eq_true, decide_eq_true_eq, not_or, Nat.not_lt] at hwhole
        have hall : (text.map decimalValue?).takeWhile Option.isSome = text.map decimalValue? :=
          (List.takeWhile_prefix _).eq_of_length_le (by simpa using hwhole.1)
        rw [hall, List.length_map] at hmax
        rw [hall] at h
        rw [List.takeWhile_eq_self_iff] at hall
        have hd := map_some_reduceOption hall
        refine ⟨Nat.le_of_not_lt hmax,_,?_,hd.symm,Except.ok.inj h⟩
        intro hnil
        rw [hnil] at hd
        simp [List.map_eq_nil_iff.mp hd.symm] at hwhole
  · rintro ⟨hmax,digits,hne,hd,rfl⟩
    have hl : digits.length = text.length := by simpa using (congrArg List.length hd).symm
    have hr : (digits.map some).reduceOption = digits := by simp [List.reduceOption]
    have hempty : text.isEmpty = false := by
      cases text with
      | nil => simp_all
      | cons c rest => rfl
    simp only [decimal, hd, takeWhile_isSome_map_some, List.length_map, hl, hr, hempty]
    simp [Nat.not_lt.mpr hmax]

theorem Denotes.all_isDigit {text : List Char} {value : Nat} (h : Denotes text value) :
    (!text.isEmpty && text.all isDigit) = true := by
  obtain ⟨digits,hne,hd,-⟩ := h
  rw [Bool.and_eq_true, List.all_eq_true]
  constructor
  · cases text with
    | nil => simp_all
    | cons c rest => rfl
  · intro c hc
    have hm : decimalValue? c ∈ digits.map some := hd ▸ List.mem_map_of_mem hc
    obtain ⟨value,-,hv⟩ := List.mem_map.mp hm
    simp [isDigit, ← hv]

theorem lt_of_decimalValue? {c : Char} {digit : Nat} (h : decimalValue? c = some digit) : digit < 10 := by
  obtain ⟨base,hb,rfl⟩ := Option.map_eq_some_iff.mp h
  have hc := List.find?_some hb
  simp only [Bool.and_eq_true, decide_eq_true_eq] at hc
  omega

theorem ofDigits_lt_pow {digits : List Nat} (h : ∀ digit ∈ digits, digit < 10) :
    ofDigits digits < 10 ^ digits.length := by
  induction digits using List.reverseRecOn with
  | nil => simp [ofDigits]
  | append_singleton digits digit ih =>
    have hrest := ih fun other hm => h other (List.mem_append_left _ hm)
    have hlast := h digit (by simp)
    rw [ofDigits_append_singleton, List.length_append, List.length_singleton, Nat.pow_succ]
    omega

theorem Denotes.lt_pow {text : List Char} {value : Nat} (h : Denotes text value) : value < 10 ^ text.length := by
  obtain ⟨digits,-,hd,rfl⟩ := h
  have hl : text.length = digits.length := by simpa using congrArg List.length hd
  rw [hl]
  refine ofDigits_lt_pow fun digit hm => ?_
  have hsome : some digit ∈ text.map decimalValue? := hd ▸ List.mem_map_of_mem hm
  obtain ⟨c,-,hc⟩ := List.mem_map.mp hsome
  exact lt_of_decimalValue? hc

theorem lt_of_groupedDigits {text : List Char} {digits : List Nat} (h : groupedDigits text = some digits) :
    ∀ digit ∈ digits, digit < 10 := by
  fun_induction groupedDigits text generalizing digits with
  | case1 => cases h
  | case2 c =>
    obtain ⟨first,hc,rfl⟩ := Option.map_eq_some_iff.mp h
    simpa using lt_of_decimalValue? hc
  | case3 c rest ih =>
    simp only [Option.pure_def, Option.bind_eq_bind, Option.bind_eq_some_iff, Option.some.injEq] at h
    obtain ⟨first,hc,others,hr,rfl⟩ := h
    exact List.forall_mem_cons.mpr ⟨lt_of_decimalValue? hc,ih hr⟩
  | case4 c d rest hd ih =>
    simp only [Option.pure_def, Option.bind_eq_bind, Option.bind_eq_some_iff, Option.some.injEq] at h
    obtain ⟨first,hc,others,hr,rfl⟩ := h
    exact List.forall_mem_cons.mpr ⟨lt_of_decimalValue? hc,ih hr⟩

theorem decimalValue?_of_isAsciiDigit {c : Char} (h : isAsciiDigit c = true) :
    decimalValue? c = some (c.toNat - '0'.toNat) := by
  simp only [isAsciiDigit, Bool.and_eq_true, decide_eq_true_eq, Char.le_def, UInt32.le_iff_toNat_le] at h
  change 0x30 ≤ c.toNat ∧ c.toNat ≤ 0x39 at h
  have hfirst : decimalZeros.find? (fun base => base ≤ c.toNat && c.toNat < base + 10) = some 0x30 :=
    List.find?_cons_of_pos (by simp; omega)
  rw [decimalValue?, hfirst]
  rfl

/-- A row of ASCII digits is read as the number it is in base ten, unless it is too long. -/
theorem decimal_of_isAsciiDigit {text : List Char} (hne : text ≠ []) (hd : text.all isAsciiDigit = true)
    (hmax : text.length ≤ maxNumeralDigits) : decimal text = .ok (Nat.ofDigitChars 10 text 0) := by
  refine decimal_eq_ok.mpr ⟨hmax,text.map fun c => c.toNat - '0'.toNat,by simpa using hne,?_,?_⟩
  · rw [List.map_map]
    apply List.map_congr_left
    intro c hc
    exact decimalValue?_of_isAsciiDigit (List.all_eq_true.mp hd c hc)
  · rw [ofDigits, Nat.ofDigitChars_eq_foldl, List.foldl_map]

/-- A number with fewer digits than the longest numeral. -/
def IsShort (n : Nat) : Prop := ∃ digits < maxNumeralDigits, n < 10 ^ digits

theorem isShort_zero : IsShort 0 := ⟨0,by decide,by decide⟩

theorem isPrintableInteger_of_lt {n digits : Nat} (hd : digits ≤ maxNumeralDigits) (hn : n < 10 ^ digits) :
    isPrintableInteger n = true := by
  have hlt : n < 10 ^ maxNumeralDigits := Nat.lt_of_lt_of_le hn (Nat.pow_le_pow_right (by decide) hd)
  simp only [isPrintableInteger, Int.natAbs_natCast, Nat.pow_eq, hlt, decide_true]

theorem isPrintableInteger_of_natural? {text : List Char} {n : Nat} (h : natural? text = some n) :
    isPrintableInteger n = true := by
  obtain ⟨digits,hd,h⟩ := Option.bind_eq_some_iff.mp h
  split at h
  next => cases h
  next hmax =>
    cases h
    exact isPrintableInteger_of_lt (Nat.le_of_not_lt hmax) (ofDigits_lt_pow (lt_of_groupedDigits hd))

/-- An integer that can be read can be printed. -/
theorem isPrintableInteger_of_integer? {text : String} {value : Int} (h : integer? text = some value) :
    isPrintableInteger value = true := by
  unfold integer? at h
  split at h
  all_goals obtain ⟨n,hn,rfl⟩ := Option.map_eq_some_iff.mp h
  · obtain ⟨m,hm,he⟩ := Option.bind_eq_some_iff.mp hn
    cases he
    rw [isPrintableInteger, Int.natAbs_neg]
    exact isPrintableInteger_of_natural? hm
  · exact isPrintableInteger_of_natural? hn
  · exact isPrintableInteger_of_natural? hn

/-- A short number can still be printed when a little is added to it. -/
theorem IsShort.isPrintableInteger_add {n : Nat} (h : IsShort n) {k : Nat} (hk : k < 10) :
    isPrintableInteger (n + k) = true := by
  obtain ⟨digits,hd,hn⟩ := h
  have hle : 10 ^ (digits + 1) ≤ 10 ^ maxNumeralDigits := Nat.pow_le_pow_right (by decide) hd
  have hsucc : 10 ^ (digits + 1) = 10 ^ digits * 10 := Nat.pow_succ 10 digits
  have hlt : n + k < 10 ^ maxNumeralDigits := by omega
  have habs : ((n : Int) + k).natAbs = n + k := by omega
  simp only [isPrintableInteger, habs, Nat.pow_eq, hlt, decide_true]

theorem IsShort.isPrintableInteger {n : Nat} (h : IsShort n) : isPrintableInteger n = true := by
  have hp := h.isPrintableInteger_add (by decide : 0 < 10)
  rwa [Int.natCast_zero, Int.add_zero] at hp

end HackToolchain.Text

namespace HackToolchain.Asm

open Text (isBlank isDigit IsToken)

theorem toNat_of_isSymbolStart {c : Char} (h : isSymbolStart c = true) :
    0x20 < c.toNat ∧ c.toNat < 0x80 ∧ ¬(0x30 ≤ c.toNat ∧ c.toNat < 0x3A) ∧ c ≠ '/' := by
  have hslash : c = '/' → c.toNat = 0x2F := fun he => he ▸ rfl
  simp only [isSymbolStart, isAsciiLetter, isSymbolMark, Bool.or_eq_true, Bool.and_eq_true, decide_eq_true_eq,
    beq_iff_eq, Char.le_def, UInt32.le_iff_toNat_le] at h
  rcases h with (h | h) | ((rfl | rfl) | rfl) | rfl
  · change 0x41 ≤ c.toNat ∧ c.toNat ≤ 0x5A at h
    exact ⟨by omega,by omega,by omega,fun he => by have := hslash he; omega⟩
  · change 0x61 ≤ c.toNat ∧ c.toNat ≤ 0x7A at h
    exact ⟨by omega,by omega,by omega,fun he => by have := hslash he; omega⟩
  all_goals decide

theorem toNat_of_isSymbolChar {c : Char} (h : isSymbolChar c = true) :
    0x20 < c.toNat ∧ c.toNat < 0x80 ∧ c ≠ '/' := by
  rcases Bool.or_eq_true_iff.mp h with h | h
  · obtain ⟨hl,hu,_,hs⟩ := toNat_of_isSymbolStart h
    exact ⟨hl,hu,hs⟩
  · simp only [Bool.and_eq_true, decide_eq_true_eq, Char.le_def, UInt32.le_iff_toNat_le] at h
    change 0x30 ≤ c.toNat ∧ c.toNat ≤ 0x39 at h
    refine ⟨by omega,by omega,?_⟩
    rintro rfl
    revert h
    decide

theorem isBlank_of_isSymbolChar {c : Char} (h : isSymbolChar c = true) : isBlank c = false := by
  obtain ⟨hl,hu,_⟩ := toNat_of_isSymbolChar h
  rw [← Bool.not_eq_true]
  simp only [isBlank, Bool.or_eq_true, Bool.and_eq_true, decide_eq_true_eq, beq_iff_eq]
  omega

theorem isSymbol_forall {cs : List Char} (h : isSymbol cs = true) : ∀ c ∈ cs, isSymbolChar c = true := by
  cases cs with
  | nil => simp
  | cons d rest =>
    simp only [isSymbol, Bool.and_eq_true, List.all_eq_true] at h
    intro c hc
    rcases List.mem_cons.mp hc with rfl | hc
    · simp [isSymbolChar, h.1]
    · exact h.2 c hc

theorem isToken_of_isSymbol {cs : List Char} (h : isSymbol cs = true) : IsToken cs := by
  apply Text.isToken_of_forall
  intro c hc
  have hs := isSymbol_forall h c hc
  exact ⟨isBlank_of_isSymbolChar hs,(toNat_of_isSymbolChar hs).2.2⟩

/-- The first character of a symbol tells it from a numeral. -/
theorem all_isDigit_of_isSymbol {cs : List Char} (h : isSymbol cs = true) : cs.all isDigit = false := by
  cases cs with
  | nil => simp [isSymbol] at h
  | cons c rest =>
    simp only [isSymbol, Bool.and_eq_true] at h
    obtain ⟨_,hu,hd,_⟩ := toNat_of_isSymbolStart h.1
    simp [Text.isDigit_of_ascii hu hd]

theorem isSymbolChar_of_mem_toDigits {n : Nat} {c : Char} (h : c ∈ Nat.toDigits 10 n) : isSymbolChar c = true := by
  have hd := Nat.isDigit_of_mem_toDigits (by decide) (by decide) h
  simp only [Char.isDigit, Bool.and_eq_true, decide_eq_true_eq] at hd
  simp only [isSymbolChar, Bool.or_eq_true, Bool.and_eq_true, decide_eq_true_eq, Char.le_def]
  exact Or.inr hd

theorem isSymbol_append {xs ys : List Char} (hx : isSymbol xs = true) (hy : ∀ c ∈ ys, isSymbolChar c = true) :
    isSymbol (xs ++ ys) = true := by
  cases xs with
  | nil => simp [isSymbol] at hx
  | cons c rest =>
    simp only [isSymbol, Bool.and_eq_true, List.all_eq_true] at hx
    simp only [List.cons_append, isSymbol, Bool.and_eq_true, List.all_eq_true]
    refine ⟨hx.1,?_⟩
    intro d hd
    rcases List.mem_append.mp hd with hd | hd
    · exact hx.2 d hd
    · exact hy d hd

end HackToolchain.Asm
