import HackToolchain.Proofs.Addresses
import HackToolchain.Proofs.Assembling
import HackToolchain.Proofs.Spelling

/-! # The line at fault

What can be wrong with a line of assembly code is said here without the assembler.  A label can be wrong by itself or
after the lines before it, any other line only by itself.  The first pass stops at the first label that is wrong, the
second pass at the first other line.  Every failure tells the place of its line, but for numerals that are no numbers:
there are digits without a decimal value, and numerals that are too long.
-/
namespace HackToolchain.Text

/-- Digits that are refused as a numeral: those with a decimal value at the beginning are too many, or some digit has
none. -/
inductive IsRefused (digits : List Char) : NumeralFault → Prop
  | tooLong (lead rest : List Char) : digits = lead ++ rest → (∀ c ∈ lead, (decimalValue? c).isSome = true) →
      (∀ c ∈ rest.head?, decimalValue? c = none) → maxNumeralDigits < lead.length →
      IsRefused digits (.tooManyDigits lead.length)
  | valueless (lead rest : List Char) (c : Char) : digits = lead ++ c :: rest →
      (∀ c ∈ lead, (decimalValue? c).isSome = true) → decimalValue? c = none → lead.length ≤ maxNumeralDigits →
      IsRefused digits (.notANumeral (String.ofList digits))

theorem takeWhile_map_decimalValue? (text : List Char) :
    ((text.map decimalValue?).takeWhile Option.isSome).length =
      (text.takeWhile fun c => (decimalValue? c).isSome).length := by
  rw [List.takeWhile_map, List.length_map]
  rfl

theorem takeWhile_append_of_head {p : Char → Bool} {lead rest : List Char} (hl : ∀ c ∈ lead, p c = true)
    (hr : ∀ c ∈ rest.head?, p c = false) : (lead ++ rest).takeWhile p = lead := by
  rw [List.takeWhile_append_of_pos hl]
  cases rest with
  | nil => simp
  | cons c rest => simp [hr c (by simp)]

theorem exists_lead (p : Char → Bool) (text : List Char) : ∃ lead rest, text = lead ++ rest ∧
    (∀ c ∈ lead, p c = true) ∧ ∀ c ∈ rest.head?, p c = false := by
  refine ⟨text.takeWhile p,text.dropWhile p,List.takeWhile_append_dropWhile.symm,?_,?_⟩
  · exact fun c hc => List.all_eq_true.mp List.all_takeWhile c hc
  · intro c hc
    have hhead := List.head?_dropWhile_not p text
    rw [Option.mem_def.mp hc] at hhead
    simpa using hhead

theorem decimal_eq_error {text : List Char} (hne : text ≠ []) {fault : NumeralFault} :
    decimal text = .error fault ↔ IsRefused text fault := by
  have hempty : text.isEmpty = false := by simpa using hne
  simp only [decimal, takeWhile_map_decimalValue?, hempty, Bool.or_false]
  constructor
  · intro h
    obtain ⟨lead,rest,htext,hl,hr⟩ := exists_lead (fun c => (decimalValue? c).isSome) text
    rw [htext, takeWhile_append_of_head hl hr] at h
    split at h
    next hmax =>
      cases h
      exact .tooLong lead rest htext hl (by simpa using hr) hmax
    next hmax =>
      split at h
      next hshort =>
        cases h
        obtain ⟨c,rest,rfl⟩ := List.exists_cons_of_ne_nil (fun he => by simp [he] at hshort : rest ≠ [])
        rw [← htext]
        exact .valueless lead rest c htext hl (by simpa using hr) (Nat.le_of_not_lt hmax)
      next => cases h
  · rintro (⟨lead,rest,rfl,hl,hr,hmax⟩ | ⟨lead,rest,c,rfl,hl,hc,hmax⟩)
    · rw [takeWhile_append_of_head hl (by simpa using hr), if_pos hmax]
    · rw [takeWhile_append_of_head hl (by simpa using hc), if_neg (by omega), if_pos (by simp)]

end HackToolchain.Text

namespace HackToolchain.Asm

open Outcome (NoneFails FirstFails)
open Text (Denotes IsRefused maxNumeralDigits)

def IsComputation (text : List Char) : Prop := ∃ comp : Comp, comp.isListed = true ∧ text = comp.chars

/-- Letters that name registers in any order, each of them once. -/
def IsDestination (text : List Char) : Prop :=
  ∃ registers : List Register, registers ≠ [] ∧ registers.Nodup ∧ text = registers.map Register.char

def IsJump (text : List Char) : Prop := ∃ jump : Jump, text = jump.chars

/-- What is wrong with the parts of a text that spells no instruction. -/
inductive IsMisspelled (text : List Char) : AsmFault → Prop
  | computation (dest : Option (List Char)) (comp : List Char) (jump : Option (List Char)) :
      Compute.parts text = (dest, comp, jump) → ¬IsComputation comp →
      IsMisspelled text (.unknownComputation (String.ofList comp))
  | destination (letters comp : List Char) (jump : Option (List Char)) :
      Compute.parts text = (some letters, comp, jump) → IsComputation comp → ¬IsDestination letters →
      IsMisspelled text (.invalidDestination (String.ofList letters))
  | jump (dest : Option (List Char)) (comp letters : List Char) :
      Compute.parts text = (dest, comp, some letters) → IsComputation comp → (∀ text ∈ dest, IsDestination text) →
      ¬IsJump letters → IsMisspelled text (.unknownJump (String.ofList letters))

section Spelling

theorem Comp.ofChars?_eq_none {text : List Char} : ofChars? text = none ↔ ¬IsComputation text := by
  constructor
  · rintro h ⟨comp,hl,rfl⟩
    rw [Comp.ofChars?_chars, if_pos hl] at h
    cases h
  · intro h
    rw [Option.eq_none_iff_forall_ne_some]
    exact fun comp hc => h ⟨comp,Comp.eq_of_ofChars? hc⟩

theorem Compute.destination?_eq_none {text : Option (List Char)} :
    destination? text = none ↔ ∃ letters, text = some letters ∧ ¬IsDestination letters := by
  cases text with
  | none => simp [destination?]
  | some letters =>
    simp only [Option.some.injEq, exists_eq_left']
    constructor
    · rintro h ⟨registers,hne,hnodup,rfl⟩
      have hsome := destination?_eq_some.mpr ⟨registers,hnodup,rfl,(if_neg hne).symm⟩
      cases h.symm.trans hsome
    · intro h
      rw [Option.eq_none_iff_forall_ne_some]
      intro dest hd
      obtain ⟨registers,hnodup,-,ht⟩ := destination?_eq_some.mp hd
      split at ht
      next => cases ht
      next hne => exact h ⟨registers,hne,hnodup,Option.some.inj ht⟩

theorem Compute.jump?_eq_none {text : Option (List Char)} :
    jump? text = none ↔ ∃ letters, text = some letters ∧ ¬IsJump letters := by
  cases text with
  | none => simp [jump?]
  | some letters =>
    simp only [Option.some.injEq, exists_eq_left']
    constructor
    · rintro h ⟨jump,rfl⟩
      cases h.symm.trans (jump?_eq_some.mpr rfl : _ = some (some jump))
    · intro h
      rw [Option.eq_none_iff_forall_ne_some]
      intro jump hj
      have ht := jump?_eq_some.mp hj
      cases jump with
      | none => cases ht
      | some jump => exact h ⟨jump,Option.some.inj ht⟩

theorem Compute.parse_eq_error {text : List Char} {fault : AsmFault} :
    parse text = .error fault ↔ IsMisspelled text fault := by
  cases hparts : parts text with
  | mk dest rest =>
    obtain ⟨comp,jump⟩ := rest
    simp only [parse, hparts]
    constructor
    · intro h
      split at h
      next hc =>
        cases h
        exact .computation dest comp jump hparts (Comp.ofChars?_eq_none.mp hc)
      next hc hd =>
        cases h
        obtain ⟨letters,rfl,hn⟩ := destination?_eq_none.mp hd
        exact .destination letters comp jump hparts ⟨_,Comp.eq_of_ofChars? hc⟩ hn
      next hc hd hj =>
        cases h
        obtain ⟨letters,rfl,hn⟩ := jump?_eq_none.mp hj
        refine .jump dest comp letters hparts ⟨_,Comp.eq_of_ofChars? hc⟩ ?_ hn
        rintro letters ⟨⟩
        by_contra hbad
        cases hd.symm.trans (destination?_eq_none.mpr ⟨letters,rfl,hbad⟩)
      next => cases h
    · intro h
      cases h with
      | computation _ _ _ hp hc =>
        cases hparts.symm.trans hp
        rw [Comp.ofChars?_eq_none.mpr hc]
      | destination letters _ _ hp hc hn =>
        cases hparts.symm.trans hp
        obtain ⟨other,hl,rfl⟩ := hc
        rw [Comp.ofChars?_chars, if_pos hl, destination?_eq_none.mpr ⟨letters,rfl,hn⟩]
        rfl
      | jump _ _ letters hp hc hd hn =>
        cases hparts.symm.trans hp
        obtain ⟨other,hl,rfl⟩ := hc
        have hdest : destination? dest ≠ none := by
          intro hnone
          obtain ⟨text,rfl,hbad⟩ := destination?_eq_none.mp hnone
          exact hbad (hd text rfl)
        obtain ⟨found,hfound⟩ := Option.ne_none_iff_exists'.mp hdest
        rw [Comp.ofChars?_chars, if_pos hl, hfound, jump?_eq_none.mpr ⟨letters,rfl,hn⟩]
        rfl

end Spelling

/-- A label that is no name in parentheses, or no symbol, or that is predefined or marked before. -/
inductive LabelFails (before : List SourceLine) (line : SourceLine) : Failure → Prop
  | malformed : line.isLabel = true → (∀ name, line.marks name → name = "") →
      LabelFails before line (line.fail .malformedLabel)
  | invalid (name : String) : line.marks name → name ≠ "" → isSymbol name.toList = false →
      LabelFails before line (line.fail (.invalidLabel name))
  | predefined (name : String) (address : Nat) : line.marks name →
      (name, address) ∈ SymbolTable.predefinedEntries → LabelFails before line (line.fail (.duplicateLabel name address))
  | repeated (name : String) (first : SourceLine) (xs ys : List SourceLine) : line.marks name →
      isSymbol name.toList = true → before = xs ++ first :: ys → first.marks name →
      LabelFails before line (line.fail (.duplicateLabel name (instructionCount xs)))

/-- A line that is no label and no instruction. -/
inductive InstructionFails (line : SourceLine) : Failure → Prop
  | numeral (digits : List Char) (fault : Text.NumeralFault) : line.text = '@' :: digits → digits ≠ [] →
      digits.all Text.isDigit = true → IsRefused digits fault → InstructionFails line (.numeral fault)
  | tooLarge (digits : List Char) (value : Nat) : line.text = '@' :: digits → digits.length ≤ maxNumeralDigits →
      Denotes digits value → largestLoad < value → InstructionFails line (line.fail (.constantOutOfRange value))
  | noSymbol (operand : List Char) : line.text = '@' :: operand → (operand = [] ∨ operand.all Text.isDigit = false) →
      isSymbol operand = false → InstructionFails line (line.fail (.invalidSymbol (String.ofList operand)))
  | misspelled (fault : AsmFault) : line.isLabel = false → line.isLoad = false → IsMisspelled line.text fault →
      InstructionFails line (line.fail fault)

section Steps

variable {line : SourceLine} {failure : Failure}

theorem SourceLine.text_of_isLoad (h : line.isLoad = true) : line.text = '@' :: line.text.drop 1 := by
  have hhead : line.text.head? = some '@' := by simpa [SourceLine.isLoad] using h
  obtain ⟨rest,hrest⟩ := List.head?_eq_some_iff.mp hhead
  rw [hrest]
  rfl

theorem SourceLine.exists_marks_iff (hl : line.isLabel = true) : (∃ name, line.marks name ∧ name ≠ "") ↔
    (decide (line.text.length < 3) || line.text.getLast? != some ')') = false := by
  have hhead : line.text.head? = some '(' := by simpa [SourceLine.isLabel] using hl
  obtain ⟨rest,hrest⟩ := List.head?_eq_some_iff.mp hhead
  simp only [SourceLine.marks, hrest, List.cons.injEq, true_and]
  rcases List.eq_nil_or_concat' rest with rfl | ⟨inner,last,rfl⟩
  · simp
  · have hget : ('(' :: (inner ++ [last])).getLast? = some last := by rw [← List.cons_append, List.getLast?_concat]
    simp only [hget, List.length_cons, List.length_append, List.length_nil, Bool.or_eq_false_iff,
      decide_eq_false_iff_not, bne_eq_false_iff_eq, Option.some.injEq]
    constructor
    · rintro ⟨name,he,hne⟩
      obtain ⟨rfl,hlast⟩ := List.append_inj' he rfl
      have hlength : 0 < name.toList.length := List.length_pos_iff.mpr (by simpa using hne)
      exact ⟨by omega,List.singleton_inj.mp hlast⟩
    · rintro ⟨hlength,rfl⟩
      refine ⟨String.ofList inner,by rw [String.toList_ofList],?_⟩
      rintro hempty
      have hinner : inner = [] := by simpa using hempty
      simp [hinner] at hlength

theorem SourceLine.labelName_of_marks {name : String} (h : line.marks name) (hne : name ≠ "") :
    line.labelName = if isSymbol name.toList then .ok name else .error (.invalidLabel name) := by
  have hshape := (SourceLine.exists_marks_iff h.isLabel).mp ⟨name,h,hne⟩
  have hd : (line.text.drop 1).dropLast = name.toList := by
    rw [h]
    simp
  rw [SourceLine.labelName, hshape, hd]
  simp

theorem SourceLine.labelName_of_not_marks (hl : line.isLabel = true) (h : ∀ name, line.marks name → name = "") :
    line.labelName = .error .malformedLabel := by
  rw [SourceLine.labelName, if_pos]
  by_contra hshape
  obtain ⟨name,hm,hne⟩ := (SourceLine.exists_marks_iff hl).mpr (Bool.eq_false_iff.mpr hshape)
  exact hne (h name hm)

theorem isSymbol_of_predefined {name : String} {address : Nat} (h : (name, address) ∈ SymbolTable.predefinedEntries) :
    isSymbol name.toList = true := by
  have hall : ∀ entry ∈ SymbolTable.predefinedEntries, isSymbol entry.1.toList = true := by decide +kernel
  exact hall _ h

/-- The first pass stops at a label that is wrong after the lines before it. -/
theorem Labels.add_fails {before : List SourceLine} {labels : Labels}
    (hp : Labels.Passed ⟨.predefined,0⟩ before labels) :
    (∃ table, labels.add line = .error (table, failure)) ↔ LabelFails before line failure := by
  -- The table holds what is predefined and the labels before, and each name once.
  have hget : ∀ name address, labels.symbols.get? name = some address ↔
      (name, address) ∈ SymbolTable.predefinedEntries ++ labelEntries 0 before := by
    intro name address
    rw [SymbolTable.get?_eq_some_iff hp.nodup, hp.entries, SymbolTable.entries_predefined]
  unfold Labels.add
  constructor
  · rintro ⟨table,h⟩
    split at h
    next hl =>
      by_cases hmarks : ∃ name, line.marks name ∧ name ≠ ""
      · obtain ⟨name,hm,hne⟩ := hmarks
        rw [SourceLine.labelName_of_marks hm hne] at h
        cases hs : isSymbol name.toList with
        | false =>
          simp only [hs, Bool.false_eq_true, if_false] at h
          cases h
          exact .invalid name hm hne hs
        | true =>
          simp only [hs, if_true] at h
          split at h
          next address hg =>
            cases h
            rcases List.mem_append.mp ((hget name address).mp hg) with hpre | hlabel
            · exact .predefined name address hm hpre
            · obtain ⟨xs,first,ys,he,hfirst,hname,rfl⟩ := exists_of_mem_labelEntries hlabel
              rw [Nat.zero_add]
              exact .repeated name first xs ys hm hs he (SourceLine.marks_of_labelName hfirst hname)
          next => cases h
      · have hbad : ∀ name, line.marks name → name = "" := by
          intro name hm
          by_contra hne
          exact hmarks ⟨name,hm,hne⟩
        rw [SourceLine.labelName_of_not_marks hl hbad] at h
        cases h
        exact .malformed hl hbad
    next => cases h
  · have hduplicate : ∀ name address, line.marks name → isSymbol name.toList = true →
        (name, address) ∈ SymbolTable.predefinedEntries ++ labelEntries 0 before →
        labels.add line = .error (labels.symbols, line.fail (.duplicateLabel name address)) := by
      intro name address hm hs hentry
      rw [Labels.add, if_pos hm.isLabel, labelName_of_isSymbol hs hm]
      simp only [(hget name address).mpr hentry]
    intro h
    cases h with
    | malformed hl hbad =>
      rw [if_pos hl, SourceLine.labelName_of_not_marks hl hbad]
      exact ⟨_,rfl⟩
    | invalid name hm hne hs =>
      rw [if_pos hm.isLabel, SourceLine.labelName_of_marks hm hne, hs]
      exact ⟨_,rfl⟩
    | predefined name address hm hentry =>
      exact ⟨_,hduplicate name address hm (isSymbol_of_predefined hentry) (List.mem_append_left _ hentry)⟩
    | repeated name first xs ys hm hs he hfirst =>
      have hentry := mem_labelEntries xs ys hfirst.isLabel (labelName_of_isSymbol hs hfirst)
      rw [← he] at hentry
      exact ⟨_,hduplicate name _ hm hs (List.mem_append_right _ hentry)⟩

theorem Encoding.add_load {operand : List Char} (h : line.text = '@' :: operand) (encoding : Encoding) :
    encoding.add line = encoding.load line operand := by
  have hload : line.isLoad = true := by
    rw [SourceLine.isLoad, h]
    rfl
  rw [Encoding.add, if_pos hload, h]
  rfl

/-- The second pass stops at a line that is no instruction, whatever it has found before. -/
theorem Encoding.add_fails (hl : line.isLabel = false) (encoding : Encoding) :
    (∃ table, encoding.add line = .error (table, failure)) ↔ InstructionFails line failure := by
  constructor
  · rintro ⟨table,h⟩
    unfold Encoding.add at h
    split at h
    next hload =>
      have htext := SourceLine.text_of_isLoad hload
      unfold Encoding.load at h
      split at h
      next hd =>
        obtain ⟨hne,hall⟩ : line.text.drop 1 ≠ [] ∧ (line.text.drop 1).all Text.isDigit = true := by simpa using hd
        unfold Encoding.loadNumber at h
        split at h
        next fault hf =>
          cases h
          exact .numeral _ fault htext hne hall ((Text.decimal_eq_error hne).mp hf)
        next value hv =>
          obtain ⟨hmax,hvalue⟩ := Text.decimal_eq_ok.mp hv
          split at h
          next hlarge =>
            cases h
            exact .tooLarge _ value htext hmax hvalue hlarge
          next => cases h
      next hd =>
        split at h
        next => cases h
        next hs =>
          cases h
          refine .noSymbol _ htext ?_ (Bool.eq_false_iff.mpr hs)
          simpa [Decidable.or_iff_not_imp_left] using hd
    next hload =>
      unfold Encoding.compute at h
      split at h
      next => cases h
      next fault hf =>
        cases h
        exact .misspelled fault hl (Bool.eq_false_iff.mpr hload) (Compute.parse_eq_error.mp hf)
  · intro h
    cases h with
    | numeral digits fault ht hne hall hr =>
      rw [Encoding.add_load ht, Encoding.load, if_pos (by simp [hne, hall]), Encoding.loadNumber,
        (Text.decimal_eq_error hne).mpr hr]
      exact ⟨_,rfl⟩
    | tooLarge digits value ht hmax hvalue hlarge =>
      rw [Encoding.add_load ht, Encoding.load, if_pos hvalue.all_isDigit, Encoding.loadNumber,
        Text.decimal_eq_ok.mpr ⟨hmax,hvalue⟩]
      exact ⟨_,if_pos hlarge⟩
    | noSymbol operand ht hd hs =>
      rw [Encoding.add_load ht, Encoding.load, if_neg (by simpa [Decidable.or_iff_not_imp_left] using hd),
        if_neg (by simp [hs])]
      exact ⟨_,rfl⟩
    | misspelled fault hlabel hload hf =>
      rw [Encoding.add, if_neg (by simp [hload]), Encoding.compute, Compute.parse_eq_error.mpr hf]
      exact ⟨_,rfl⟩

end Steps

/-- The line and the failure that make an assembly fail: the first label that is wrong or, if there is none, the first
other line that is wrong. -/
def Blames (lines : List SourceLine) (line : SourceLine) (failure : Failure) : Prop :=
  FirstFails LabelFails lines line failure ∨
    NoneFails LabelFails lines ∧ FirstFails (fun _ => InstructionFails) lines line failure

section Passes

variable {lines : List SourceLine} {line : SourceLine} {failure : Failure}

theorem Labels.foldlM_fails (lines : List SourceLine) :
    ((∃ labels, lines.foldlM Labels.add ⟨.predefined,0⟩ = .ok labels) ↔ NoneFails LabelFails lines) ∧
      ∀ failure, (∃ table, lines.foldlM Labels.add ⟨.predefined,0⟩ = .error (table, failure)) ↔
        ∃ line, FirstFails LabelFails lines line failure := by
  have hstart : Labels.Passed ⟨.predefined,0⟩ [] ⟨.predefined,0⟩ :=
    ⟨SymbolTable.nodup_predefined,by simp [labelEntries],by simp,by simp⟩
  refine Outcome.foldlM_fails (fun before labels hb line failure => ?_) lines
  exact Labels.add_fails (hstart.foldlM hb)

theorem not_isLabel_of_instructionFails (h : InstructionFails line failure) : line.isLabel = false := by
  cases h with
  | numeral _ _ ht _ _ _ | tooLarge _ _ ht _ _ _ | noSymbol _ ht _ _ =>
    rw [SourceLine.isLabel, ht]
    rfl
  | misspelled _ hl _ _ => exact hl

theorem Encoding.foldlM_fails (encoding : Encoding) (lines : List SourceLine) :
    ((∃ last, (lines.filter (!·.isLabel)).foldlM Encoding.add encoding = .ok last) ↔
        NoneFails (fun _ => InstructionFails) lines) ∧
      ∀ failure, (∃ table, (lines.filter (!·.isLabel)).foldlM Encoding.add encoding = .error (table, failure)) ↔
        ∃ line, FirstFails (fun _ => InstructionFails) lines line failure := by
  rw [List.foldlM_filter]
  refine Outcome.foldlM_fails (fun before found hb line failure => ?_) lines
  cases hl : line.isLabel with
  | false => exact Encoding.add_fails hl found
  | true =>
    refine iff_of_false ?_ fun h => by simp [not_isLabel_of_instructionFails h] at hl
    rintro ⟨table,h⟩
    cases h

theorem assembleLines_eq_error :
    (∃ table, assembleLines lines = .error (table, failure)) ↔ ∃ line, Blames lines line failure := by
  obtain ⟨hnone,hfirst⟩ := Labels.foldlM_fails lines
  constructor
  · rintro ⟨table,h⟩
    rcases Outcome.bind_eq_error.mp h with h | ⟨symbols,hp,h⟩
    · obtain ⟨line,hf⟩ := (hfirst failure).mp ⟨table,Outcome.map_eq_error.mp h⟩
      exact ⟨line,.inl hf⟩
    · obtain ⟨labels,hl,rfl⟩ := Outcome.map_eq_ok.mp hp
      obtain ⟨line,hf⟩ := ((Encoding.foldlM_fails _ lines).2 failure).mp ⟨table,Outcome.map_eq_error.mp h⟩
      exact ⟨line,.inr ⟨hnone.mp ⟨labels,hl⟩,hf⟩⟩
  · rintro ⟨line,hf | ⟨hn,hf⟩⟩
    · obtain ⟨table,h⟩ := (hfirst failure).mpr ⟨line,hf⟩
      exact ⟨table,Outcome.bind_eq_error.mpr (.inl (Outcome.map_eq_error.mpr h))⟩
    · obtain ⟨labels,hl⟩ := hnone.mpr hn
      obtain ⟨table,h⟩ := ((Encoding.foldlM_fails ⟨labels.symbols,firstVariable,[]⟩ lines).2 failure).mpr ⟨line,hf⟩
      refine ⟨table,Outcome.bind_eq_error.mpr (.inr ⟨labels.symbols,?_,Outcome.map_eq_error.mpr h⟩)⟩
      exact Outcome.map_eq_ok.mpr ⟨labels,hl,rfl⟩

theorem Session.assemble_eq_error {session : Session} {source file : String} :
    (session.assemble source file).2 = .error failure ↔ ∃ line, Blames (sourceLines source file) line failure := by
  rw [← assembleLines_eq_error]
  unfold Session.assemble
  cases assembleLines (sourceLines source file) with
  | ok result => simp
  | error stopped =>
    obtain ⟨table,other⟩ := stopped
    simp

/-- A line is where its position says. -/
theorem mem_sourceLines {source file : String} (h : line ∈ sourceLines source file) : ∃ (i : Nat) (chars : List Char),
    (Text.lines source)[i]? = some chars ∧
      line.position = ⟨file,i + 1,((Text.beforeComment chars).takeWhile Text.isBlank).length + 1⟩ ∧
      line.text = (Text.beforeComment chars).filter (!Text.isBlank ·) ∧ line.raw = String.ofList (Text.trimRight chars) := by
  obtain ⟨⟨chars,i⟩,hm,hline⟩ := List.mem_filterMap.mp h
  refine ⟨i,chars,List.mem_zipIdx_iff_getElem?.mp hm,?_⟩
  dsimp only [SourceLine.ofLine?] at hline
  split at hline
  next => cases hline
  next =>
    cases hline
    exact ⟨rfl,rfl,rfl⟩

theorem Blames.mem (h : Blames lines line failure) : line ∈ lines := by
  rcases h with ⟨before,after,rfl,-⟩ | ⟨-,before,after,rfl,-⟩
  · simp
  · simp

/-- A line to blame is told with its place, unless it is a load of digits that are no numeral. -/
theorem Blames.failure_eq (h : Blames lines line failure) : (∃ fault, failure = line.fail fault) ∨
    ∃ digits fault, line.text = '@' :: digits ∧ digits.all Text.isDigit = true ∧ IsRefused digits fault ∧
      failure = .numeral fault := by
  rcases h with ⟨before,after,-,-,hfails⟩ | ⟨-,before,after,-,-,hfails⟩
  · cases hfails <;> exact .inl ⟨_,rfl⟩
  · cases hfails with
    | numeral digits fault ht _ hd hr => exact .inr ⟨digits,fault,ht,hd,hr,rfl⟩
    | tooLarge _ _ _ _ _ _ | noSymbol _ _ _ _ | misspelled _ _ _ _ => exact .inl ⟨_,rfl⟩

end Passes

end HackToolchain.Asm
