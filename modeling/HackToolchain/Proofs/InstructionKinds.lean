import HackToolchain.Proofs.Addresses
import HackToolchain.Proofs.Assembling

/-! # Kinds of instructions

The processor tells a load from a computation by the top bit of the word.  The word of a computation always has it set.
A load has it clear if its number fits into fifteen bits, which is checked of numerals only: the address of a label or a
variable may grow beyond, and then the processor takes the load for a computation.
-/
namespace HackToolchain.Asm

open Machine (Memory Processor Word memorySize)

theorem isLoad_ofNat {word : Nat} (h : word ≤ 0xFFFF) :
    Processor.isLoad (BitVec.ofNat 16 word) = decide (word ≤ largestLoad) := by
  have hn : (BitVec.ofNat 16 word).toNat = word := by
    rw [BitVec.toNat_ofNat]
    omega
  rw [Processor.isLoad, BitVec.msb_eq_decide, hn]
  unfold largestLoad
  by_cases hw : word ≤ 32767
  · simp [hw]
    omega
  · simp [hw]
    omega

/-- No symbol that is loaded has an address beyond the largest number that a load can hold. -/
structure AddressesFit (lines : List SourceLine) : Prop where
  labels : ∀ before line after name, lines = before ++ line :: after → line.marks name →
    (∃ user ∈ lines, user.loads name) → instructionCount before ≤ largestLoad
  variableCount : firstVariable + {name | IsVariable lines name}.ncard ≤ largestLoad + 1

namespace Resolved

variable {lines before after : List SourceLine} {line : SourceLine} {allocated : List String} {table : SymbolTable}
  {words : List Nat}

theorem compute_word (h : Resolved lines allocated table words) (he : lines = before ++ line :: after)
    (hlabel : line.isLabel = false) (hload : line.isLoad = false) :
    ∃ word, words[instructionCount before]? = some word ∧ 0xE000 ≤ word ∧ word ≤ 0xFFFF := by
  obtain ⟨word,hword,hw⟩ := h.word_at he hlabel
  have hhead : (line.text.head? == some '@') = false := hload
  rw [wordOf?, if_neg (by simp [hhead])] at hw
  obtain ⟨instruction,-,rfl⟩ := Option.map_eq_some_iff.mp hw
  exact ⟨_,hword,instruction.code_bounds⟩

/-- A load has a number that fits, or the address of a symbol. -/
theorem load_word (h : Resolved lines allocated table words) (he : lines = before ++ line :: after)
    (hload : line.isLoad = true) : ∃ word, words[instructionCount before]? = some word ∧
      (word ≤ largestLoad ∨ ∃ name, line.loads name ∧ table.get? name = some word) := by
  have hhead : (line.text.head? == some '@') = true := hload
  obtain ⟨word,hword,hw⟩ := h.word_at he (SourceLine.isLabel_of_isLoad hload)
  refine ⟨word,hword,?_⟩
  rw [wordOf?, if_pos hhead, loadValue?] at hw
  split at hw
  next =>
    have hle : decide (word ≤ largestLoad) = true := (Option.filter_eq_some_iff.mp hw).2
    exact .inl (of_decide_eq_true hle)
  next =>
    split at hw
    next hs => exact .inr ⟨_,⟨hload,by simp,by simpa using hs⟩,hw⟩
    next => cases hw

/-- What the address of a symbol can be. -/
theorem get?_cases (h : Resolved lines allocated table words) {name : String} {address : Nat}
    (hg : table.get? name = some address) : address ≤ largestLoad ∨
      (∃ before line after, lines = before ++ line :: after ∧ line.marks name ∧ address = instructionCount before) ∨
      ∃ i < allocated.length, address = firstVariable + i := by
  rw [SymbolTable.get?_eq_some_iff h.nodup, h.entries] at hg
  rcases List.mem_append.mp hg with hg | hg
  · rcases List.mem_append.mp hg with hg | hg
    · have hp : ∀ row ∈ SymbolTable.predefinedEntries, row.2 ≤ largestLoad := by decide
      exact .inl (hp _ hg)
    · obtain ⟨before,line,after,he,hl,hn,ha⟩ := exists_of_mem_labelEntries hg
      exact .inr (.inl ⟨before,line,after,he,SourceLine.marks_of_labelName hl hn,by omega⟩)
  · have hz := List.mem_zipIdx hg
    exact .inr (.inr ⟨address - firstVariable,by omega,by omega⟩)

theorem ncard_isVariable (h : Resolved lines (variablesIn (takenNames lines) lines) table words) :
    {name | IsVariable lines name}.ncard = (variablesIn (takenNames lines) lines).length := by
  rw [← h.ncard_variables (List.append_nil lines).symm]
  congr 1
  ext name
  constructor
  · intro hv
    exact ⟨hv,hv.1⟩
  · intro hv
    exact hv.1

theorem get?_le_of_fit (h : Resolved lines (variablesIn (takenNames lines) lines) table words)
    (hfit : AddressesFit lines) {name : String} (hu : ∃ user ∈ lines, user.loads name) {address : Nat}
    (hg : table.get? name = some address) : address ≤ largestLoad := by
  have hcount := hfit.variableCount
  rw [h.ncard_isVariable] at hcount
  rcases h.get?_cases hg with hle | ⟨before,line,after,he,hm,rfl⟩ | ⟨i,hi,rfl⟩
  · exact hle
  · exact hfit.labels before line after name he hm hu
  · omega

/-- Loads that fit leave no symbol that does not: a label that is loaded is one of the words, and so is the last
variable. -/
theorem fit_of_loads (h : Resolved lines (variablesIn (takenNames lines) lines) table words)
    (hloads : ∀ before line after name address, lines = before ++ line :: after → line.loads name →
      table.get? name = some address → address ≤ largestLoad) : AddressesFit lines := by
  have hused : ∀ name address, (∃ user ∈ lines, user.loads name) → table.get? name = some address →
      address ≤ largestLoad := by
    rintro name address ⟨user,hm,hu⟩ hg
    obtain ⟨before,after,he⟩ := List.append_of_mem hm
    exact hloads before user after name address he hu hg
  refine ⟨?_,?_⟩
  · intro before line after name he hm hu
    obtain ⟨other,ho,hg⟩ := h.addressed.label before line after he hm.isLabel
    have hname : name = other := by
      rw [SourceLine.marks, hm] at ho
      exact String.toList_injective (List.append_cancel_right (List.cons.inj ho).2)
    exact hused name _ hu (hname ▸ hg)
  · rw [h.ncard_isVariable]
    rcases List.eq_nil_or_concat (variablesIn (takenNames lines) lines) with hnil | ⟨others,name,hlast⟩
    · rw [hnil]
      decide
    · have hm : name ∈ variablesIn (takenNames lines) lines := by simp [hlast]
      have hg : table.get? name = some (firstVariable + others.length) := by
        rw [SymbolTable.get?_eq_some_iff h.nodup, h.entries, hlast]
        simp [List.zipIdx_append]
      have hle := hused name _ (mem_variablesIn.mp hm).1 hg
      simp only [hlast, List.length_concat]
      omega

/-- A short program has no far addresses. -/
theorem get?_le_of_length (h : Resolved lines allocated table words) {bound : Nat} (hb : largestLoad ≤ bound)
    (hw : firstVariable + words.length ≤ bound + 1) {name : String} {address : Nat}
    (hg : table.get? name = some address) : address ≤ bound := by
  have hlength := h.length_words
  unfold firstVariable at hw
  rcases h.get?_cases hg with hle | ⟨before,line,after,he,-,rfl⟩ | ⟨i,hi,rfl⟩
  · exact hle.trans hb
  · rw [he, instructionCount_append] at hlength
    omega
  · have hcount := h.count
    have hloads : lines.countP (·.isLoad) ≤ instructionCount lines := by
      apply List.countP_mono_left
      intro other _ hload
      simp [SourceLine.isLabel_of_isLoad hload]
    unfold firstVariable
    omega

end Resolved

/-- In a source that is assembled every computation has a word with the three top bits set.  Every load has a number of
fifteen bits if and only if all addresses fit, and a processor that holds the words takes each of them for the kind of
its line if and only if they do. -/
theorem kinds_survive_iff_addresses_fit {session assembled : Session} {source file : String} {words : List Nat}
    (h : session.assemble source file = (assembled, .ok words)) :
    (∀ before line after, sourceLines source file = before ++ line :: after → line.isLabel = false →
      line.isLoad = false → ∃ word, words[instructionCount before]? = some word ∧ 0xE000 ≤ word ∧ word ≤ 0xFFFF) ∧
    ((∀ before line after, sourceLines source file = before ++ line :: after → line.isLoad = true →
      ∃ word, words[instructionCount before]? = some word ∧ word ≤ largestLoad) ↔
        AddressesFit (sourceLines source file)) ∧
    (∀ cpu loaded : Processor, cpu.load (words.map Int.ofNat).toArray = .ok loaded →
      ((∀ before line after, sourceLines source file = before ++ line :: after → line.isLabel = false →
        ∃ word, loaded.rom[instructionCount before]? = some word ∧ Processor.isLoad word = line.isLoad) ↔
          AddressesFit (sourceLines source file))) ∧
    (firstVariable + words.length ≤ largestLoad + 1 → AddressesFit (sourceLines source file)) := by
  have hr := resolved_variables (Session.assemble_eq_ok.mp h).1
  have hfits : AddressesFit (sourceLines source file) → ∀ before line after,
      sourceLines source file = before ++ line :: after → line.isLoad = true →
        ∃ word, words[instructionCount before]? = some word ∧ word ≤ largestLoad := by
    intro hfit before line after he hload
    obtain ⟨word,hword,hle | ⟨name,hl,hg⟩⟩ := hr.load_word he hload
    · exact ⟨word,hword,hle⟩
    · exact ⟨word,hword,hr.get?_le_of_fit hfit ⟨line,by simp [he],hl⟩ hg⟩
  refine ⟨fun before line after => hr.compute_word,⟨?_,hfits⟩,?_,?_⟩
  · intro hloads
    apply hr.fit_of_loads
    intro before line after name address he hl hg
    obtain ⟨word,hword,hle⟩ := hloads before line after he hl.1
    obtain ⟨other,ho,hother⟩ := hr.addressed.load before line after name he hl
    cases hg.symm.trans ho
    cases hword.symm.trans hother
    exact hle
  · intro cpu loaded hload
    obtain ⟨hsize,hrom⟩ := Machine.rom_of_load hload
    rw [List.size_toArray, List.length_map] at hsize
    have hwide : firstVariable + words.length ≤ 0xFFFF + 1 := by
      unfold firstVariable
      unfold memorySize at hsize
      omega
    have hheld : ∀ {i word : Nat}, words[i]? = some word → loaded.rom[i]? = some (BitVec.ofNat 16 word) := by
      intro i word hi
      rw [hrom]
      exact Machine.getElem?_ofProgram hi hsize
    constructor
    · intro hkinds
      apply hr.fit_of_loads
      intro before line after name address he hl hg
      obtain ⟨other,ho,hword⟩ := hr.addressed.load before line after name he hl
      cases hg.symm.trans ho
      obtain ⟨word,hw,hkind⟩ := hkinds before line after he (SourceLine.isLabel_of_isLoad hl.1)
      cases (hheld hword).symm.trans hw
      rw [isLoad_ofNat (hr.get?_le_of_length (by decide) hwide hg), hl.1] at hkind
      exact of_decide_eq_true hkind
    · intro hfit before line after he hlabel
      by_cases hline : line.isLoad = true
      · obtain ⟨word,hword,hle⟩ := hfits hfit before line after he hline
        refine ⟨_,hheld hword,?_⟩
        rw [isLoad_ofNat (hle.trans (by decide)), hline]
        exact decide_eq_true hle
      · obtain ⟨word,hword,hlow,hhigh⟩ := hr.compute_word he hlabel (by simpa using hline)
        refine ⟨_,hheld hword,?_⟩
        rw [isLoad_ofNat hhigh, Bool.eq_false_iff.mpr hline]
        unfold largestLoad
        exact decide_eq_false (by omega)
  · intro hw
    apply hr.fit_of_loads
    intro before line after name address he hl hg
    exact hr.get?_le_of_length (Nat.le_refl largestLoad) hw hg

theorem loop_keeps_kinds : ∃ assembled,
    Session.new.assemble loopSource "loop.asm" = (assembled, .ok [2, 16, 17, 64528, 16, 0, 6, 60039]) ∧
      AddressesFit (sourceLines loopSource "loop.asm") ∧
      ∀ before line after, sourceLines loopSource "loop.asm" = before ++ line :: after → line.isLoad = true →
        ∃ word, [2, 16, 17, 64528, 16, 0, 6, 60039][instructionCount before]? = some word ∧ word ≤ largestLoad := by
  obtain ⟨assembled,h,-⟩ := loopSource_assembled
  obtain ⟨-,hloads,-,hshort⟩ := kinds_survive_iff_addresses_fit h
  have hfit := hshort (by decide)
  exact ⟨assembled,h,hfit,hloads.mpr hfit⟩

/-- A load of a label with `count` instructions between the two. -/
def farLabel (count : Nat) : List Line :=
  (.load (.symbol "L") :: List.replicate count (.compute ⟨.none,.zero,none⟩)) ++ [.label "L"]

theorem mem_farLabel {count : Nat} {line : Line} (h : line ∈ farLabel count) :
    line = .load (.symbol "L") ∨ line = .compute ⟨.none,.zero,none⟩ ∨ line = .label "L" := by
  simp only [farLabel, List.cons_append, List.mem_cons, List.mem_append, List.mem_replicate, List.not_mem_nil,
    or_false] at h
  rcases h with h | ⟨-,h⟩ | h
  · exact .inl h
  · exact .inr (.inl h)
  · exact .inr (.inr h)

theorem codeSize_farLabel (count : Nat) : Machine.codeSize
    (.load (.symbol "L") :: List.replicate count (.compute ⟨.none,.zero,none⟩)) = count + 1 := by
  simp [Machine.codeSize, Line.size, Nat.add_comm]

theorem reads_farLabel (count : Nat) (file : String) :
    Reads (sourceLines (render (farLabel count)) file) (farLabel count) := by
  have hcode : ∀ line ∈ farLabel count, Compile.IsCode line := by
    intro line hm
    rcases mem_farLabel hm with rfl | rfl | rfl
    · exact Compile.isCode_atSymbol (by decide)
    · exact Compile.isCode_compute _
    · exact Compile.isCode_label (by decide)
  refine ⟨?_,hcode⟩
  rw [texts_sourceLines_render fun line hm => (hcode line hm).2]
  congr 1
  rw [List.filter_eq_self]
  intro line hm
  simp [(hcode line hm).1]

/-- However far the label is, the load gets its address. -/
theorem farLabel_assembled (count : Nat) (file : String) : ∃ assembled words,
    Session.new.assemble (render (farLabel count)) file = (assembled, .ok words) ∧ words.length = count + 1 ∧
      words[0]? = some (count + 1) := by
  have hreads := reads_farLabel count file
  have haccept : ∀ line ∈ farLabel count, line.isAccepted = true := by
    intro line hm
    rcases mem_farLabel hm with rfl | rfl | rfl <;> decide
  have hlabels : Compile.labelsIn (farLabel count) = ["L"] := by
    simp [farLabel, Compile.labelsIn]
  obtain ⟨⟨symbols,words⟩,h⟩ := (assembles_iff hreads).mpr ⟨haccept,by rw [hlabels]; decide⟩
  have hr := resolved_variables h
  refine ⟨⟨symbols,words⟩,words,Session.assemble_eq_ok.mpr ⟨h,rfl⟩,?_,?_⟩
  · rw [hr.length_words, hreads.counts.1, farLabel, Machine.codeSize_append, codeSize_farLabel]
    rfl
  · obtain ⟨-,hlabel,-⟩ := hr.label_at hreads
    obtain ⟨word,hword,hv⟩ := @Resolved.load_at _ _ _ _ [] _ hr (.symbol "L") hreads
    rw [codeSize_farLabel] at hlabel
    rw [Operand.value?_of_isToken (by decide)] at hv
    cases hlabel.symm.trans hv
    exact hword

/-- A label behind the last word of the program memory gives its load the word of a computation. -/
theorem far_load_is_computed : ∃ assembled words loaded,
    Session.new.assemble (render (farLabel 32767)) "far.asm" = (assembled, .ok words) ∧
      Processor.new.load (words.map Int.ofNat).toArray = .ok loaded ∧ words[0]? = some 32768 ∧
      (sourceLines (render (farLabel 32767)) "far.asm").head?.map (·.isLoad) = some true ∧
      loaded.rom[0]?.map Processor.isLoad = some false := by
  obtain ⟨assembled,words,h,hlength,hword⟩ := farLabel_assembled 32767 "far.asm"
  have hsize : ¬memorySize < (words.map Int.ofNat).toArray.size := by
    rw [List.size_toArray, List.length_map, hlength]
    decide
  have hload : Processor.new.load (words.map Int.ofNat).toArray = .ok _ := if_neg hsize
  refine ⟨assembled,words,_,h,hload,hword,?_,?_⟩
  · obtain ⟨source,more,he,ht,-⟩ := List.map_eq_cons_iff.mp (reads_farLabel 32767 "far.asm").texts
    rw [he, List.head?_cons, Option.map_some, SourceLine.isLoad, ht, readText_load]
    rfl
  · rw [(Machine.rom_of_load hload).2, Machine.getElem?_ofProgram hword (by rw [hlength]; decide), Option.map_some,
      isLoad_ofNat (by decide)]
    rfl

end HackToolchain.Asm
