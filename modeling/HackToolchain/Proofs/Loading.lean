import HackToolchain.Proofs.Emission
import HackToolchain.Proofs.Execution

/-! # Assembled code lies in the program memory

Once code has been assembled and loaded, every instruction lies in the program memory with its symbols resolved, and
every label has the address at which it stands.
-/
namespace HackToolchain.Asm

open Compile (IsCode)
open Machine (Memory memorySize Holds codeSize codeSize_append)

/-- A computing instruction starts like neither a label nor a load. -/
theorem Compute.head_chars (instruction : Compute) :
    instruction.chars.head? ≠ some '(' ∧ instruction.chars.head? ≠ some '@' := by
  have h : ∀ mark, mark ∉ instruction.comp.chars → mark ∉ instruction.dest.chars → mark ≠ '=' →
      instruction.chars.head? ≠ some mark := by
    intro mark hc hd he hm
    -- The computation is not empty, so the first character is its own or one before it.
    obtain ⟨c,rest,hcons⟩ := List.exists_cons_of_ne_nil instruction.comp.chars_ne_nil
    have hmem : mark ∈ (if instruction.dest = .none then [] else instruction.dest.chars ++ ['=']) ++
        instruction.comp.chars := by
      apply List.mem_of_head?
      rw [Compute.chars, List.head?_append, List.head?_append, hcons] at hm
      rw [List.head?_append, hcons]
      cases hd : (if instruction.dest = .none then [] else instruction.dest.chars ++ ['=']).head? with
      | none => simpa [hd] using hm
      | some other => simpa [hd] using hm
    rcases List.mem_append.mp hmem with hm | hm
    · split at hm
      · cases hm
      · rcases List.mem_append.mp hm with hm | hm
        · exact hd hm
        · exact he (List.mem_singleton.mp hm)
    · exact hc hm
  obtain ⟨-,-,hp,ha⟩ := instruction.comp.not_mem_chars
  obtain ⟨-,hp',ha'⟩ := instruction.dest.not_mem_chars
  exact ⟨h _ hp hp' (by decide),h _ ha ha' (by decide)⟩

def Line.isLoad : Line → Bool
  | .load _ => true
  | _ => false

/-- A line is read as an instruction or as a load just when it is one. -/
theorem head_readText {line : Line} (h : IsCode line) :
    (if line.readText.head? == some '(' then 0 else 1) = line.size ∧
      (line.readText.head? == some '@') = line.isLoad := by
  cases line with
  | comment remark => cases h.1
  | label name => simp [readText_label h.2, Line.size, Line.isLoad]
  | load operand => simp [readText_load, Line.size, Line.isLoad]
  | compute instruction =>
    obtain ⟨hp,ha⟩ := instruction.head_chars
    simp [readText_compute, Line.size, Line.isLoad, hp, ha]

/-- The assembler has read the lines of some code. -/
structure Reads (sources : List SourceLine) (code : List Line) : Prop where
  texts : sources.map (·.text) = code.map Line.readText
  lines : ∀ line ∈ code, IsCode line

namespace Reads

variable {sources : List SourceLine} {code before after : List Line} {line : Line}

theorem counts (h : Reads sources code) :
    instructionCount sources = codeSize code ∧ sources.countP (·.isLoad) = code.countP Line.isLoad := by
  obtain ⟨ht,hc⟩ := h
  induction code generalizing sources with
  | nil =>
    cases List.map_eq_nil_iff.mp ht
    exact ⟨rfl,rfl⟩
  | cons line rest ih =>
    obtain ⟨source,after,rfl,hsource,hafter⟩ := List.map_eq_cons_iff.mp ht
    obtain ⟨hi,hl⟩ := ih hafter fun other ho => hc other (List.mem_cons_of_mem line ho)
    obtain ⟨hsize,hload⟩ := head_readText (hc line List.mem_cons_self)
    rw [← hsource] at hsize hload
    constructor
    · have ha := instructionCount_append [source] after
      rw [instructionCount_singleton, SourceLine.isLabel, hsize, hi] at ha
      exact ha
    · rw [List.countP_cons, List.countP_cons, hl, SourceLine.isLoad, hload]

theorem split (h : Reads sources (before ++ line :: after)) : ∃ xs source ys, sources = xs ++ source :: ys ∧
    source.text = line.readText ∧ instructionCount xs = codeSize before := by
  obtain ⟨ht,hc⟩ := h
  rw [List.map_append, List.map_cons] at ht
  obtain ⟨xs,rest,rfl,hx,hrest⟩ := List.map_eq_append_iff.mp ht
  obtain ⟨source,ys,rfl,hsource,-⟩ := List.map_eq_cons_iff.mp hrest
  have hx : Reads xs before := ⟨hx,fun other ho => hc other (List.mem_append_left _ ho)⟩
  exact ⟨xs,source,ys,rfl,hsource,hx.counts.1⟩

end Reads

/-- The assembler reads the printed lines of some code between others as it reads them alone. -/
theorem exists_reads_between {code : List Line} (hc : ∀ line ∈ code, Compile.IsCode line) (before after : List Line)
    (file : String) : ∃ xs ys zs, sourceLines (render (before ++ code ++ after)) file = xs ++ ys ++ zs ∧
      Reads ys code ∧ instructionCount xs = instructionCount (sourceLines (render before) file) := by
  have htexts : (sourceLines (render (before ++ code ++ after)) file).map (·.text) =
      (sourceLines (render before) file).map (·.text) ++ code.map Line.readText ++
        (sourceLines (render after) file).map (·.text) := by
    have hcode := texts_sourceLines_render (fun line hm => (hc line hm).2) file
    rw [List.filter_eq_self.mpr (fun line hm => by simp [(hc line hm).1])] at hcode
    rw [← hcode, texts_sourceLines, texts_sourceLines, texts_sourceLines, texts_sourceLines, lines_render_append,
      lines_render_append]
    simp only [List.map_append, List.filter_append]
  obtain ⟨front,zs,hsplit,hfront,-⟩ := List.map_eq_append_iff.mp htexts
  obtain ⟨xs,ys,rfl,hxs,hys⟩ := List.map_eq_append_iff.mp hfront
  exact ⟨xs,ys,zs,hsplit,⟨hys,hc⟩,instructionCount_congr hxs⟩

namespace Resolved

variable {sources : List SourceLine} {allocated : List String} {table : SymbolTable} {words : List Nat}

/-- An instruction has its word in the place that the instructions before it leave. -/
theorem word_at (h : Resolved sources allocated table words) {before after : List SourceLine} {source : SourceLine}
    (he : sources = before ++ source :: after) (hl : source.isLabel = false) :
    ∃ word, words[instructionCount before]? = some word ∧ wordOf? table source.text = some word := by
  have hw := congrArg (·[instructionCount before]?) h.words
  have hi : (before.filter (!·.isLabel)).length = instructionCount before := List.countP_eq_length_filter.symm
  have hs : (sources.filter (!·.isLabel))[instructionCount before]? = some source := by
    rw [he, List.filter_append, List.filter_cons_of_pos (by simp [hl]), ← hi]
    simp
  simp only [List.getElem?_map, hs, Option.map_some] at hw
  obtain ⟨word,hword,heq⟩ := Option.map_eq_some_iff.mp hw.symm
  exact ⟨word,hword,heq.symm⟩

theorem length_words (h : Resolved sources allocated table words) : words.length = instructionCount sources := by
  have hl := congrArg List.length h.words
  rw [List.length_map, List.length_map] at hl
  rw [instructionCount, List.countP_eq_length_filter]
  exact hl.symm

/-- Every symbol has an address below 32768, if the program fits and there are not too many variables. -/
theorem get?_lt (h : Resolved sources allocated table words) (hw : words.length < memorySize)
    (ha : firstVariable + allocated.length ≤ memorySize) {name : String} {value : Nat}
    (hg : table.get? name = some value) : value < memorySize := by
  rw [SymbolTable.get?_eq_some_iff h.nodup, h.entries] at hg
  rcases List.mem_append.mp hg with hg | hg
  · rcases List.mem_append.mp hg with hg | hg
    · have hp : ∀ row ∈ SymbolTable.predefinedEntries, row.2 < memorySize := by decide
      exact hp _ hg
    · obtain ⟨before,line,after,he,-,-,rfl⟩ := exists_of_mem_labelEntries hg
      have hl := h.length_words
      rw [he, instructionCount_append] at hl
      omega
  · have hz := List.mem_zipIdx hg
    omega

theorem labelName_of_text {source : SourceLine} {name other : String}
    (ht : source.text = '(' :: (name.toList ++ [')'])) (h : source.labelName = .ok other) :
    isSymbol name.toList = true ∧ other = name := by
  have hd : (source.text.drop 1).dropLast = name.toList := by
    rw [ht]
    simp
  unfold SourceLine.labelName at h
  split at h
  · cases h
  · rw [hd] at h
    dsimp only at h
    split at h
    next hs =>
      cases h
      exact ⟨hs,String.ofList_toList⟩
    next => cases h

theorem loadValue?_lt (hb : ∀ name value, table.get? name = some value → value < memorySize) {operand : List Char}
    {value : Nat} (h : loadValue? table operand = some value) : value < memorySize := by
  unfold loadValue? at h
  split at h
  · have hv : value ≤ largestLoad := by simpa using (Option.filter_eq_some_iff.mp h).2
    exact Nat.lt_succ_of_le hv
  · split at h
    · exact hb _ _ h
    · cases h

variable {xs ys zs : List SourceLine} {before after : List Line}

theorem label_within (h : Resolved sources allocated table words) (he : sources = xs ++ ys ++ zs) {name : String}
    (hr : Reads ys (before ++ .label name :: after)) :
    isSymbol name.toList = true ∧ (name, instructionCount xs + codeSize before) ∈ labelEntries 0 sources := by
  obtain ⟨front,source,back,rfl,hsource,hcount⟩ := hr.split
  rw [readText_label (hr.lines (.label name) (by simp)).2] at hsource
  have hl : source.isLabel = true := by simp [SourceLine.isLabel, hsource]
  obtain ⟨other,ho⟩ := h.named source (by simp [he]) hl
  obtain ⟨hs,rfl⟩ := labelName_of_text hsource ho
  refine ⟨hs,?_⟩
  rw [he, ← hcount, ← instructionCount_append, List.append_assoc, List.append_assoc, ← List.append_assoc xs]
  exact mem_labelEntries (xs ++ front) (back ++ zs) hl ho

theorem load_within (h : Resolved sources allocated table words) (he : sources = xs ++ ys ++ zs) {operand : Operand}
    (hr : Reads ys (before ++ .load operand :: after)) :
    ∃ word, words[instructionCount xs + codeSize before]? = some word ∧ operand.value? table = some word := by
  obtain ⟨front,source,back,rfl,hsource,hcount⟩ := hr.split
  rw [readText_load] at hsource
  have hl : source.isLabel = false := by simp [SourceLine.isLabel, hsource]
  obtain ⟨word,hword,hv⟩ := @word_at _ _ _ _ h (xs ++ front) (back ++ zs) source (by simp [he]) hl
  rw [instructionCount_append, hcount] at hword
  exact ⟨word,hword,by simpa [hsource, wordOf?, Operand.value?] using hv⟩

theorem compute_within (h : Resolved sources allocated table words) (he : sources = xs ++ ys ++ zs)
    {instruction : Compute} (hr : Reads ys (before ++ .compute instruction :: after)) :
    instruction.comp.isListed = true ∧
      words[instructionCount xs + codeSize before]? = some instruction.code := by
  obtain ⟨front,source,back,rfl,hsource,hcount⟩ := hr.split
  obtain ⟨hparen,hat⟩ := instruction.head_chars
  rw [readText_compute] at hsource
  have hl : source.isLabel = false := by simpa [SourceLine.isLabel, hsource] using hparen
  obtain ⟨word,hword,hv⟩ := @word_at _ _ _ _ h (xs ++ front) (back ++ zs) source (by simp [he]) hl
  rw [hsource, wordOf?, if_neg (by simpa using hat)] at hv
  obtain ⟨parsed,hp,rfl⟩ := Option.map_eq_some_iff.mp hv
  obtain ⟨hlisted,rfl⟩ := (Compute.parse_chars _ _).mp (Outcome.toOption_eq_some.mp hp)
  rw [instructionCount_append, hcount] at hword
  exact ⟨hlisted,hword⟩

/-- Resolved code lies, from its own address on, in a program memory that has the words of the source. -/
theorem holds_within (h : Resolved sources allocated table words) {rom : Memory}
    (hrom : ∀ i word : Nat, words[i]? = some word → rom[i]? = some (BitVec.ofNat 16 word))
    (he : sources = xs ++ ys ++ zs) {code : List Line} (hr : Reads ys code)
    (hb : ∀ operand value, .load operand ∈ code → operand.value? table = some value → value < memorySize) :
    Holds rom table (instructionCount xs) code := by
  -- Lines are looked at from left to right; those before them tell the address.
  suffices hs : ∀ before after, code = before ++ after →
      Holds rom table (instructionCount xs + codeSize before) after from hs [] code rfl
  intro before after hcode
  induction after generalizing before with
  | nil => trivial
  | cons line rest ih =>
    have hrest := ih (before ++ [line]) (by simp [hcode])
    rw [codeSize_append] at hrest
    refine ⟨?_,by simpa [codeSize, Nat.add_assoc] using hrest⟩
    rw [hcode] at hr
    cases line with
    | comment remark => trivial
    | label name =>
      obtain ⟨hs,hm⟩ := h.label_within he hr
      exact ⟨hs,h.get?_label hm⟩
    | load operand =>
      obtain ⟨word,hword,hv⟩ := h.load_within he hr
      exact ⟨word,hv,hb operand word (by simp [hcode]) hv,hrom _ _ hword⟩
    | compute instruction =>
      obtain ⟨hlisted,hword⟩ := h.compute_within he hr
      exact ⟨hlisted,hrom _ _ hword⟩

theorem label_entry (h : Resolved sources allocated table words) {name : String}
    (hr : Reads sources (before ++ .label name :: after)) :
    isSymbol name.toList = true ∧ (name, codeSize before) ∈ labelEntries 0 sources := by
  simpa using h.label_within (show sources = [] ++ sources ++ [] by simp) hr

theorem label_at (h : Resolved sources allocated table words) {name : String}
    (hr : Reads sources (before ++ .label name :: after)) :
    isSymbol name.toList = true ∧ table.get? name = some (codeSize before) ∧ name ∉ allocated := by
  obtain ⟨hs,hm⟩ := h.label_entry hr
  exact ⟨hs,h.get?_label hm,h.not_mem_allocated (List.mem_append_right _ hm)⟩

theorem load_at (h : Resolved sources allocated table words) {operand : Operand}
    (hr : Reads sources (before ++ .load operand :: after)) :
    ∃ word, words[codeSize before]? = some word ∧ operand.value? table = some word := by
  simpa using h.load_within (show sources = [] ++ sources ++ [] by simp) hr

theorem compute_at (h : Resolved sources allocated table words) {instruction : Compute}
    (hr : Reads sources (before ++ .compute instruction :: after)) :
    instruction.comp.isListed = true ∧ words[codeSize before]? = some instruction.code := by
  simpa using h.compute_within (show sources = [] ++ sources ++ [] by simp) hr

theorem exists_load (h : Resolved sources allocated table words) {code : List Line} (hr : Reads sources code)
    {name : String} (hn : name ∈ allocated) : isSymbol name.toList = true ∧
      ∃ operand, .load operand ∈ code ∧ Text.kept operand.text.toList = name.toList := by
  obtain ⟨source,hm,hl,ht,hs⟩ := h.used name hn
  have htext : source.text ∈ code.map Line.readText := hr.texts ▸ List.mem_map_of_mem hm
  obtain ⟨line,hline,he⟩ := List.mem_map.mp htext
  have hload := (head_readText (hr.lines line hline)).2
  rw [he] at hload
  cases line with
  | load operand =>
    rw [← he, readText_load] at ht
    exact ⟨hs,operand,hline,ht⟩
  | _ => cases hload.symm.trans hl

/-- Resolved code lies in a program memory that has its words. -/
theorem holds (h : Resolved sources allocated table words) {rom : Memory}
    (hr : ∀ i word : Nat, words[i]? = some word → rom[i]? = some (BitVec.ofNat 16 word))
    (hb : ∀ name value, table.get? name = some value → value < memorySize) {code : List Line}
    (hc : Reads sources code) : Holds rom table 0 code :=
  h.holds_within hr (show sources = [] ++ sources ++ [] by simp) hc fun _ _ _ hv => loadValue?_lt hb hv

end Resolved

section Congruence

variable {x y : SourceLine} (h : x.text = y.text)

include h

theorem Labels.add_congr {labels next : Labels} (hx : labels.add x = .ok next) : labels.add y = .ok next := by
  unfold Labels.add SourceLine.isLabel SourceLine.labelName at hx ⊢
  rw [← h]
  grind

theorem Encoding.add_congr {encoding next : Encoding} (hx : encoding.add x = .ok next) :
    encoding.add y = .ok next := by
  unfold Encoding.add SourceLine.isLoad Encoding.load Encoding.loadNumber Encoding.compute at hx ⊢
  rw [← h]
  grind

end Congruence

/-- Assembling succeeds or not by what the lines say alone, wherever they stand. -/
theorem assembleLines_congr {xs ys : List SourceLine} (h : xs.map (·.text) = ys.map (·.text))
    {result : SymbolTable × List Nat} (hx : assembleLines xs = .ok result) : assembleLines ys = .ok result := by
  obtain ⟨placed,hp,he⟩ := Outcome.bind_eq_ok.mp hx
  obtain ⟨labels,hl,rfl⟩ := Outcome.map_eq_ok.mp hp
  obtain ⟨encoding,hf,rfl⟩ := Outcome.map_eq_ok.mp he
  have hfilter : ∀ lines : List SourceLine, (lines.filter (!·.isLabel)).map (·.text) =
      (lines.map (·.text)).filter fun text => !(text.head? == some '(') := by
    intro lines
    rw [List.filter_map]
    rfl
  have hlabels := Outcome.foldlM_ok_congr (fun _ _ => Labels.add_congr) h hl
  have hwords := Outcome.foldlM_ok_congr (fun _ _ => Encoding.add_congr)
    (by rw [hfilter, hfilter, h] : (xs.filter (!·.isLabel)).map (·.text) = (ys.filter (!·.isLabel)).map (·.text)) hf
  refine Outcome.bind_eq_ok.mpr ⟨labels.symbols,?_,?_⟩
  · rw [placeLabels, hlabels]
    rfl
  · rw [encodeLines, hwords]
    rfl

/-- A line of code by itself, as the assembler reads it. -/
def Line.source (line : Line) : SourceLine := ⟨line.readText, ⟨"", 0, 0⟩, ""⟩

end HackToolchain.Asm

namespace HackToolchain.Compile

open Asm (Line)
open Machine (codeSize codeSize_append)
open Vm (Instruction)

/-- Every load is followed by a computing instruction. -/
def isSpread : List Line → Bool
  | [] => true
  | .load _ :: .compute _ :: rest => isSpread rest
  | .load _ :: _ => false
  | .compute _ :: rest | .label _ :: rest | .comment _ :: rest => isSpread rest

theorem isSpread_append {xs ys : List Line} (hx : isSpread xs = true) (hy : isSpread ys = true) :
    isSpread (xs ++ ys) = true := by
  fun_induction isSpread xs with
  | case1 => exact hy
  | case2 operand instruction rest ih => exact ih hx
  | case3 => cases hx
  | case4 instruction rest ih => exact ih hx
  | case5 name rest ih => exact ih hx
  | case6 remark rest ih => exact ih hx

theorem two_mul_loads_le {code : List Line} (h : isSpread code = true) :
    2 * code.countP Line.isLoad ≤ codeSize code := by
  fun_induction isSpread code with
  | case1 => exact Nat.le_refl 0
  | case2 operand instruction rest ih =>
    have hr := ih h
    simp only [codeSize, List.map_cons, List.sum_cons, Line.size, List.countP_cons, Line.isLoad,
      Bool.false_eq_true, ↓reduceIte] at hr ⊢
    omega
  | case3 => cases h
  | case4 instruction rest ih | case5 name rest ih | case6 remark rest ih =>
    have hr := ih h
    simp only [codeSize, List.map_cons, List.sum_cons, Line.size, List.countP_cons, Line.isLoad,
      Bool.false_eq_true, ↓reduceIte] at hr ⊢
    omega

theorem isSpread_template (unit : String) (number : Nat) (instruction : Instruction) :
    isSpread (template unit number instruction) = true := by
  cases instruction with
  | operate operator => cases operator <;> rfl
  | push segment index => cases segment <;> rfl
  | pop segment index => cases segment <;> rfl
  | label name | goto name | ifGoto name | ret => rfl
  | call name arguments => rfl
  | function name locals =>
    have hz : ∀ n, isSpread (List.replicate n pushZero).flatten = true := by
      intro n
      induction n with
      | zero => rfl
      | succ n ih =>
        rw [List.replicate_succ, List.flatten_cons]
        exact isSpread_append rfl ih
    have h := isSpread_append (show isSpread [.label name] = true from rfl) (hz locals.toNat)
    rwa [template_function]

theorem isSpread_codeFrom (number : Nat) (program : List (String × Instruction)) :
    isSpread (codeFrom number program) = true := by
  induction program generalizing number with
  | nil => rfl
  | cons entry rest ih => exact isSpread_append (isSpread_template entry.1 number entry.2) (ih _)

theorem isSpread_codeOf (options : Options) (bootstrap : Bool) (program : List (String × Instruction)) :
    isSpread (codeOf options bootstrap program) = true := by
  unfold codeOf
  split
  · exact isSpread_append rfl (isSpread_codeFrom 2 program)
  · exact isSpread_codeFrom 1 program

/-- The assembler reads the code of a compiled program. -/
theorem reads_of_compile {options : Options} {units : List CompilationUnit} {summary : Summary} {text : String}
    (hu : ∀ unit ∈ units, Text.IsUnbroken unit.name.toList)
    (he : wantsBootstrap options units = true → Text.IsUnbroken options.entry.toList)
    (hc : compile options units = .ok (summary, text)) (file : String) :
    ∃ program, programOf units = .ok program ∧
      Asm.Reads (Asm.sourceLines text file) (codeOf options (wantsBootstrap options units) program) := by
  obtain ⟨program,lines,hp,rfl,hcode,hsound⟩ := code_of_compile hc
  have hs := hsound hu he
  refine ⟨program,hp,hcode ▸ Asm.texts_sourceLines_render hs file,?_⟩
  intro line hm
  rw [← hcode] at hm
  exact ⟨by simpa using (List.mem_filter.mp hm).2,hs line (List.mem_filter.mp hm).1⟩

end HackToolchain.Compile

namespace HackToolchain.Machine

open Asm (SymbolTable)
open Compile
open Text (IsUnbroken)

theorem getElem?_ofProgram {words : List Nat} {i word : Nat} (hi : words[i]? = some word)
    (hw : words.length ≤ memorySize) :
    (Memory.ofProgram (words.map Int.ofNat).toArray)[i]? = some (BitVec.ofNat 16 word) := by
  obtain ⟨hlt,hword⟩ := List.getElem?_eq_some_iff.mp hi
  have hm : i < memorySize := Nat.lt_of_lt_of_le hlt hw
  rw [Vector.getElem?_eq_getElem hm]
  simp [Memory.ofProgram, Array.getD, hlt, hword, Word.ofInt]

theorem rom_of_load {before loaded : Processor} {program : Array Int} (h : before.load program = .ok loaded) :
    program.size ≤ memorySize ∧ loaded.rom = Memory.ofProgram program := by
  unfold Processor.load at h
  split at h
  next => cases h
  next hsize =>
    cases h
    exact ⟨Nat.le_of_not_lt hsize,rfl⟩

/-- A program that was compiled, assembled and loaded lies in the program memory. -/
theorem holds_of_load {options : Options} {units : List CompilationUnit} {summary : Summary} {text file : String}
    {table : SymbolTable} {words : List Nat} {before loaded : Processor}
    (hu : ∀ unit ∈ units, IsUnbroken unit.name.toList)
    (he : wantsBootstrap options units = true → IsUnbroken options.entry.toList)
    (hc : compile options units = .ok (summary, text))
    (ha : Asm.assembleLines (Asm.sourceLines text file) = .ok (table, words)) (hw : words.length < memorySize)
    (hl : before.load (words.map Int.ofNat).toArray = .ok loaded) :
    ∃ program, programOf units = .ok program ∧ Standard table ∧
      Holds loaded.rom table 0 (codeOf options (wantsBootstrap options units) program) := by
  obtain ⟨program,hp,hreads⟩ := reads_of_compile hu he hc file
  obtain ⟨allocated,hr⟩ := Asm.resolved_of_assembleLines ha
  obtain ⟨hsize,hloads⟩ := hreads.counts
  -- There are at most half as many variables as instructions.
  have hspread := two_mul_loads_le (isSpread_codeOf options (wantsBootstrap options units) program)
  have hcount := hr.count
  have hlength := hr.length_words
  have hroom : Asm.firstVariable + allocated.length ≤ memorySize := by
    unfold memorySize Asm.firstVariable at *
    omega
  refine ⟨program,hp,fun row hrow => hr.get?_predefined hrow,hr.holds ?_ (fun _ _ => hr.get?_lt hw hroom) hreads⟩
  intro i word hi
  rw [(rom_of_load hl).2]
  exact getElem?_ofProgram hi (Nat.le_of_lt hw)

end HackToolchain.Machine
