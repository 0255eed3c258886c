import HackToolchain.Proofs.Linking

/-! # Static entries

The code for a static entry loads a symbol that is made of the name of the unit and the index.  The assembler reads this
symbol without blanks, without what looks like a comment and only up to a line end, and it knows labels by the same
names.  So the entries of a program get variables of their own just when they are still told apart after that.
-/
namespace HackToolchain.Asm

open Text (firstLine kept)

namespace Resolved

variable {sources : List SourceLine} {allocated : List String} {table : SymbolTable} {words : List Nat}

theorem label_mem_iff (h : Resolved sources allocated table words) {code : List Line} (hr : Reads sources code)
    {name : String} : name ∈ (labelEntries 0 sources).map (·.1) ↔ .label name ∈ code := by
  constructor
  · intro hm
    obtain ⟨⟨other,address⟩,hentry,rfl⟩ := List.mem_map.mp hm
    obtain ⟨before,source,after,he,hl,hn,-⟩ := exists_of_mem_labelEntries hentry
    have hsource : source.text ∈ code.map Line.readText := by
      rw [← hr.texts, he]
      simp
    obtain ⟨line,hline,htext⟩ := List.mem_map.mp hsource
    obtain ⟨hsize,-⟩ := head_readText (hr.lines line hline)
    have hlabel : (line.readText.head? == some '(') = true := htext ▸ hl
    cases line with
    | label found =>
      rw [readText_label (hr.lines _ hline).2] at htext
      obtain ⟨-,rfl⟩ := labelName_of_text htext.symm hn
      exact hline
    | comment remark => cases (hr.lines _ hline).1
    | load operand | compute instruction =>
      rw [if_pos hlabel] at hsize
      cases hsize
  · intro hm
    obtain ⟨before,after,he⟩ := List.append_of_mem hm
    exact List.mem_map_of_mem (f := Prod.fst) (h.label_entry (he ▸ hr)).2

/-- A printed load has its word after those of the text before it, whatever the lines around it hold. -/
theorem word_of_load {before after : List Line} {operand : Operand} {file : String}
    (h : Resolved (sourceLines (render (before ++ .load operand :: after)) file) allocated table words) :
    ∃ word, words[instructionCount (sourceLines (render before) file)]? = some word ∧
      loadValue? table (kept (firstLine operand.text.toList)) = some word := by
  obtain ⟨more,hm⟩ := texts_sourceLines_load before after operand file
  obtain ⟨xs,rest,he,hx,hrest⟩ := List.map_eq_append_iff.mp hm
  obtain ⟨source,ys,rfl,hsource,-⟩ := List.map_eq_cons_iff.mp hrest
  have hl : source.isLabel = false := by simp [SourceLine.isLabel, hsource]
  obtain ⟨word,hword,hv⟩ := h.word_at he hl
  rw [instructionCount_congr hx] at hword
  exact ⟨word,hword,by simpa [hsource, wordOf?] using hv⟩

/-- An operand stands for a variable if it is a symbol without another meaning. -/
theorem mem_zipIdx_iff (h : Resolved sources allocated table words) {operand : List Char} {address : Nat}
    (hv : loadValue? table operand = some address) :
    (String.ofList operand, address) ∈ allocated.zipIdx firstVariable ↔ isSymbol operand = true ∧
      String.ofList operand ∉ (SymbolTable.predefinedEntries ++ labelEntries 0 sources).map (·.1) := by
  constructor
  · intro hm
    have ha : String.ofList operand ∈ allocated := by
      rw [← List.zipIdx_map_fst firstVariable allocated]
      exact List.mem_map_of_mem hm
    obtain ⟨_,_,_,_,hs⟩ := h.used _ ha
    refine ⟨by simpa using hs,?_⟩
    intro hm
    obtain ⟨⟨name,place⟩,hm,he⟩ := List.mem_map.mp hm
    subst he
    exact h.not_mem_allocated hm ha
  · rintro ⟨hs,hn⟩
    have hd := all_isDigit_of_isSymbol hs
    rw [loadValue?, if_neg (by simp [hd]), if_pos hs, SymbolTable.get?_eq_some_iff h.nodup, h.entries] at hv
    rcases List.mem_append.mp hv with hv | hv
    · exact absurd (List.mem_map_of_mem (f := Prod.fst) hv) hn
    · exact hv

end Resolved

end HackToolchain.Asm

namespace HackToolchain.Compile

open Asm (Line SymbolTable)
open Text (firstLine kept IsToken IsUnbroken)
open Vm (Instruction staticName)

/-- What the assembler reads of the symbol for a static entry. -/
def readName (unit : String) (index : Nat) : List Char := kept (firstLine (staticName unit index).toList)

/-- The address of a static entry in assembled code. -/
def staticAddress? (table : SymbolTable) (unit : String) (index : Nat) : Option Nat :=
  Asm.loadValue? table (readName unit index)

/-- Every static entry of a program has a variable of its own.  The addresses of variables are not
bounded: the 241st lies where the stack begins, and `HackToolchain.Proofs.InstructionKinds` tells when they stay inside
of the memory. -/
structure Isolated (program : List (String × Instruction)) (table : SymbolTable) (allocated : List String) : Prop where
  allocates : ∀ unit index, Refers program unit index → ∃ address, staticAddress? table unit index = some address ∧
    16 ≤ address ∧ (String.ofList (readName unit index), address) ∈ allocated.zipIdx Asm.firstVariable
  separates : ∀ unit index other entry, Refers program unit index → Refers program other entry →
    (unit, index) ≠ (other, entry) → staticAddress? table unit index ≠ staticAddress? table other entry

/-- The static entries of a program are read as different symbols, none of which is predefined or a label. -/
structure ToldApart (program : List (String × Instruction)) (sources : List Asm.SourceLine) : Prop where
  symbols : ∀ unit index, Refers program unit index → Asm.isSymbol (readName unit index) = true
  unused : ∀ unit index, Refers program unit index → String.ofList (readName unit index) ∉
    (SymbolTable.predefinedEntries ++ Asm.labelEntries 0 sources).map (·.1)
  differ : ∀ unit index other entry, Refers program unit index → Refers program other entry →
    (unit, index) ≠ (other, entry) → readName unit index ≠ readName other entry

theorem isolated_iff_toldApart {program : List (String × Instruction)} {sources : List Asm.SourceLine}
    {allocated : List String} {table : SymbolTable} {words : List Nat}
    (h : Asm.Resolved sources allocated table words)
    (hv : ∀ unit index, Refers program unit index → ∃ address, staticAddress? table unit index = some address) :
    Isolated program table allocated ↔ ToldApart program sources := by
  constructor
  · rintro ⟨hallocates,hseparates⟩
    have hread : ∀ unit index, Refers program unit index → Asm.isSymbol (readName unit index) = true ∧
        String.ofList (readName unit index) ∉
          (SymbolTable.predefinedEntries ++ Asm.labelEntries 0 sources).map (·.1) := by
      intro unit index hr
      obtain ⟨address,ha,-,hm⟩ := hallocates unit index hr
      exact (h.mem_zipIdx_iff ha).mp hm
    refine ⟨fun unit index hr => (hread unit index hr).1,fun unit index hr => (hread unit index hr).2,?_⟩
    intro unit index other entry hr ho hne he
    exact hseparates unit index other entry hr ho hne (congrArg (Asm.loadValue? table) he)
  · rintro ⟨hsymbols,hunused,hdiffer⟩
    have hmem : ∀ unit index address, Refers program unit index → staticAddress? table unit index = some address →
        (String.ofList (readName unit index), address) ∈ allocated.zipIdx Asm.firstVariable := by
      intro unit index address hr ha
      exact (h.mem_zipIdx_iff ha).mpr ⟨hsymbols unit index hr,hunused unit index hr⟩
    constructor
    · intro unit index hr
      obtain ⟨address,ha⟩ := hv unit index hr
      have hm := hmem unit index address hr ha
      exact ⟨address,ha,(List.mem_zipIdx hm).1,hm⟩
    · intro unit index other entry hr ho hne he
      obtain ⟨address,ha⟩ := hv unit index hr
      -- Two variables at one address are the same.
      obtain ⟨-,-,hfirst⟩ := List.mem_zipIdx (hmem unit index address hr ha)
      obtain ⟨-,-,hsecond⟩ := List.mem_zipIdx (hmem other entry address ho (he ▸ ha))
      exact hdiffer unit index other entry hr ho hne (String.ofList_injective (hfirst.trans hsecond.symm))

section Names

variable {unit other : String} {index entry : Nat}

theorem isToken_staticName (h : IsToken unit.toList) (index : Nat) : IsToken (staticName unit index).toList := by
  have hd : IsToken (Nat.toDigits 10 index) := by simpa using @isToken_numbered "" (by decide) index
  rw [toList_staticName]
  exact h.append (hd.cons (by decide) (by decide)) (by simp)

theorem readName_of_isToken (h : IsToken unit.toList) (index : Nat) :
    readName unit index = (staticName unit index).toList := by
  have ht := isToken_staticName h index
  rw [readName, Text.firstLine_of_isUnbroken ht.isUnbroken, Text.kept_of_isToken ht]

theorem not_mem_toDigits {c : Char} (h : Text.isDigit c = false) (n : Nat) : c ∉ Nat.toDigits 10 n := by
  intro hm
  rw [Text.isDigit_of_mem_toDigits hm] at h
  cases h

/-- A number that stands after the last mark can be told, and what stands before it. -/
theorem numbered_injective {mark : Char} (hmark : Text.isDigit mark = false) {xs ys : List Char} {m n : Nat}
    (h : xs ++ mark :: Nat.toDigits 10 m = ys ++ mark :: Nat.toDigits 10 n) : xs = ys ∧ m = n := by
  have hsplit : ∀ (cs : List Char) (k : Nat), Asm.splitAtFirst mark (cs ++ mark :: Nat.toDigits 10 k).reverse =
      some ((Nat.toDigits 10 k).reverse, cs.reverse) := by
    intro cs k
    rw [List.reverse_append, List.reverse_cons, List.append_assoc, List.singleton_append]
    exact Asm.splitAtFirst_append (fun hm => not_mem_toDigits hmark k (List.mem_reverse.mp hm)) _
  have hsame := congrArg (fun cs => Asm.splitAtFirst mark cs.reverse) h
  have hparts := (hsplit xs m).symm.trans (hsame.trans (hsplit ys n))
  simp only [Option.some.injEq, Prod.mk.injEq, List.reverse_inj] at hparts
  refine ⟨hparts.2,?_⟩
  have hn := congrArg (fun digits => Nat.ofDigitChars 10 digits 0) hparts.1
  simpa using hn

/-- The index stands after the last dot, so a symbol belongs to one static entry only. -/
theorem staticName_injective (h : staticName unit index = staticName other entry) : unit = other ∧ index = entry := by
  have hl : unit.toList ++ '.' :: Nat.toDigits 10 index = other.toList ++ '.' :: Nat.toDigits 10 entry := by
    rw [← toList_staticName, ← toList_staticName, h]
  obtain ⟨hname,hindex⟩ := numbered_injective (by decide) hl
  exact ⟨String.toList_injective hname,hindex⟩

end Names

section Labels

variable {name : String}

def labelsIn (lines : List Line) : List String :=
  lines.filterMap fun
    | .label name => some name
    | _ => none

theorem mem_labelsIn {lines : List Line} : name ∈ labelsIn lines ↔ .label name ∈ lines := by
  rw [labelsIn, List.mem_filterMap]
  constructor
  · rintro ⟨line,hm,he⟩
    cases line with
    | label other =>
      cases he
      exact hm
    | _ => cases he
  · intro hm
    exact ⟨_,hm,rfl⟩

/-- The labels in the code of an instruction that the program has not named. -/
def madeLabels (number : Nat) : Instruction → List String
  | .operate operator =>
    if operator.isComparison then [trueLabel operator number, endLabel operator number] else []
  | .call _ _ => [returnLabel number]
  | _ => []

theorem labelsIn_pieces (unit : Option String) (number : Nat) (instruction : Instruction) :
    labelsIn (linesOf (pieces unit number instruction)) =
      instruction.defines?.toList ++ madeLabels number instruction := by
  cases instruction with
  | operate operator => cases operator <;> rfl
  | push segment index => cases segment <;> cases unit <;> rfl
  | pop segment index => cases segment <;> cases unit <;> rfl
  | function name locals =>
    have hzero : labelsIn pushZero = [] := rfl
    have hzeros : labelsIn (List.replicate locals.toNat pushZero).flatten = [] := by
      rw [List.eq_nil_iff_forall_not_mem]
      intro other hm
      obtain ⟨lines,hl,hm⟩ := List.mem_flatten.mp (mem_labelsIn.mp hm)
      rw [List.eq_of_mem_replicate hl, ← mem_labelsIn, hzero] at hm
      cases hm
    have hlines : linesOf (pieces unit number (.function name locals)) =
        .label name :: (List.replicate locals.toNat pushZero).flatten := by
      simp [linesOf, pieces, Piece.lines]
    rw [hlines]
    exact congrArg (name :: ·) hzeros
  | _ => rfl

theorem labelsIn_template (unit : String) (number : Nat) (instruction : Instruction) :
    labelsIn (template unit number instruction) = instruction.defines?.toList ++ madeLabels number instruction :=
  labelsIn_pieces (some unit) number instruction

theorem not_dot_of_mem_madeLabels {number : Nat} {instruction : Instruction}
    (h : name ∈ madeLabels number instruction) : '.' ∉ name.toList := by
  have hmade : ∀ {word : String}, '.' ∉ word.toList → '.' ∉ word.toList ++ Nat.toDigits 10 number := by
    intro word hw hm
    rcases List.mem_append.mp hm with hm | hm
    · exact hw hm
    · exact not_mem_toDigits (by decide) number hm
  cases instruction with
  | operate operator =>
    rw [madeLabels] at h
    split at h
    · rcases List.mem_pair.mp h with rfl | rfl
      · rw [toList_trueLabel]
        exact hmade (by cases operator <;> decide)
      · rw [toList_endLabel]
        exact hmade (by cases operator <;> decide)
    · cases h
  | call target arguments =>
    rw [List.mem_singleton.mp h, toList_returnLabel]
    exact hmade (by decide)
  | _ => cases h

/-- A label with a dot in it is the name of a definition. -/
theorem exists_defines_of_label {options : Options} {bootstrap : Bool} {program : List (String × Instruction)}
    (hm : .label name ∈ codeOf options bootstrap program) (hd : '.' ∈ name.toList) :
    ∃ definition ∈ program, definition.2.defines? = some name := by
  rcases exists_of_mem_codeOf hm with ⟨-,hm⟩ | ⟨unit,number,instruction,hi,hm,-⟩
  · have hreturn : labelsIn (bootstrapCode options) = madeLabels 1 (.call options.entry 0) := rfl
    rw [← mem_labelsIn, hreturn] at hm
    exact absurd hd (not_dot_of_mem_madeLabels hm)
  · rw [← mem_labelsIn, labelsIn_template, List.mem_append, Option.mem_toList] at hm
    rcases hm with hm | hm
    · exact ⟨_,hi,hm⟩
    · exact absurd hd (not_dot_of_mem_madeLabels hm)

end Labels

section Entries

variable {options : Options} {bootstrap : Bool} {program : List (String × Instruction)} {unit : String} {index : Nat}

theorem load_mem_of_refers (h : Refers program unit index) (options : Options) (bootstrap : Bool) :
    atSymbol (staticName unit index) ∈ codeOf options bootstrap program := by
  have htemplate : ∀ instruction number, instruction = .push .static index ∨ instruction = .pop .static index →
      atSymbol (staticName unit index) ∈ template unit number instruction := by
    rintro _ number (rfl | rfl)
    · exact List.mem_cons_self
    · exact List.mem_append_right popD List.mem_cons_self
  obtain ⟨instruction,hi,hm⟩ : ∃ instruction, (instruction = .push .static index ∨ instruction = .pop .static index) ∧
      (unit, instruction) ∈ program := by
    rcases h with hm | hm
    · exact ⟨_,Or.inl rfl,hm⟩
    · exact ⟨_,Or.inr rfl,hm⟩
  obtain ⟨position,he⟩ := List.getElem?_of_mem hm
  obtain ⟨number,rest,hn,hrest⟩ := codeOf_at he options bootstrap
  rw [hrest, hn]
  exact List.mem_append_left _ (List.mem_append_right _ (htemplate instruction number hi))

theorem isToken_of_refers (ht : ∀ entry ∈ program, IsToken entry.1.toList) (h : Refers program unit index) :
    IsToken unit.toList := by
  rcases h with hm | hm
  · exact ht _ hm
  · exact ht _ hm

/-- Between names without blanks and comments only a definition can come in the way of a static entry. -/
theorem toldApart_iff {sources : List Asm.SourceLine} {allocated : List String} {table : SymbolTable}
    {words : List Nat} (h : Asm.Resolved sources allocated table words)
    (hr : Asm.Reads sources (codeOf options bootstrap program))
    (hv : ∀ unit index, Refers program unit index → ∃ address, staticAddress? table unit index = some address)
    (ht : ∀ entry ∈ program, IsToken entry.1.toList) :
    ToldApart program sources ↔ ∀ unit index, Refers program unit index →
      ∀ definition ∈ program, definition.2.defines? ≠ some (staticName unit index) := by
  have hread : ∀ unit index, Refers program unit index → readName unit index = (staticName unit index).toList :=
    fun unit index hrefers => readName_of_isToken (isToken_of_refers ht hrefers) index
  have hdot : ∀ unit index, '.' ∈ (staticName unit index).toList := by
    intro unit index
    simp [toList_staticName]
  constructor
  · intro hapart unit index hrefers definition hm hd
    have hlabel := (h.label_mem_iff hr).mpr (label_mem_of_defines hm hd options bootstrap)
    have hunused := hapart.unused unit index hrefers
    rw [hread unit index hrefers, String.ofList_toList, List.map_append] at hunused
    exact hunused (List.mem_append_right _ hlabel)
  · intro hfree
    refine ⟨?_,?_,?_⟩
    · intro unit index hrefers
      obtain ⟨address,ha⟩ := hv unit index hrefers
      have hd : (readName unit index).all Text.isDigit = false := by
        rw [hread unit index hrefers, List.all_eq_false]
        exact ⟨'.',hdot unit index,by decide⟩
      rw [staticAddress?, Asm.loadValue?, if_neg (by simp [hd])] at ha
      split at ha
      · assumption
      · cases ha
    · intro unit index hrefers hm
      rw [hread unit index hrefers, String.ofList_toList, List.map_append] at hm
      rcases List.mem_append.mp hm with hm | hm
      · have hnone : ∀ name ∈ SymbolTable.predefinedEntries.map (·.1), '.' ∉ name.toList := by decide
        exact hnone _ hm (hdot unit index)
      · have hlabel := (h.label_mem_iff hr).mp hm
        obtain ⟨definition,hdefinition,hd⟩ := exists_defines_of_label hlabel (hdot unit index)
        exact hfree unit index hrefers definition hdefinition hd
    · intro unit index other entry hrefers ho hne he
      rw [hread unit index hrefers, hread other entry ho] at he
      obtain ⟨rfl,rfl⟩ := staticName_injective (String.toList_injective he)
      exact hne rfl

end Entries

/-- In a program that is compiled and assembled every load of a static entry is encoded as the address of the entry.
The entries have variables of their own just when the assembler reads them as different symbols without another
meaning; if the names of the units hold neither blanks nor comments, just when no label and no function has the name of
an entry. -/
theorem statics_isolated_iff {options : Options} {units : List CompilationUnit} {summary : Summary}
    {text file : String} {session assembled : Asm.Session} {words : List Nat}
    (hcompile : compile options units = .ok (summary, text))
    (hassemble : session.assemble text file = (assembled, .ok words)) :
    ∃ program lines allocated, programOf units = .ok program ∧ text = Asm.render lines ∧
      lines.filter (!·.isComment) = codeOf options (wantsBootstrap options units) program ∧
      assembled.symbols.entries = SymbolTable.predefinedEntries ++ Asm.labelEntries 0 (Asm.sourceLines text file) ++
        allocated.zipIdx Asm.firstVariable ∧
      (∀ unit index before after, lines = before ++ atSymbol (staticName unit index) :: after → ∃ address,
        staticAddress? assembled.symbols unit index = some address ∧
          words[Asm.instructionCount (Asm.sourceLines (Asm.render before) file)]? = some address) ∧
      (Isolated program assembled.symbols allocated ↔ ToldApart program (Asm.sourceLines text file)) ∧
      ((∀ unit ∈ units, IsToken unit.name.toList) →
        (wantsBootstrap options units = true → IsUnbroken options.entry.toList) →
        (Isolated program assembled.symbols allocated ↔ ∀ unit index, Refers program unit index →
          ∀ definition ∈ program, definition.2.defines? ≠ some (staticName unit index))) := by
  obtain ⟨program,lines,hp,rfl,hcode,-⟩ := code_of_compile hcompile
  obtain ⟨allocated,h⟩ := Asm.resolved_of_assembleLines (Machine.assembleLines_of_assemble hassemble)
  have hloads : ∀ unit index before after, lines = before ++ atSymbol (staticName unit index) :: after → ∃ address,
      staticAddress? assembled.symbols unit index = some address ∧
        words[Asm.instructionCount (Asm.sourceLines (Asm.render before) file)]? = some address := by
    intro unit index before after he
    rw [he] at h
    obtain ⟨address,hword,hv⟩ := h.word_of_load
    exact ⟨address,hv,hword⟩
  have hv : ∀ unit index, Refers program unit index → ∃ address,
      staticAddress? assembled.symbols unit index = some address := by
    intro unit index hr
    have hm := load_mem_of_refers hr options (wantsBootstrap options units)
    rw [← hcode] at hm
    obtain ⟨before,after,he⟩ := List.append_of_mem (List.mem_filter.mp hm).1
    obtain ⟨address,ha,-⟩ := hloads unit index before after he
    exact ⟨address,ha⟩
  refine ⟨program,lines,allocated,hp,rfl,hcode,h.entries,hloads,isolated_iff_toldApart h hv,?_⟩
  intro hu he
  obtain ⟨found,hf,hreads⟩ := reads_of_compile (fun unit hm => (hu unit hm).isUnbroken) he hcompile file
  obtain rfl : program = found := Except.ok.inj (hp.symm.trans hf)
  rw [isolated_iff_toldApart h hv]
  refine toldApart_iff h hreads hv ?_
  intro entry hm
  obtain ⟨unit,hunit,hname,-⟩ := exists_of_mem_programOf hp hm
  exact hname ▸ hu unit hunit

/-- Two units with static entries, and a label that looks like one more. -/
def entryUnits : List CompilationUnit :=
  [.inMemory "A" "push constant 7\npop static 0\npush static 1\nlabel A.2\ngoto A.2", .inMemory "B" "push static 0"]

def entryProgram : List (String × Instruction) :=
  [("A", .push .constant 7), ("A", .pop .static 0), ("A", .push .static 1), ("A", .label "A.2"), ("A", .goto "A.2"),
    ("B", .push .static 0)]

set_option maxRecDepth 100000 in
theorem entryUnits_compiled :
    (compile { bootstrap := some false } entryUnits).toOption.map (·.1.warnings) = some [] := by decide +kernel

set_option maxRecDepth 100000 in
theorem programOf_entryUnits : programOf entryUnits = .ok entryProgram :=
  Outcome.toOption_eq_some.mp (by decide +kernel)

set_option maxRecDepth 100000 in
theorem isLoadable_entryProgram :
    Machine.isLoadable (codeOf { bootstrap := some false } false entryProgram) = true := by decide +kernel

theorem entries_of_two_units_are_isolated : ∃ summary text assembled words allocated,
    compile { bootstrap := some false } entryUnits = .ok (summary, text) ∧
    Asm.Session.new.assemble text "out.asm" = (assembled, .ok words) ∧ programOf entryUnits = .ok entryProgram ∧
    Refers entryProgram "A" 0 ∧ Refers entryProgram "A" 1 ∧ Refers entryProgram "B" 0 ∧
    Isolated entryProgram assembled.symbols allocated ∧ ToldApart entryProgram (Asm.sourceLines text "out.asm") := by
  have hnames : ∀ unit ∈ entryUnits, IsToken unit.name.toList := by decide
  obtain ⟨summary,text,assembled,words,-,hc,-,ha,-⟩ := Machine.exists_build
    (fun unit hm => (hnames unit hm).isUnbroken) (by decide) entryUnits_compiled programOf_entryUnits
    isLoadable_entryProgram
  obtain ⟨program,lines,allocated,hp,-,-,-,-,hapart,hisolated⟩ := statics_isolated_iff hc ha
  obtain rfl : entryProgram = program := Except.ok.inj (programOf_entryUnits.symm.trans hp)
  have hfree : ∀ unit index, Refers entryProgram unit index →
      ∀ definition ∈ entryProgram, definition.2.defines? ≠ some (staticName unit index) := by
    intro unit index hr
    have hplaces : ("A", 0) = (unit, index) ∨ ("A", 1) = (unit, index) ∨ ("B", 0) = (unit, index) := by
      simpa [Refers, entryProgram, eq_comm, or_comm, or_left_comm] using hr
    rcases hplaces with he | he | he
    all_goals
      cases he
      decide
  have hi := (hisolated hnames fun hb => by cases hb).mpr hfree
  exact ⟨summary,text,assembled,words,allocated,hc,ha,hp,by decide,by decide,by decide,hi,hapart.mp hi⟩

/-- Two units whose names differ by a blank. -/
def blankUnits : List CompilationUnit :=
  [.inMemory "A B" "push constant 7\npop static 0", .inMemory "AB" "push static 0"]

set_option maxRecDepth 100000 in
theorem blank_in_name_merges_entries : (blankUnits.map (·.name)).Nodup ∧
    (programOf blankUnits).toOption = some [("A B", .push .constant 7), ("A B", .pop .static 0),
      ("AB", .push .static 0)] ∧
    ((compile { bootstrap := some false } blankUnits).toOption.bind fun result =>
      (Asm.assembleLines (Asm.sourceLines result.2 "out.asm")).toOption.map fun assembled =>
        (staticAddress? assembled.1 "A B" 0, staticAddress? assembled.1 "AB" 0)) = some (some 16, some 16) := by
  decide +kernel

end HackToolchain.Compile
