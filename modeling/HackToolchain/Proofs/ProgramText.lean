import HackToolchain.Proofs.InstructionKinds

/-! # The text of a program

A program is printed with sixteen binary digits to a line.  Words of a program that is not too long and does not use too
many variables fit into sixteen bits, so the lines tell the words exactly, and a processor holds them as they are.  An
assembler that is used again keeps the program of the last source that it accepted, however the later ones failed.
-/
namespace HackToolchain.Asm

open Machine (Processor memorySize)
open Outcome (result result_bind_ok result_bind_error result_get_bind)

section Printing

theorem digitChar_of_lt_two {digit : Nat} (h : digit < 2) : digit.digitChar = '0' ∨ digit.digitChar = '1' := by
  have hcases : digit = 0 ∨ digit = 1 := by omega
  rcases hcases with rfl | rfl
  · exact .inl rfl
  · exact .inr rfl

theorem mem_toDigits_two {n : Nat} {c : Char} (h : c ∈ Nat.toDigits 2 n) : c = '0' ∨ c = '1' := by
  induction n using Nat.strongRecOn with
  | ind n ih =>
    rw [Nat.toDigits_eq_if (by decide)] at h
    split at h
    next hn =>
      cases List.mem_singleton.mp h
      exact digitChar_of_lt_two hn
    next hn =>
      rcases List.mem_append.mp h with h | h
      · exact ih (n / 2) (by omega) h
      · cases List.mem_singleton.mp h
        exact digitChar_of_lt_two (by omega)

theorem mem_binary {word : Nat} {c : Char} (h : c ∈ binary word) : c = '0' ∨ c = '1' := by
  rcases List.mem_append.mp h with h | h
  · exact .inl (List.eq_of_mem_replicate h)
  · exact mem_toDigits_two h

theorem length_binary {word : Nat} (h : word ≤ 0xFFFF) : (binary word).length = 16 := by
  have hlength : (Nat.toDigits 2 word).length ≤ 16 := (Nat.length_toDigits_le_iff (by decide) (by decide)).mpr (by omega)
  simp [binary]
  omega

theorem ofDigitChars_replicate_zero (count : Nat) : Nat.ofDigitChars 2 (List.replicate count '0') 0 = 0 := by
  induction count with
  | zero => rfl
  | succ count ih => rw [List.replicate_succ, Nat.ofDigitChars_cons]; exact ih

/-- The digits tell the word, however wide it is. -/
theorem ofDigitChars_binary (word : Nat) : Nat.ofDigitChars 2 (binary word) 0 = word := by
  rw [binary, Nat.ofDigitChars_append, ofDigitChars_replicate_zero, Nat.ofDigitChars_toDigits (by decide) (by decide)]

theorem toList_hackText (words : List Nat) :
    (hackText words).toList = (words.map binary).flatMap fun row => row ++ ['\n'] := by
  have hf : ∀ text : String, (words.foldl (fun text word => text ++ String.ofList (binary word) ++ "\n") text).toList =
      text.toList ++ (words.map binary).flatMap fun row => row ++ ['\n'] := by
    induction words with
    | nil => simp
    | cons word rest ih =>
      intro text
      rw [List.foldl_cons, ih]
      simp
  simpa [hackText] using hf ""

theorem lines_hackText (words : List Nat) : Text.lines (hackText words) = words.map binary := by
  rw [Text.lines, toList_hackText, Text.linesFrom_flatMap]
  intro row hrow c hc
  obtain ⟨word,-,rfl⟩ := List.mem_map.mp hrow
  rcases mem_binary hc with rfl | rfl <;> decide

end Printing

section Widths

variable {lines : List SourceLine} {table : SymbolTable} {words : List Nat}

theorem Resolved.get?_lt_of_counts (h : Resolved lines (variablesIn (takenNames lines) lines) table words)
    (hw : words.length ≤ 32767) (hv : {name | IsVariable lines name}.ncard ≤ 32752) {name : String} {address : Nat}
    (hg : table.get? name = some address) : address < memorySize := by
  rw [h.ncard_isVariable] at hv
  have hlength := h.length_words
  unfold memorySize
  rcases h.get?_cases hg with hle | ⟨before,line,after,he,-,rfl⟩ | ⟨i,hi,rfl⟩
  · exact Nat.lt_succ_of_le hle
  · rw [he, instructionCount_append] at hlength
    omega
  · unfold firstVariable
    omega

theorem Resolved.word_le_of_counts (h : Resolved lines (variablesIn (takenNames lines) lines) table words)
    (hw : words.length ≤ 32767) (hv : {name | IsVariable lines name}.ncard ≤ 32752) {word : Nat} (hm : word ∈ words) :
    word ≤ 0xFFFF := by
  have hsome : some word ∈ words.map some := List.mem_map.mpr ⟨word,hm,rfl⟩
  rw [← h.words] at hsome
  obtain ⟨line,-,hline⟩ := List.mem_map.mp hsome
  unfold wordOf? at hline
  split at hline
  next =>
    have hlt := loadValue?_lt (fun name value => h.get?_lt_of_counts hw hv) hline
    unfold memorySize at hlt
    omega
  next =>
    obtain ⟨instruction,-,rfl⟩ := Option.map_eq_some_iff.mp hline
    exact instruction.code_bounds.2

/-- Words of sixteen bits are held as they are. -/
theorem exists_load_unchanged (hl : words.length ≤ memorySize) (hw : ∀ word ∈ words, word ≤ 0xFFFF) (cpu : Processor) :
    ∃ loaded, cpu.load (words.map Int.ofNat).toArray = .ok loaded ∧ loaded.size = words.length ∧
      ∀ i < words.length, loaded.rom[i]?.map BitVec.toNat = words[i]? := by
  have hsize : ¬memorySize < (words.map Int.ofNat).toArray.size := by
    rw [List.size_toArray, List.length_map]
    omega
  have hload : cpu.load (words.map Int.ofNat).toArray = .ok _ := if_neg hsize
  refine ⟨_,hload,by simp [Processor.reset],?_⟩
  intro i hi
  have hword := List.getElem?_eq_getElem hi
  have hle := hw _ (List.getElem_mem hi)
  rw [(Machine.rom_of_load hload).2, Machine.getElem?_ofProgram hword hl, hword, Option.map_some, BitVec.toNat_ofNat]
  congr 1
  omega

end Widths

/-- A text that tells the words of a program. -/
structure TellsWords (text : String) (words : List Nat) : Prop where
  ended : text.toList = (Text.lines text).flatMap fun row => row ++ ['\n']
  count : (Text.lines text).length = words.length
  binary : ∀ row ∈ Text.lines text, row.length = 16 ∧ ∀ c ∈ row, c = '0' ∨ c = '1'
  read : (Text.lines text).map (fun row => Nat.ofDigitChars 2 row 0) = words
  held : ∀ cpu : Processor, ∃ loaded,
    cpu.load ((Text.lines text).map fun row => Int.ofNat (Nat.ofDigitChars 2 row 0)).toArray = .ok loaded ∧
      loaded.size = words.length ∧ ∀ i < words.length, loaded.rom[i]?.map BitVec.toNat = words[i]?

theorem tellsWords_hackText {words : List Nat} (hl : words.length ≤ memorySize) (hw : ∀ word ∈ words, word ≤ 0xFFFF) :
    TellsWords (hackText words) words := by
  have hlines := lines_hackText words
  have hread : (Text.lines (hackText words)).map (fun row => Nat.ofDigitChars 2 row 0) = words := by
    rw [hlines, List.map_map]
    exact List.map_id'' ofDigitChars_binary words
  refine ⟨by rw [hlines, toList_hackText],by rw [hlines, List.length_map],?_,hread,?_⟩
  · intro row hrow
    rw [hlines] at hrow
    obtain ⟨word,hm,rfl⟩ := List.mem_map.mp hrow
    exact ⟨length_binary (hw word hm),fun c => mem_binary⟩
  · intro cpu
    have hprogram : (Text.lines (hackText words)).map (fun row => Int.ofNat (Nat.ofDigitChars 2 row 0)) =
        words.map Int.ofNat := List.map_map.symm.trans (congrArg (List.map Int.ofNat) hread)
    rw [hprogram]
    exact exists_load_unchanged hl hw cpu

/-- An assembler at work.  It has one table that both passes change, the address of the next variable, and the words of
the last program that was finished. -/
structure Bench where
  symbols : SymbolTable
  nextVariable : Nat
  words : List Nat

namespace Bench

/-- Work on a bench. -/
abbrev Work := ExceptT Failure (StateM Bench)

def new : Bench := ⟨.empty,firstVariable,[]⟩

def session (bench : Bench) : Session := ⟨bench.symbols,bench.words⟩

/-- Enters the label on a line; the number of instructions up to and with the line is given back. -/
def placeLabel (address : Nat) (line : SourceLine) : Work Nat := do
  if line.isLabel then
    match line.labelName with
    | .error fault => throw (line.fail fault)
    | .ok name =>
      match (← get).symbols.get? name with
      | some other => throw (line.fail (.duplicateLabel name other))
      | none =>
        modify fun bench => { bench with symbols := bench.symbols.insert name address }
        return address
  else return address + 1

/-- The address of a symbol, which becomes a variable if it is new. -/
def addressOf (name : String) : Work Nat := do
  match (← get).symbols.get? name with
  | some address => return address
  | none =>
    let address := (← get).nextVariable
    modify fun bench => { bench with symbols := bench.symbols.insert name address }
    modify fun bench => { bench with nextVariable := address + 1 }
    return address

def load (line : SourceLine) (operand : List Char) : Work Nat :=
  if !operand.isEmpty && operand.all Text.isDigit then
    match Text.decimal operand with
    | .error fault => throw (.numeral fault)
    | .ok value => if largestLoad < value then throw (line.fail (.constantOutOfRange value)) else return value
  else if isSymbol operand then addressOf (String.ofList operand)
  else throw (line.fail (.invalidSymbol (String.ofList operand)))

def encode (line : SourceLine) : Work Nat :=
  if line.isLoad then load line (line.text.drop 1)
  else match Compute.parse line.text with
    | .ok instruction => return instruction.code
    | .error fault => throw (line.fail fault)

/-- Clears the table, goes through the labels, then through the instructions, and puts the words in their place when
all of them are there. -/
def assemble (source file : String) : Work (List Nat) := do
  let lines := sourceLines source file
  modify fun bench => { bench with symbols := .predefined }
  modify fun bench => { bench with nextVariable := firstVariable }
  let _ ← lines.foldlM placeLabel 0
  let words ← (lines.filter (!·.isLabel)).mapM encode
  modify fun bench => { bench with words }
  return words

/-- Entering a label in place is one step of the first pass. -/
theorem placeLabel_cases (bench : Bench) (address : Nat) (line : SourceLine) :
    (∃ labels, Labels.add ⟨bench.symbols,address⟩ line = .ok labels ∧
      result (placeLabel address line) bench = (.ok labels.address, { bench with symbols := labels.symbols })) ∨
    ∃ failure, Labels.add ⟨bench.symbols,address⟩ line = .error (bench.symbols, failure) ∧
      result (placeLabel address line) bench = (.error failure, bench) := by
  unfold Labels.add placeLabel
  cases line.isLabel with
  | false => exact .inl ⟨_,rfl,rfl⟩
  | true =>
    cases line.labelName with
    | error fault => exact .inr ⟨_,rfl,rfl⟩
    | ok name =>
      simp only [if_true, result_get_bind]
      cases bench.symbols.get? name with
      | some other => exact .inr ⟨_,rfl,rfl⟩
      | none => exact .inl ⟨_,rfl,rfl⟩

/-- Encoding a line in place is one step of the second pass. -/
theorem encode_cases (bench : Bench) (line : SourceLine) (words : List Nat) :
    (∃ word symbols nextVariable,
      Encoding.add ⟨bench.symbols,bench.nextVariable,words⟩ line = .ok ⟨symbols,nextVariable,word :: words⟩ ∧
      result (encode line) bench = (.ok word, { bench with symbols, nextVariable })) ∨
    ∃ failure, Encoding.add ⟨bench.symbols,bench.nextVariable,words⟩ line = .error (bench.symbols, failure) ∧
      result (encode line) bench = (.error failure, bench) := by
  unfold Encoding.add encode
  cases line.isLoad with
  | false =>
    unfold Encoding.compute
    cases Compute.parse line.text with
    | ok instruction => exact .inl ⟨_,_,_,rfl,rfl⟩
    | error fault => exact .inr ⟨_,rfl,rfl⟩
  | true =>
    simp only [if_true]
    generalize line.text.drop 1 = operand
    unfold Encoding.load load
    cases !operand.isEmpty && operand.all Text.isDigit with
    | true =>
      simp only [if_true]
      unfold Encoding.loadNumber
      cases Text.decimal operand with
      | error fault => exact .inr ⟨_,rfl,rfl⟩
      | ok value =>
        by_cases hv : largestLoad < value
        · simp only [if_pos hv]
          exact .inr ⟨_,rfl,rfl⟩
        · simp only [if_neg hv]
          exact .inl ⟨_,_,_,rfl,rfl⟩
    | false =>
      cases isSymbol operand with
      | false => exact .inr ⟨_,rfl,rfl⟩
      | true =>
        simp only [if_true, Bool.false_eq_true, if_false, addressOf, result_get_bind, Encoding.loadSymbol]
        cases bench.symbols.get? (String.ofList operand) with
        | some address => exact .inl ⟨_,_,_,rfl,rfl⟩
        | none => exact .inl ⟨_,_,_,rfl,rfl⟩

theorem placeLabels_cases (bench : Bench) (address : Nat) (lines : List SourceLine) :
    (∃ labels, lines.foldlM Labels.add ⟨bench.symbols,address⟩ = .ok labels ∧
      result (lines.foldlM placeLabel address) bench = (.ok labels.address, { bench with symbols := labels.symbols })) ∨
    ∃ symbols failure, lines.foldlM Labels.add ⟨bench.symbols,address⟩ = .error (symbols, failure) ∧
      result (lines.foldlM placeLabel address) bench = (.error failure, { bench with symbols }) := by
  induction lines generalizing bench address with
  | nil => exact .inl ⟨_,rfl,rfl⟩
  | cons line rest ih =>
    simp only [List.foldlM_cons]
    rcases placeLabel_cases bench address line with ⟨labels,ha,hr⟩ | ⟨failure,ha,hr⟩
    · rw [ha, result_bind_ok hr]
      exact ih { bench with symbols := labels.symbols } labels.address
    · rw [ha, result_bind_error hr]
      exact .inr ⟨_,_,rfl,rfl⟩

theorem encodings_cases (bench : Bench) (words : List Nat) (lines : List SourceLine) :
    (∃ last found, lines.foldlM Encoding.add ⟨bench.symbols,bench.nextVariable,words⟩ = .ok last ∧
      last.words = found.reverse ++ words ∧ result (lines.mapM encode) bench =
        (.ok found, { bench with symbols := last.symbols, nextVariable := last.nextVariable })) ∨
    ∃ symbols nextVariable failure,
      lines.foldlM Encoding.add ⟨bench.symbols,bench.nextVariable,words⟩ = .error (symbols, failure) ∧
      result (lines.mapM encode) bench = (.error failure, { bench with symbols, nextVariable }) := by
  induction lines generalizing bench words with
  | nil => exact .inl ⟨_,[],rfl,rfl,rfl⟩
  | cons line rest ih =>
    rw [List.foldlM_cons, List.mapM_cons]
    rcases encode_cases bench line words with ⟨word,symbols,nextVariable,ha,hr⟩ | ⟨failure,ha,hr⟩
    · rw [ha, result_bind_ok hr]
      rcases ih { bench with symbols, nextVariable } (word :: words) with
        ⟨last,found,hf,hw,hrest⟩ | ⟨symbols,nextVariable,failure,hf,hrest⟩
      · rw [result_bind_ok hrest]
        exact .inl ⟨last,word :: found,hf,by simp [hw],rfl⟩
      · rw [result_bind_error hrest]
        exact .inr ⟨_,_,_,hf,rfl⟩
    · rw [ha, result_bind_error hr]
      exact .inr ⟨_,_,_,rfl,rfl⟩

/-- Working in place gives the words or the failure, the symbols and the words kept of a session. -/
theorem result_assemble (bench : Bench) (source file : String) :
    (result (assemble source file) bench).1 = (bench.session.assemble source file).2 ∧
      (result (assemble source file) bench).2.session = (bench.session.assemble source file).1 := by
  have hcleared : result (assemble source file) bench = result (do
      let _ ← (sourceLines source file).foldlM placeLabel 0
      let words ← ((sourceLines source file).filter (!·.isLabel)).mapM encode
      modify fun bench => { bench with words }
      return words) { bench with symbols := .predefined, nextVariable := firstVariable } := rfl
  rw [hcleared, Session.assemble]
  rcases placeLabels_cases { bench with symbols := .predefined, nextVariable := firstVariable } 0
    (sourceLines source file) with ⟨labels,hlabels,hr⟩ | ⟨symbols,failure,hlabels,hr⟩
  · have hfirst : assembleLines (sourceLines source file) = encodeLines labels.symbols (sourceLines source file) := by
      rw [assembleLines, placeLabels, hlabels]
      rfl
    rw [result_bind_ok hr, hfirst, encodeLines]
    rcases encodings_cases { bench with symbols := labels.symbols, nextVariable := firstVariable } []
      ((sourceLines source file).filter (!·.isLabel)) with
      ⟨last,found,hwords,hfound,hr⟩ | ⟨symbols,nextVariable,failure,hwords,hr⟩
    · obtain rfl : found = last.words.reverse := by simp [hfound]
      rw [result_bind_ok hr, hwords]
      exact ⟨rfl,rfl⟩
    · rw [result_bind_error hr, hwords]
      exact ⟨rfl,rfl⟩
  · rw [result_bind_error hr, assembleLines, placeLabels, hlabels]
    exact ⟨rfl,rfl⟩

/-- A new bench after some sources, each with the name of its file. -/
def after (calls : List (String × String)) : Bench :=
  calls.foldl (fun bench call => (result (assemble call.1 call.2) bench).2) new

end Bench

namespace Session

/-- A new assembler after some sources, each with the name of its file. -/
def after (calls : List (String × String)) : Session :=
  calls.foldl (fun session call => (session.assemble call.1 call.2).1) new

theorem after_concat (calls : List (String × String)) (call : String × String) :
    after (calls ++ [call]) = ((after calls).assemble call.1 call.2).1 := List.foldl_concat _ _ _ _

/-- What comes of a source does not depend on the sources before it. -/
theorem outcome_eq (session : Session) (source file : String) :
    (session.assemble source file).2 = Asm.assemble source file := by
  unfold Asm.assemble assemble
  cases assembleLines (sourceLines source file) with
  | ok result => rfl
  | error stopped => rfl

theorem words_of_ok {source file : String} {words : List Nat} (h : Asm.assemble source file = .ok words)
    (session : Session) : (session.assemble source file).1.words = words := by
  rw [← outcome_eq session] at h
  exact (assemble_eq_ok.mp (Prod.ext rfl h)).2

theorem words_of_error {source file : String} {failure : Failure} (h : Asm.assemble source file = .error failure)
    (session : Session) : (session.assemble source file).1.words = session.words := by
  rw [← outcome_eq session] at h
  unfold assemble at h ⊢
  cases hl : assembleLines (sourceLines source file) with
  | ok result => simp [hl] at h
  | error stopped => rfl

/-- Sources that fail leave the words. -/
theorem words_foldl_of_errors {calls : List (String × String)}
    (h : ∀ call ∈ calls, ∃ failure, Asm.assemble call.1 call.2 = .error failure) (session : Session) :
    (calls.foldl (fun session call => (session.assemble call.1 call.2).1) session).words = session.words := by
  induction calls generalizing session with
  | nil => rfl
  | cons call rest ih =>
    obtain ⟨⟨failure,hcall⟩,hrest⟩ := List.forall_mem_cons.mp h
    rw [List.foldl_cons, ih hrest, words_of_error hcall]

theorem session_after (calls : List (String × String)) : (Bench.after calls).session = after calls := by
  induction calls using List.reverseRecOn with
  | nil => rfl
  | append_singleton calls call ih =>
    rw [after_concat, ← ih, ← (Bench.result_assemble (Bench.after calls) call.1 call.2).2, Bench.after,
      List.foldl_concat]
    rfl

end Session

/-- What an assembler has after some sources. -/
structure KeepsProgram (calls : List (String × String)) : Prop where
  /-- Changing one table in place leaves no trace of the sources before. -/
  inPlace : (Bench.after calls).session = Session.after calls ∧ ∀ source file,
    (result (Bench.assemble source file) (Bench.after calls)).1 = ((Session.after calls).assemble source file).2
  fresh : ∀ source file, ((Session.after calls).assemble source file).2 = (Session.new.assemble source file).2
  last : ∀ before source file later words, calls = before ++ (source, file) :: later →
    ((Session.after before).assemble source file).2 = .ok words →
    (∀ call ∈ later, ∃ failure, (Session.new.assemble call.1 call.2).2 = .error failure) →
    (Session.after calls).words = words ∧ (Session.new.assemble source file).1.words = words
  untouched : (∀ call ∈ calls, ∃ failure, (Session.new.assemble call.1 call.2).2 = .error failure) →
    (Session.after calls).words = Session.new.words

theorem keepsProgram (calls : List (String × String)) : KeepsProgram calls := by
  refine ⟨⟨Session.session_after calls,?_⟩,?_,?_,fun h => Session.words_foldl_of_errors h _⟩
  · intro source file
    rw [(Bench.result_assemble _ source file).1, Session.session_after]
  · intro source file
    exact Session.outcome_eq _ source file
  · intro before source file later words he hok hlater
    have hfresh : Asm.assemble source file = .ok words := (Session.outcome_eq _ source file).symm.trans hok
    refine ⟨?_,Session.words_of_ok hfresh _⟩
    rw [he, Session.after, List.foldl_append, List.foldl_cons, Session.words_foldl_of_errors hlater]
    exact Session.words_of_ok hfresh _

/-- The text of a program tells its words, one to a line, if the program is not too long and has not too many variables,
and a processor holds what the text tells.  After any sources an assembler has the program of the last that it
accepted, as a new one would have it. -/
theorem program_text_is_faithful (calls : List (String × String)) : KeepsProgram calls ∧
    ∀ source file assembled words, (Session.after calls).assemble source file = (assembled, .ok words) →
      words.length ≤ 32767 → {name | IsVariable (sourceLines source file) name}.ncard ≤ 32752 →
      assembled.words = words ∧ TellsWords (hackText assembled.words) words := by
  refine ⟨keepsProgram calls,?_⟩
  intro source file assembled words h hw hv
  obtain ⟨hlines,rfl⟩ := Session.assemble_eq_ok.mp h
  have hr := resolved_variables hlines
  have hsize : assembled.words.length ≤ memorySize := by
    unfold memorySize
    omega
  exact ⟨rfl,tellsWords_hackText hsize fun word => hr.word_le_of_counts hw hv⟩

/-- A program, a source that is refused, and another program. -/
theorem second_program_is_told : ∃ assembled,
    (Session.after [("@7", "seven.asm"), ("@x\n(7)", "refused.asm")]).assemble loopSource "loop.asm" =
      (assembled, .ok [2, 16, 17, 64528, 16, 0, 6, 60039]) ∧
    {name | IsVariable (sourceLines loopSource "loop.asm") name}.ncard ≤ 32752 ∧
    TellsWords (hackText assembled.words) [2, 16, 17, 64528, 16, 0, 6, 60039] ∧
    (Session.after [("@7", "seven.asm"), ("@x\n(7)", "refused.asm")]).words = [7] := by
  obtain ⟨hkept,htext⟩ := program_text_is_faithful [("@7", "seven.asm"), ("@x\n(7)", "refused.asm")]
  obtain ⟨first,hfirst,-⟩ := loopSource_assembled
  have houtcome := (hkept.fresh loopSource "loop.asm").trans (congrArg Prod.snd hfirst)
  have hvariables : {name | IsVariable (sourceLines loopSource "loop.asm") name}.ncard ≤ 32752 := by
    rw [(resolved_variables (Session.assemble_eq_ok.mp hfirst).1).ncard_isVariable]
    decide +kernel
  have hseven : ((Session.after []).assemble "@7" "seven.asm").2 = .ok [7] :=
    Outcome.toOption_eq_some.mp (by decide +kernel)
  have hrefused : ∃ failure, (Session.new.assemble "@x\n(7)" "refused.asm").2 = .error failure := by
    cases hr : (Session.new.assemble "@x\n(7)" "refused.asm").2 with
    | error failure => exact ⟨failure,rfl⟩
    | ok words =>
      have hnone : (Session.new.assemble "@x\n(7)" "refused.asm").2.toOption = none := by decide +kernel
      rw [hr] at hnone
      cases hnone
  refine ⟨_,Prod.ext rfl houtcome,hvariables,?_,?_⟩
  · exact (htext _ _ _ _ (Prod.ext rfl houtcome) (by decide) hvariables).2
  · exact (hkept.last [] _ _ _ [7] rfl hseven (by simpa using hrefused)).1

end HackToolchain.Asm
