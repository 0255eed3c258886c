import HackToolchain.Proofs.Grammar

/-! # Printing commands

A command that carries what its kind asks for is printed as a line of the grammar, with one blank between its words.
The lines are read back as the commands that were printed, and reading gives no other commands; so a program that has
been read, printed and read again is the same program, with its numerals in their plain form.
-/
namespace HackToolchain.Vm

open Text (IsWord IsShort)

namespace Command

/-- A command with the arguments that its kind carries, and no others. -/
def IsWellFormed (command : Command) : Prop :=
  match command.kind with
  | .arithmetic => (∃ operator : Operator, command.name = some operator.keyword) ∧ command.index = none
  | .ret => command.name = none ∧ command.index = none
  | .label | .goto | .ifGoto => (∃ name, command.name = some name ∧ IsWord name.toList) ∧ command.index = none
  | .push | .pop | .function | .call => (∃ name, command.name = some name ∧ IsWord name.toList) ∧
      ∃ number : Nat, command.index = some (number : Int) ∧ IsShort number

/-- What a command says, wherever it stands. -/
def content (command : Command) : Kind × Option String × Option Int := (command.kind, command.name, command.index)

/-- A command as it is read back from the line on which it was printed. -/
def onLine (command : Command) (file : String) (number : Nat) : Command :=
  { command with position := some ⟨file,number,1⟩, text := some command.render }

end Command

/-- The third of three words is shorter than the longest numeral if it is a row of digits. -/
def HasShortIndex (words : List (List Char)) : Prop :=
  ∀ keyword name digits, words = [keyword, name, digits] → (∀ c ∈ digits, Text.isAsciiDigit c = true) →
    digits.length < Text.maxNumeralDigits

theorem Line.hasShortIndex_iff {line : Line} :
    line.hasShortIndex = true ↔ HasShortIndex (line.words.map (·.text)) := by
  constructor
  · intro h keyword name digits hwords hd
    simp only [List.map_eq_cons_iff, List.map_eq_nil_iff] at hwords
    obtain ⟨head,_,hw,-,word,_,rfl,-,index,_,rfl,rfl,rfl⟩ := hwords
    exact length_of_hasShortIndex h hw (List.all_eq_true.mpr hd)
  · intro h
    unfold hasShortIndex
    split
    next head name index hw =>
      have hshort := h head.text name.text index.text (by rw [hw]; rfl)
      rw [← List.all_eq_true] at hshort
      by_cases hd : index.text.all Text.isAsciiDigit = true
      · rw [Bool.or_eq_true, decide_eq_true_eq]
        exact .inr (hshort hd)
      · simp [hd]
    next => rfl

theorem isWord_keyword {keyword : String} {kind : Kind} (h : (keyword, kind) ∈ Kind.keywords) :
    IsWord keyword.toList := by
  have hall : ∀ entry ∈ Kind.keywords, entry.1.toList ≠ [] ∧ Text.IsToken entry.1.toList := by decide
  exact Text.isWord_iff.mpr (hall _ h)

theorem isWord_operator (operator : Operator) : IsWord operator.keyword.toList := by
  rw [Text.isWord_iff]
  cases operator <;> decide

theorem isWord_toDigits (n : Nat) : IsWord (Nat.toDigits 10 n) := by
  refine Text.isWord_iff.mpr ⟨Nat.toDigits_ne_nil,?_⟩
  rw [← Nat.toList_repr]
  exact Text.isToken_toString n

theorem length_toDigits {n : Nat} (h : IsShort n) : (Nat.toDigits 10 n).length < Text.maxNumeralDigits := by
  obtain ⟨digits,hd,hn⟩ := h
  have hle : 10 ^ digits ≤ 10 ^ max digits 1 := Nat.pow_le_pow_right (by decide) (Nat.le_max_left digits 1)
  have hlength := (Nat.length_toDigits_le_iff (by decide) (by omega : 0 < max digits 1)).mpr (Nat.lt_of_lt_of_le hn hle)
  have hmax : 1 < Text.maxNumeralDigits := by decide
  omega

/-- Every kind but the arithmetical one is announced by its keyword. -/
theorem exists_keyword {kind : Kind} (h : kind ≠ .arithmetic) :
    ∃ keyword, kind.keyword? = some keyword ∧ (keyword, kind) ∈ Kind.keywords := by
  cases kind with
  | arithmetic => exact absurd rfl h
  | push | pop | label | goto | ifGoto | function | ret | call => exact ⟨_,rfl,by decide⟩

theorem hasSecond_eq (kind : Kind) : kind.hasSecond = decide (kind.arity = 2) := by
  cases kind <;> rfl

theorem not_bare {kind : Kind} (h : kind.arity ≠ 0) : ¬(kind = .arithmetic ∨ kind = .ret) := by
  rintro (rfl | rfl)
  · exact h rfl
  · exact h rfl

namespace Command

/-- The words of a printed command. -/
structure IsWritten (command : Command) (words : List (List Char)) : Prop where
  phrase : Phrase words command.kind command.name command.index
  isWord : ∀ word ∈ words, IsWord word
  isShort : HasShortIndex words
  joined : command.render.toList = [' '].intercalate words

theorem isWritten_operator {command : Command} (hk : command.kind = .arithmetic) {operator : Operator}
    (hn : command.name = some operator.keyword) (hi : command.index = none) :
    command.IsWritten [operator.keyword.toList] := by
  have hempty : operator.keyword.isEmpty = false := by cases operator <;> decide
  refine ⟨?_,by simpa using isWord_operator operator,by rintro _ _ _ ⟨⟩,?_⟩
  · rw [hk, hn, hi]
    exact .operator operator
  · rw [render, if_pos (.inl hk), keyword, hk, hn]
    simp [Kind.keyword?, hempty]

theorem isWritten_ret {command : Command} (hk : command.kind = .ret) (hn : command.name = none)
    (hi : command.index = none) : command.IsWritten ["return".toList] := by
  refine ⟨?_,by simpa using isWord_keyword (by decide : ("return", Kind.ret) ∈ _),by rintro _ _ _ ⟨⟩,?_⟩
  · rw [hk, hn, hi]
    exact .ret
  · rw [render, if_pos (.inr hk), keyword, hk]
    simp [Kind.keyword?]

theorem exists_isWritten_named {command : Command} (ha : command.kind.arity = 1) {name : String}
    (hn : command.name = some name) (hname : IsWord name.toList) (hi : command.index = none) :
    ∃ words, command.IsWritten words := by
  have hbare := not_bare (by omega : command.kind.arity ≠ 0)
  obtain ⟨keyword,hkeyword,hk⟩ := exists_keyword (not_or.mp hbare).1
  have hsecond : command.kind.hasSecond = false := by simp [hasSecond_eq, ha]
  refine ⟨[keyword.toList, name.toList],?_,?_,by rintro _ _ _ ⟨⟩,?_⟩
  · have hphrase := Phrase.named (mem_namedKeywords.mpr ⟨hk,ha⟩) name.toList
    rwa [String.ofList_toList, ← hn, ← hi] at hphrase
  · simpa using ⟨isWord_keyword hk,hname⟩
  · simp [render, hbare, hsecond, Command.keyword, hkeyword, hn, List.intercalate_cons_cons, toString]

theorem exists_isWritten_counted {command : Command} (ha : command.kind.arity = 2) {name : String}
    (hn : command.name = some name) (hname : IsWord name.toList) {number : Nat}
    (hi : command.index = some (number : Int)) (hs : IsShort number) : ∃ words, command.IsWritten words := by
  have hbare := not_bare (by omega : command.kind.arity ≠ 0)
  obtain ⟨keyword,hkeyword,hk⟩ := exists_keyword (not_or.mp hbare).1
  have hsecond : command.kind.hasSecond = true := by simp [hasSecond_eq, ha]
  have hrepr : (number : Int).repr.toList = Nat.toDigits 10 number := Nat.toList_repr
  refine ⟨[keyword.toList, name.toList, Nat.toDigits 10 number],?_,?_,?_,?_⟩
  · have hd : ∀ c ∈ Nat.toDigits 10 number, Text.isAsciiDigit c = true := by
      intro c hc
      have hdigit := Nat.isDigit_of_mem_toDigits (by decide) (by decide) hc
      simpa [Text.isAsciiDigit, Char.isDigit, Char.le_def] using hdigit
    have hphrase := Phrase.counted (mem_countedKeywords.mpr ⟨hk,ha⟩) name.toList Nat.toDigits_ne_nil hd
    rwa [Nat.ofDigitChars_ten_toDigits, String.ofList_toList, ← hn, ← hi] at hphrase
  · simpa using ⟨isWord_keyword hk,hname,isWord_toDigits number⟩
  · rintro _ _ _ ⟨⟩ _
    exact length_toDigits hs
  · simp [render, hbare, hsecond, Command.keyword, hkeyword, hn, hi, hrepr, List.intercalate_cons_cons, toString]

theorem IsWellFormed.exists_isWritten {command : Command} (h : command.IsWellFormed) :
    ∃ words, command.IsWritten words := by
  obtain ⟨kind,name,index,position,text⟩ := command
  cases kind with
  | arithmetic =>
    obtain ⟨⟨operator,hn⟩,hi⟩ := h
    exact ⟨_,isWritten_operator rfl hn hi⟩
  | ret => exact ⟨_,isWritten_ret rfl h.1 h.2⟩
  | label | goto | ifGoto =>
    obtain ⟨⟨name,hn,hname⟩,hi⟩ := h
    exact exists_isWritten_named rfl hn hname hi
  | push | pop | function | call =>
    obtain ⟨⟨name,hn,hname⟩,number,hi,hs⟩ := h
    exact exists_isWritten_counted rfl hn hname hi hs

/-- The line on which a command is printed. -/
def line (command : Command) (file : String) (number : Nat) : Line := ⟨file,number,command.render.toList⟩

theorem IsWritten.exists_words {command : Command} {words : List (List Char)} (h : command.IsWritten words)
    (file : String) (number : Nat) : ∃ head arguments, (command.line file number).words = head :: arguments ∧
      head.start = 0 ∧ head.text :: arguments.map (·.text) = words := by
  cases words with
  | nil => cases h.phrase
  | cons word rest =>
    obtain ⟨arguments,hspaced,htexts⟩ := Text.spaced_intercalate h.isWord 0
    refine ⟨⟨0,word⟩,arguments,?_,rfl,by rw [htexts]⟩
    rw [Line.words, Line.code, line, h.joined, Text.isCut_iff.mp (Text.isCut_intercalate h.isWord)]
    exact Text.spaced_iff.mp hspaced

theorem IsWritten.text_line {command : Command} {words : List (List Char)} (h : command.IsWritten words)
    (file : String) (number : Nat) : (command.line file number).text = command.render := by
  rw [Line.text, Text.withoutComment, line, h.joined, Text.isCut_iff.mp (Text.isCut_intercalate h.isWord),
    Text.isTrimmed_iff.mp (Text.isTrimmed_intercalate h.isWord), ← h.joined, String.ofList_toList]

theorem IsWellFormed.carries {command : Command} (h : command.IsWellFormed) (file : String) (number : Nat) :
    (command.line file number).Carries (command.onLine file number) := by
  obtain ⟨words,hwritten⟩ := h.exists_isWritten
  obtain ⟨head,arguments,hw,hstart,rfl⟩ := hwritten.exists_words file number
  refine Line.carries_iff.mpr ⟨head,arguments,hw,hwritten.phrase,?_,?_⟩
  · rw [Line.positionOf, hstart]
    rfl
  · rw [hwritten.text_line file number]
    rfl

theorem IsWellFormed.hasShortIndex {command : Command} (h : command.IsWellFormed) (file : String) (number : Nat) :
    (command.line file number).hasShortIndex = true := by
  obtain ⟨words,hwritten⟩ := h.exists_isWritten
  obtain ⟨head,arguments,hw,-,hwords⟩ := hwritten.exists_words file number
  rw [Line.hasShortIndex_iff, hw, List.map_cons, hwords]
  exact hwritten.isShort

/-- A printed command is a line. -/
theorem IsWellFormed.isUnbroken {command : Command} (h : command.IsWellFormed) :
    command.render.toList ≠ [] ∧ Text.IsUnbroken command.render.toList := by
  obtain ⟨words,hwritten⟩ := h.exists_isWritten
  rw [hwritten.joined]
  refine ⟨?_,Text.isUnbroken_intercalate hwritten.isWord⟩
  cases words with
  | nil => cases hwritten.phrase
  | cons word rest =>
    obtain ⟨more,hmore⟩ := Text.exists_intercalate_cons word rest
    simp [hmore, (hwritten.isWord word List.mem_cons_self).1]

theorem IsWellFormed.printed_eq {command : Command} (h : command.IsWellFormed) :
    command.printed = .ok command.render := by
  obtain ⟨kind,name,index,position,text⟩ := command
  cases kind with
  | arithmetic | ret | label | goto | ifGoto => rfl
  | push | pop | function | call =>
    obtain ⟨-,number,rfl,hs⟩ := h
    simp [printed, Kind.hasSecond, hs.isPrintableInteger]

end Command

theorem listing_map {α : Type} {lineOf : α → Line} {commandOf : α → Command} {xs : List α}
    (h : ∀ x ∈ xs, (lineOf x).Carries (commandOf x)) : Listing (xs.map lineOf) (xs.map commandOf) := by
  induction xs with
  | nil => exact .nil
  | cons x rest ih =>
    obtain ⟨hx,hrest⟩ := List.forall_mem_cons.mp h
    exact .command hx (ih hrest)

section RoundTrip

variable {commands : List Command} (h : ∀ command ∈ commands, command.IsWellFormed)

include h

theorem sourceLines_printed (file : String) : sourceLines ("\n".intercalate (commands.map Command.render)) file =
    commands.zipIdx.map fun (command, i) => command.line file (i + 1) := by
  have hlines : Text.lines ("\n".intercalate (commands.map Command.render)) =
      commands.map fun command => command.render.toList := by
    apply Text.broken_iff.mp
    rw [String.toList_intercalate, List.map_map]
    apply Text.broken_intercalate
    intro text ht
    obtain ⟨command,hc,rfl⟩ := List.mem_map.mp ht
    exact (h command hc).isUnbroken
  rw [sourceLines, hlines, List.zipIdx_map, List.map_map]
  rfl

theorem parse_printed (file : String) : parse ("\n".intercalate (commands.map Command.render)) file =
    .ok (commands.zipIdx.map fun (command, i) => command.onLine file (i + 1)) := by
  have hlines := sourceLines_printed h file
  have hs : ∀ line ∈ sourceLines ("\n".intercalate (commands.map Command.render)) file,
      line.hasShortIndex = true := by
    rw [hlines]
    intro line hl
    obtain ⟨entry,he,rfl⟩ := List.mem_map.mp hl
    exact (h entry.1 (List.fst_mem_of_mem_zipIdx he)).hasShortIndex file (entry.2 + 1)
  -- no line is blank, so the commands have the numbers of their lines
  apply (commands_eq_ok_iff hs).mpr
  rw [hlines]
  apply listing_map
  intro entry he
  exact (h entry.1 (List.fst_mem_of_mem_zipIdx he)).carries file (entry.2 + 1)

theorem mapM_printed : commands.mapM Command.printed = .ok (commands.map Command.render) := by
  rw [Outcome.mapM_eq_ok, List.map_map]
  apply List.map_congr_left
  intro command hc
  exact (h command hc).printed_eq

end RoundTrip

theorem Phrase.isWellFormed {words : List (List Char)} {command : Command}
    (h : Phrase words command.kind command.name command.index) (hwords : ∀ word ∈ words, IsWord word)
    (hs : HasShortIndex words) : command.IsWellFormed := by
  obtain ⟨kind,name,index,position,text⟩ := command
  cases h with
  | operator operator => exact ⟨⟨operator,rfl⟩,rfl⟩
  | ret => exact ⟨rfl,rfl⟩
  | named hk name =>
    have hname : IsWord (String.ofList name).toList := by
      rw [String.toList_ofList]
      exact hwords name (by simp)
    simp only [namedKeywords, List.mem_cons, Prod.mk.injEq, List.not_mem_nil, or_false] at hk
    obtain ⟨-,rfl⟩ | ⟨-,rfl⟩ | ⟨-,rfl⟩ := hk
    all_goals exact ⟨⟨_,rfl,hname⟩,rfl⟩
  | @counted _ _ hk name digits hne hd =>
    have hname : IsWord (String.ofList name).toList := by
      rw [String.toList_ofList]
      exact hwords name (by simp)
    have hlength := hs _ _ _ rfl hd
    have hvalue := Text.decimal_of_isAsciiDigit hne (List.all_eq_true.mpr hd) hlength.le
    have hshort : IsShort (Nat.ofDigitChars 10 digits 0) :=
      ⟨digits.length,hlength,(Text.decimal_eq_ok.mp hvalue).2.lt_pow⟩
    simp only [countedKeywords, List.mem_cons, Prod.mk.injEq, List.not_mem_nil, or_false] at hk
    obtain ⟨-,rfl⟩ | ⟨-,rfl⟩ | ⟨-,rfl⟩ | ⟨-,rfl⟩ := hk
    all_goals exact ⟨⟨_,rfl,hname⟩,_,rfl,hshort⟩

theorem isWellFormed_of_parse {source file : String} (hs : ∀ line ∈ sourceLines source file, line.hasShortIndex = true)
    {commands : List Command} (h : parse source file = .ok commands) : ∀ command ∈ commands, command.IsWellFormed := by
  intro command hc
  obtain ⟨line,hl,head,arguments,hw,hcommand⟩ := exists_line_of_parse h hc
  apply (Line.phrase_of_commandFrom (hs line hl) hw hcommand).isWellFormed
  · intro text ht
    rw [← List.map_cons, ← hw] at ht
    obtain ⟨word,hword,rfl⟩ := List.mem_map.mp ht
    exact Text.isWord_iff.mpr (Text.isToken_of_mem_tokens hword)
  · rw [← List.map_cons, ← hw]
    exact Line.hasShortIndex_iff.mp (hs line hl)

/-- Well-formed commands are printed, and read back from the lines that they were printed on.  All that is ever read
from a source, with numerals within the limit, is well formed, so that printing and reading it again changes neither
the kinds nor the names nor the indices. -/
theorem printed_commands_are_read_back :
    (∀ commands : List Command, (∀ command ∈ commands, command.IsWellFormed) → ∀ file,
      commands.mapM Command.printed = .ok (commands.map Command.render) ∧
        parse ("\n".intercalate (commands.map Command.render)) file =
          .ok (commands.zipIdx.map fun (command, i) => command.onLine file (i + 1))) ∧
    ∀ source file commands, (∀ line ∈ sourceLines source file, line.hasShortIndex = true) →
      parse source file = .ok commands → (∀ command ∈ commands, command.IsWellFormed) ∧
        ∀ other, ∃ texts again, commands.mapM Command.printed = .ok texts ∧
          parse ("\n".intercalate texts) other = .ok again ∧
          again.map Command.content = commands.map Command.content := by
  refine ⟨fun commands h file => ⟨mapM_printed h,parse_printed h file⟩,?_⟩
  intro source file commands hs h
  have hformed := isWellFormed_of_parse hs h
  refine ⟨hformed,fun other => ⟨_,_,mapM_printed hformed,parse_printed hformed other,?_⟩⟩
  have hcontent : (Command.content ∘ fun (command, i) => command.onLine other (i + 1)) =
      Command.content ∘ (Prod.fst : Command × Nat → Command) := by
    funext entry
    rfl
  rw [List.map_map, hcontent, ← List.map_map, List.zipIdx_map_fst]

def fourCommands : List Command :=
  [.push .constant 7, .arithmetic .add, { kind := .label, name := some "a/b" }, { kind := .ret }]

theorem four_commands_are_read_back :
    (∀ command ∈ fourCommands, command.IsWellFormed) ∧
      parse "push constant 7\nadd\nlabel a/b\nreturn" "S" =
        .ok (fourCommands.zipIdx.map fun (command, i) => command.onLine "S" (i + 1)) ∧
      (∀ line ∈ sourceLines "push\tconstant 007 // seven" "S", line.hasShortIndex = true) ∧
      ∃ again, parse "push constant 7" "T" = .ok again ∧
        again.map Command.content = [(.push, some "constant", some 7)] := by
  obtain ⟨hprint,hread⟩ := printed_commands_are_read_back
  have hformed : ∀ command ∈ fourCommands, command.IsWellFormed := by
    have hseven : IsShort 7 := ⟨1,by decide,by decide⟩
    have hconstant : IsWord "constant".toList := Text.isWord_iff.mpr (by decide)
    have hlabel : IsWord "a/b".toList := Text.isWord_iff.mpr (by decide)
    have hpush : (Command.push .constant 7).IsWellFormed := ⟨⟨"constant",rfl,hconstant⟩,7,rfl,hseven⟩
    have hadd : (Command.arithmetic .add).IsWellFormed := ⟨⟨.add,rfl⟩,rfl⟩
    have hmark : ({ kind := .label, name := some "a/b" } : Command).IsWellFormed := ⟨⟨"a/b",rfl,hlabel⟩,rfl⟩
    have hret : ({ kind := .ret } : Command).IsWellFormed := ⟨rfl,rfl⟩
    simp only [fourCommands, List.forall_mem_cons]
    exact ⟨hpush,hadd,hmark,hret,by simp⟩
  have hs : ∀ line ∈ sourceLines "push\tconstant 007 // seven" "S", line.hasShortIndex = true := by decide +kernel
  have hseven : parse "push\tconstant 007 // seven" "S" =
      .ok [⟨.push,some "constant",some 7,some ⟨"S",1,1⟩,some "push\tconstant 007"⟩] :=
    Outcome.toOption_eq_some.mp (by decide +kernel)
  have htext : "\n".intercalate (fourCommands.map Command.render) = "push constant 7\nadd\nlabel a/b\nreturn" := by
    decide +kernel
  refine ⟨hformed,htext ▸ (hprint _ hformed "S").2,hs,?_⟩
  obtain ⟨hread,hagain⟩ := hread _ "S" _ hs hseven
  obtain ⟨texts,again,hprinted,hagain,hcontent⟩ := hagain "T"
  cases (mapM_printed hread).symm.trans hprinted
  exact ⟨again,hagain,hcontent⟩

end HackToolchain.Vm
