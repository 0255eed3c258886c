import HackToolchain.Proofs.LineParts
import HackToolchain.Proofs.Writing

/-! # The grammar of VM source

A line is blank or holds the words of one command.  The grammar says which words these are and what command they
stand for; it knows nothing of how a line is scanned.  A source is accepted if all of its lines are of this form, and
otherwise the first line that is not is reported.
-/
namespace HackToolchain.Vm

open Text (Token IsCut Spaced IsTrimmed)

/-- The keywords that a name follows. -/
def namedKeywords : List (String × Kind) := [("label", .label), ("goto", .goto), ("if-goto", .ifGoto)]

/-- The keywords that a name and a numeral follow. -/
def countedKeywords : List (String × Kind) :=
  [("push", .push), ("pop", .pop), ("function", .function), ("call", .call)]

/-- The words of a command, with the kind, the name and the index of the command. -/
inductive Phrase : List (List Char) → Kind → Option String → Option Int → Prop
  | operator (operator : Operator) : Phrase [operator.keyword.toList] .arithmetic (some operator.keyword) none
  | ret : Phrase ["return".toList] .ret none none
  | named {keyword : String} {kind : Kind} (hk : (keyword, kind) ∈ namedKeywords) (name : List Char) :
      Phrase [keyword.toList, name] kind (some (String.ofList name)) none
  | counted {keyword : String} {kind : Kind} (hk : (keyword, kind) ∈ countedKeywords) (name : List Char)
      {digits : List Char} (hne : digits ≠ []) (hd : ∀ c ∈ digits, Text.isAsciiDigit c = true) :
      Phrase [keyword.toList, name, digits] kind (some (String.ofList name)) (some (Nat.ofDigitChars 10 digits 0))

namespace Line

def IsBlank (line : Line) : Prop := ∃ code, IsCut line.chars code ∧ ∀ c ∈ code, Text.isBlank c = true

/-- A command as it stands on a line, with the place of its first word. -/
def Carries (line : Line) (command : Command) : Prop :=
  ∃ code text head arguments, IsCut line.chars code ∧ Spaced 0 code (head :: arguments) ∧ IsTrimmed code text ∧
    Phrase (head.text :: arguments.map (·.text)) command.kind command.name command.index ∧
    command.position = some ⟨line.file,line.number,head.start + 1⟩ ∧ command.text = some (String.ofList text)

def IsWellFormed (line : Line) : Prop := line.IsBlank ∨ ∃ command, line.Carries command

end Line

/-- The commands on some lines, one for each line that is not blank. -/
inductive Listing : List Line → List Command → Prop
  | nil : Listing [] []
  | blank {line : Line} {lines : List Line} {commands : List Command} (hline : line.IsBlank)
      (hrest : Listing lines commands) : Listing (line :: lines) commands
  | command {line : Line} {lines : List Line} {command : Command} {commands : List Command}
      (hline : line.Carries command) (hrest : Listing lines commands) : Listing (line :: lines) (command :: commands)

theorem kindOf?_of_mem {keyword : String} {kind : Kind} (h : (keyword, kind) ∈ Kind.keywords) :
    kindOf? keyword = some kind := by
  have hall : ∀ entry ∈ Kind.keywords, kindOf? entry.1 = some entry.2 := by decide
  exact hall _ h

theorem kindOf?_operator (operator : Operator) : kindOf? operator.keyword = some .arithmetic := by
  cases operator <;> decide

theorem mem_namedKeywords {keyword : String} {kind : Kind} :
    (keyword, kind) ∈ namedKeywords ↔ (keyword, kind) ∈ Kind.keywords ∧ kind.arity = 1 := by
  have hfilter : namedKeywords = Kind.keywords.filter (·.2.arity == 1) := by decide
  simp [hfilter, List.mem_filter]

theorem mem_countedKeywords {keyword : String} {kind : Kind} :
    (keyword, kind) ∈ countedKeywords ↔ (keyword, kind) ∈ Kind.keywords ∧ kind.arity = 2 := by
  have hfilter : countedKeywords = Kind.keywords.filter (·.2.arity == 2) := by decide
  simp [hfilter, List.mem_filter]

theorem eq_return_of_arity {keyword : String} {kind : Kind} (hk : (keyword, kind) ∈ Kind.keywords)
    (ha : kind.arity = 0) : keyword = "return" ∧ kind = .ret := by
  have hall : ∀ entry ∈ Kind.keywords, entry.2.arity = 0 → entry = ("return", .ret) := by decide
  exact Prod.mk.inj (hall _ hk ha)

namespace Line

theorem numeral_eq_ok {line : Line} {kind : Kind} {word : Token} (hne : word.text ≠ [])
    (hs : word.text.all Text.isAsciiDigit = true → word.text.length < Text.maxNumeralDigits) {value : Int} :
    line.numeral kind word = .ok value ↔
      (∀ c ∈ word.text, Text.isAsciiDigit c = true) ∧ (Nat.ofDigitChars 10 word.text 0 : Int) = value := by
  rw [← List.all_eq_true, numeral]
  by_cases hd : word.text.all Text.isAsciiDigit = true
  · rw [if_pos hd, Text.decimal_of_isAsciiDigit hne hd (hs hd).le]
    simp [hd]
  · rw [if_neg hd]
    simp [hd]

theorem phrase_of_commandFrom {line : Line} (hs : line.hasShortIndex = true) {head : Token} {arguments : List Token}
    (hw : line.words = head :: arguments) {command : Command} (h : line.commandFrom head arguments = .ok command) :
    Phrase (head.text :: arguments.map (·.text)) command.kind command.name command.index := by
  obtain ⟨hk,-,-,hform⟩ := commandFrom_eq_ok h
  have hhead : head.text = (String.ofList head.text).toList := String.toList_ofList.symm
  rw [hhead]
  generalize String.ofList head.text = keyword at hk hform
  obtain hk | ⟨hkind,operator,ho⟩ := kindOf?_eq_some hk
  · obtain ⟨ha,rfl,hn,hi⟩ | ⟨ha,name,rfl,hn,hi⟩ | ⟨ha,name,index,value,rfl,hn,hv,hi⟩ := hform
    · obtain ⟨rfl,hret⟩ := eq_return_of_arity hk ha
      rw [hn, hi, hret]
      exact .ret
    · rw [hn, hi]
      exact .named (mem_namedKeywords.mpr ⟨hk,ha⟩) name.text
    · have hne : index.text ≠ [] := (Text.isToken_of_mem_tokens (by rw [← code, ← words, hw]; simp)).1
      obtain ⟨hd,rfl⟩ := (numeral_eq_ok hne (length_of_hasShortIndex hs hw)).mp hv
      rw [hn, hi]
      exact .counted (mem_countedKeywords.mpr ⟨hk,ha⟩) name.text hne hd
  · have ho : operator.keyword = keyword := by simpa using List.find?_some ho
    subst ho
    obtain ⟨-,rfl,hn,hi⟩ | ⟨ha,-⟩ | ⟨ha,-⟩ := hform
    · rw [hn, hi, hkind]
      exact .operator operator
    · rw [hkind] at ha
      cases ha
    · rw [hkind] at ha
      cases ha

theorem commandFrom_of_phrase {line : Line} (hs : line.hasShortIndex = true) {head : Token} {arguments : List Token}
    (hw : line.words = head :: arguments) {kind : Kind} {name : Option String} {index : Option Int}
    (h : Phrase (head.text :: arguments.map (·.text)) kind name index) : line.commandFrom head arguments =
      .ok ⟨kind,name,index,some (line.positionOf head),some line.text⟩ := by
  have hkind : ∀ {keyword : String}, head.text = keyword.toList → String.ofList head.text = keyword := by
    intro keyword hh
    rw [hh, String.ofList_toList]
  -- the phrase knows the words by their texts only, so each case has to find the words behind them
  generalize hwords : head.text :: arguments.map (·.text) = words at h
  cases h with
  | operator operator =>
    simp only [List.cons.injEq, List.map_eq_nil_iff] at hwords
    obtain ⟨hh,rfl⟩ := hwords
    simp only [commandFrom, hkind hh, kindOf?_operator, Kind.arity, if_true]
  | ret =>
    simp only [List.cons.injEq, List.map_eq_nil_iff] at hwords
    obtain ⟨hh,rfl⟩ := hwords
    simp only [commandFrom, hkind hh, kindOf?_of_mem (by decide : ("return", Kind.ret) ∈ Kind.keywords), Kind.arity]
    rfl
  | named hk name =>
    obtain ⟨hk,ha⟩ := mem_namedKeywords.mp hk
    simp only [List.cons.injEq, List.map_eq_singleton_iff] at hwords
    obtain ⟨hh,name,rfl,rfl⟩ := hwords
    simp only [commandFrom, hkind hh, kindOf?_of_mem hk, ha]
  | counted hk name hne hd =>
    obtain ⟨hk,ha⟩ := mem_countedKeywords.mp hk
    simp only [List.cons.injEq, List.map_eq_cons_iff, List.map_eq_nil_iff] at hwords
    obtain ⟨hh,name,_,rfl,rfl,index,_,rfl,rfl,rfl⟩ := hwords
    have hv := (@numeral_eq_ok line kind index hne (length_of_hasShortIndex hs hw) _).mpr ⟨hd,rfl⟩
    simp only [commandFrom, hkind hh, kindOf?_of_mem hk, ha, hv]
    rfl

theorem commandFrom_eq_ok_iff {line : Line} (hs : line.hasShortIndex = true) {head : Token} {arguments : List Token}
    (hw : line.words = head :: arguments) {command : Command} : line.commandFrom head arguments = .ok command ↔
      Phrase (head.text :: arguments.map (·.text)) command.kind command.name command.index ∧
        command.position = some (line.positionOf head) ∧ command.text = some line.text := by
  constructor
  · intro h
    obtain ⟨-,hposition,htext,-⟩ := commandFrom_eq_ok h
    exact ⟨phrase_of_commandFrom hs hw h,hposition,htext⟩
  · obtain ⟨kind,name,index,position,text⟩ := command
    rintro ⟨hphrase,rfl,rfl⟩
    exact commandFrom_of_phrase hs hw hphrase

theorem isBlank_iff {line : Line} : line.IsBlank ↔ line.words = [] := by
  constructor
  · rintro ⟨code,hcut,hblank⟩
    rw [words, Line.code, Text.isCut_iff.mp hcut]
    exact Text.spaced_iff.mp (.blank hblank)
  · intro h
    exact ⟨line.code,Text.isCut_iff.mpr rfl,(Text.spaced_iff.mpr h).isBlank⟩

theorem carries_iff {line : Line} {command : Command} : line.Carries command ↔ ∃ head arguments,
    line.words = head :: arguments ∧
      Phrase (head.text :: arguments.map (·.text)) command.kind command.name command.index ∧
      command.position = some (line.positionOf head) ∧ command.text = some line.text := by
  constructor
  · rintro ⟨code,text,head,arguments,hcut,hwords,htrim,hphrase,hposition,htext⟩
    have hcode : line.code = code := Text.isCut_iff.mp hcut
    refine ⟨head,arguments,?_,hphrase,hposition,?_⟩
    · rw [words, hcode]
      exact Text.spaced_iff.mp hwords
    · rw [htext, Line.text, Text.withoutComment, ← Line.code, hcode, Text.isTrimmed_iff.mp htrim]
  · rintro ⟨head,arguments,hw,hphrase,hposition,htext⟩
    exact ⟨line.code,_,head,arguments,Text.isCut_iff.mpr rfl,Text.spaced_iff.mpr hw,Text.isTrimmed_iff.mpr rfl,hphrase,
      hposition,htext⟩

/-- A line gives the command that it carries, and nothing if it is blank. -/
theorem command?_eq_some_ok {line : Line} (hs : line.hasShortIndex = true) {command : Command} :
    line.command? = some (.ok command) ↔ line.Carries command := by
  rw [carries_iff, command?]
  cases hw : line.words with
  | nil => simp
  | cons head arguments =>
    simp only [Option.some.injEq, commandFrom_eq_ok_iff hs hw, List.cons.injEq]
    constructor
    · intro h
      exact ⟨head,arguments,⟨rfl,rfl⟩,h⟩
    · rintro ⟨_,_,⟨rfl,rfl⟩,h⟩
      exact h

theorem command?_eq_none {line : Line} : line.command? = none ↔ line.IsBlank := by
  rw [isBlank_iff, command?]
  cases line.words with
  | nil => simp
  | cons head arguments => simp

theorem not_isWellFormed {line : Line} (hs : line.hasShortIndex = true) {failure : Failure}
    (h : line.command? = some (.error failure)) : ¬line.IsWellFormed := by
  rintro (hblank | ⟨command,hcarries⟩)
  · rw [command?_eq_none.mpr hblank] at h
    cases h
  · rw [(command?_eq_some_ok hs).mpr hcarries] at h
    cases h

/-- A line has nothing left after trimming if and only if it has no first word. -/
theorem text_eq_empty_iff {line : Line} : line.text = "" ↔ line.words = [] := by
  have htext : line.text = "" ↔ IsTrimmed line.code [] := by
    rw [Text.isTrimmed_iff, ← String.ofList_eq_empty_iff]
    rfl
  have hwords : line.words = [] ↔ Spaced 0 line.code [] := Text.spaced_iff.symm
  rw [htext, hwords]
  constructor
  · intro h
    exact .blank h.isBlank
  · intro h
    exact ⟨line.code,[],by simp,h.isBlank,by simp,by simp,by simp⟩

end Line

theorem commands_eq_ok_iff {lines : List Line} (hs : ∀ line ∈ lines, line.hasShortIndex = true)
    {commands : List Command} : (lines.filterMap Line.command?).mapM id = .ok commands ↔ Listing lines commands := by
  rw [Outcome.mapM_eq_ok, List.map_id]
  induction lines generalizing commands with
  | nil =>
    constructor
    · intro h
      cases List.map_eq_nil_iff.mp h.symm
      exact .nil
    · rintro ⟨⟩
      rfl
  | cons line rest ih =>
    obtain ⟨hline,hrest⟩ := List.forall_mem_cons.mp hs
    constructor
    · intro h
      cases hc : line.command? with
      | none =>
        rw [List.filterMap_cons_none hc] at h
        exact .blank (Line.command?_eq_none.mp hc) ((ih hrest).mp h)
      | some outcome =>
        rw [List.filterMap_cons_some hc] at h
        obtain ⟨command,others,rfl,rfl,ho⟩ := List.map_eq_cons_iff.mp h.symm
        exact .command ((Line.command?_eq_some_ok hline).mp hc) ((ih hrest).mp ho.symm)
    · intro h
      cases h with
      | blank hblank hlist =>
        rw [List.filterMap_cons_none (Line.command?_eq_none.mpr hblank)]
        exact (ih hrest).mpr hlist
      | command hcarries hlist =>
        rw [List.filterMap_cons_some ((Line.command?_eq_some_ok hline).mpr hcarries), (ih hrest).mpr hlist]
        rfl

theorem Listing.isWellFormed {lines : List Line} {commands : List Command} (h : Listing lines commands) :
    ∀ line ∈ lines, line.IsWellFormed := by
  induction h with
  | nil => simp
  | blank hline _ ih => exact List.forall_mem_cons.mpr ⟨.inl hline,ih⟩
  | command hline _ ih => exact List.forall_mem_cons.mpr ⟨.inr ⟨_,hline⟩,ih⟩

/-- What fails is the first line that is not well formed. -/
theorem exists_malformed {lines : List Line} (hs : ∀ line ∈ lines, line.hasShortIndex = true) {failure : Failure}
    (h : (lines.filterMap Line.command?).mapM id = .error failure) : ∃ before line after,
      lines = before ++ line :: after ∧ (∀ earlier ∈ before, earlier.IsWellFormed) ∧
        line.command? = some (.error failure) := by
  -- a line that is blank or gives a command has no failure, so the search goes past it
  have hfind : lines.findSome? (fun line => line.command?.bind Outcome.failure?) = some failure := by
    rw [← Outcome.failure?_eq_some, Outcome.failure?_mapM, ← List.head?_filterMap, List.filterMap_filterMap,
      List.head?_filterMap] at h
    exact h
  obtain ⟨before,line,after,rfl,hline,hbefore⟩ := List.findSome?_eq_some_iff.mp hfind
  refine ⟨before,line,after,rfl,?_,?_⟩
  · intro earlier he
    cases hc : earlier.command? with
    | none => exact .inl (Line.command?_eq_none.mp hc)
    | some outcome =>
      have hok := hbefore earlier he
      rw [hc, Option.bind_some, Outcome.failure?_eq_none] at hok
      obtain ⟨command,rfl⟩ := hok
      exact .inr ⟨command,(Line.command?_eq_some_ok (hs earlier (List.mem_append_left _ he))).mp hc⟩
  · obtain ⟨outcome,hc,ho⟩ := Option.bind_eq_some_iff.mp hline
    rw [hc, Outcome.failure?_eq_some.mp ho]

/-- The lines of a source, each with its file and its number. -/
structure Numbered (source file : String) (lines : List Line) : Prop where
  chars : Text.Broken source.toList (lines.map (·.chars))
  place : ∀ before line after, lines = before ++ line :: after → line.file = file ∧ line.number = before.length + 1

theorem numbered_sourceLines (source file : String) : Numbered source file (sourceLines source file) := by
  constructor
  · rw [Text.broken_iff, sourceLines, List.map_map]
    exact (List.zipIdx_map_fst 0 _).symm
  · intro before line after h
    have hi : (sourceLines source file)[before.length]? = some line := by simp [h]
    rw [sourceLines, List.getElem?_map, List.getElem?_zipIdx, Option.map_map] at hi
    obtain ⟨chars,-,rfl⟩ := Option.map_eq_some_iff.mp hi
    simp

/-- A source is accepted if and only if every line is blank or carries a command, and then it stands for the commands on
its lines.  Otherwise the first line that does neither is reported, at one of its words.  The numerals that the
lines hold are within the limit for numerals. -/
theorem accepted_sources_are_grammatical (source file : String)
    (hs : ∀ line ∈ sourceLines source file, line.hasShortIndex = true) :
    Numbered source file (sourceLines source file) ∧
      ((∃ commands, parse source file = .ok commands) ↔ ∀ line ∈ sourceLines source file, line.IsWellFormed) ∧
      (∀ commands, parse source file = .ok commands ↔ Listing (sourceLines source file) commands) ∧
      (∀ failure, parse source file = .error failure → ∃ before line after word fault,
        sourceLines source file = before ++ line :: after ∧ (∀ earlier ∈ before, earlier.IsWellFormed) ∧
          ¬line.IsWellFormed ∧ word ∈ line.words ∧
          failure = .vm ⟨.malformed fault,some ⟨file,before.length + 1,word.start + 1⟩,some line.text⟩) ∧
      ∀ line ∈ sourceLines source file, line.text ≠ "" ↔ ∃ head arguments, line.words = head :: arguments := by
  have hnumbered := numbered_sourceLines source file
  have hlisting : ∀ commands, parse source file = .ok commands ↔ Listing (sourceLines source file) commands :=
    fun commands => commands_eq_ok_iff hs
  refine ⟨hnumbered,⟨?_,?_⟩,hlisting,?_,?_⟩
  · rintro ⟨commands,h⟩
    exact ((hlisting commands).mp h).isWellFormed
  · intro hall
    cases hp : parse source file with
    | ok commands => exact ⟨commands,rfl⟩
    | error failure =>
      obtain ⟨before,line,after,hsplit,-,hline⟩ := exists_malformed hs hp
      have hm : line ∈ sourceLines source file := by simp [hsplit]
      exact absurd (hall line hm) (Line.not_isWellFormed (hs line hm) hline)
  · intro failure hp
    obtain ⟨before,line,after,hsplit,hbefore,hline⟩ := exists_malformed hs hp
    have hm : line ∈ sourceLines source file := by simp [hsplit]
    obtain ⟨head,arguments,hw,hc⟩ := Line.exists_of_command? hline
    obtain ⟨word,hword,fault,rfl⟩ := Line.exists_fault_of_commandFrom (hs line hm) hw hc
    obtain ⟨rfl,hnumber⟩ := hnumbered.place before line after hsplit
    refine ⟨before,line,after,word,fault,hsplit,hbefore,Line.not_isWellFormed (hs line hm) hline,hword,?_⟩
    rw [Line.fail, Line.positionOf, hnumber]
    rfl
  · intro line _
    rw [Ne, Line.text_eq_empty_iff, ← Ne, List.ne_nil_iff_exists_cons]

/-- Three commands among blanks, comments and line ends of several kinds. -/
def spacedSource : String := "\u00a0push constant 007// seven // 7\n\n \t//\radd\u2028label a/b\r\n"

theorem spaced_source_is_grammatical :
    ((∀ line ∈ sourceLines spacedSource "S", line.hasShortIndex = true) ∧ Listing (sourceLines spacedSource "S")
      [⟨.push,some "constant",some 7,some ⟨"S",1,2⟩,some "push constant 007"⟩,
        ⟨.arithmetic,some "add",none,some ⟨"S",4,1⟩,some "add"⟩,
        ⟨.label,some "a/b",none,some ⟨"S",5,1⟩,some "label a/b"⟩]) ∧
      (∀ line ∈ sourceLines (spacedSource ++ "pop local -1") "S", line.hasShortIndex = true) ∧
      ¬∀ line ∈ sourceLines (spacedSource ++ "pop local -1") "S", line.IsWellFormed := by
  have hs : ∀ line ∈ sourceLines spacedSource "S", line.hasShortIndex = true := by decide +kernel
  have hmore : ∀ line ∈ sourceLines (spacedSource ++ "pop local -1") "S", line.hasShortIndex = true := by
    decide +kernel
  obtain ⟨-,-,hlisting,-⟩ := accepted_sources_are_grammatical spacedSource "S" hs
  obtain ⟨-,haccept,-⟩ := accepted_sources_are_grammatical _ "S" hmore
  refine ⟨⟨hs,(hlisting _).mp (Outcome.toOption_eq_some.mp (by decide +kernel))⟩,hmore,fun hall => ?_⟩
  obtain ⟨commands,hc⟩ := haccept.mpr hall
  have hnone : (parse (spacedSource ++ "pop local -1") "S").toOption = none := by decide +kernel
  rw [hc] at hnone
  cases hnone

end HackToolchain.Vm
