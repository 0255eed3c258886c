import HackToolchain.Compile.Survey
import HackToolchain.Proofs.Outcomes
import HackToolchain.Proofs.Tokens
import HackToolchain.Vm.Instruction

/-! # Reading a program

A program is read unit by unit and command by command.  The names in a command that was read are tokens and its
numbers are not negative, so the same holds of the instruction that the command stands for.
-/
namespace HackToolchain.Vm

open Text (IsToken)

/-- The arguments of a command are what a scanner can find. -/
structure Command.IsRead (command : Command) : Prop where
  name : ∀ name, command.name = some name → IsToken name.toList
  index : ∀ index, command.index = some index → 0 ≤ index

theorem Line.numeral_nonneg {line : Line} {kind : Kind} {word : Text.Token} {value : Int}
    (h : line.numeral kind word = .ok value) : 0 ≤ value := by
  unfold Line.numeral at h
  split at h
  next =>
    split at h
    next number _ =>
      cases h
      exact Int.natCast_nonneg number
    next => cases h
  next => cases h

/-- A command has the kind that its first word announces, and as many arguments as the kind asks for: none, a name, or
a name and a numeral. -/
theorem Line.commandFrom_eq_ok {line : Line} {head : Text.Token} {arguments : List Text.Token} {command : Command}
    (h : line.commandFrom head arguments = .ok command) :
    kindOf? (String.ofList head.text) = some command.kind ∧ command.position = some (line.positionOf head) ∧
      command.text = some line.text ∧
      ((command.kind.arity = 0 ∧ arguments = [] ∧
          command.name = (if command.kind = .arithmetic then some (String.ofList head.text) else none) ∧
          command.index = none) ∨
        (command.kind.arity = 1 ∧ ∃ name, arguments = [name] ∧ command.name = some (String.ofList name.text) ∧
          command.index = none) ∨
        (command.kind.arity = 2 ∧ ∃ name index value, arguments = [name, index] ∧
          command.name = some (String.ofList name.text) ∧ line.numeral command.kind index = .ok value ∧
          command.index = some value)) := by
  unfold Line.commandFrom at h
  dsimp only at h
  split at h
  next => cases h
  next kind hk =>
    split at h
    next ha =>
      cases h
      exact ⟨hk,rfl,rfl,.inl ⟨ha,rfl,rfl,rfl⟩⟩
    next name ha =>
      cases h
      exact ⟨hk,rfl,rfl,.inr (.inl ⟨ha,name,rfl,rfl,rfl⟩)⟩
    next name index ha =>
      obtain ⟨value,hv,h⟩ := Outcome.bind_eq_ok.mp h
      cases h
      exact ⟨hk,rfl,rfl,.inr (.inr ⟨ha,name,index,value,rfl,rfl,hv,rfl⟩)⟩
    next => cases h

theorem Line.isRead_of_commandFrom {line : Line} {head : Text.Token} {arguments : List Text.Token} {command : Command}
    (hh : IsToken head.text) (ha : ∀ word ∈ arguments, IsToken word.text)
    (h : line.commandFrom head arguments = .ok command) : command.IsRead := by
  obtain ⟨-,-,-,⟨-,-,hn,hi⟩ | ⟨-,name,rfl,hn,hi⟩ | ⟨-,name,index,value,rfl,hn,hv,hi⟩⟩ := Line.commandFrom_eq_ok h
  · constructor
    · intro other ho
      rw [hn] at ho
      split at ho
      · cases ho
        simpa using hh
      · cases ho
    · intro other ho
      rw [hi] at ho
      cases ho
  · constructor
    · intro other ho
      cases hn.symm.trans ho
      simpa using ha name (by simp)
    · intro other ho
      rw [hi] at ho
      cases ho
  · constructor
    · intro other ho
      cases hn.symm.trans ho
      simpa using ha name (by simp)
    · intro other ho
      cases hi.symm.trans ho
      exact Line.numeral_nonneg hv

theorem Line.exists_of_command? {line : Line} {outcome : Except Failure Command} (h : line.command? = some outcome) :
    ∃ head arguments, line.words = head :: arguments ∧ line.commandFrom head arguments = outcome := by
  unfold Line.command? at h
  split at h
  next => cases h
  next head arguments hw => exact ⟨head,arguments,hw,Option.some.inj h⟩

/-- Every command of a source stands on a line of its own. -/
theorem exists_line_of_parse {source file : String} {commands : List Command} (h : parse source file = .ok commands)
    {command : Command} (hc : command ∈ commands) : ∃ line ∈ sourceLines source file, ∃ head arguments,
      line.words = head :: arguments ∧ line.commandFrom head arguments = .ok command := by
  obtain ⟨outcome,ho,he⟩ := Outcome.exists_of_mem_mapM h hc
  obtain ⟨line,hline,hl⟩ := List.mem_filterMap.mp ho
  obtain ⟨head,arguments,hw,hc⟩ := Line.exists_of_command? hl
  exact ⟨line,hline,head,arguments,hw,hc.trans he⟩

theorem isRead_of_parse {source file : String} {commands : List Command} (h : parse source file = .ok commands)
    {command : Command} (hc : command ∈ commands) : command.IsRead := by
  obtain ⟨line,_,head,arguments,hw,hl⟩ := exists_line_of_parse h hc
  have ht : ∀ word ∈ head :: arguments, IsToken word.text := by
    intro word hm
    rw [← hw] at hm
    exact (Text.isToken_of_mem_tokens hm).2
  obtain ⟨hh,ha⟩ := List.forall_mem_cons.mp ht
  exact Line.isRead_of_commandFrom hh ha hl

/-- The name in a command is a word of its line. -/
theorem exists_word_of_parse {source file : String} {commands : List Command} (h : parse source file = .ok commands)
    {command : Command} (hc : command ∈ commands) {name : String} (hn : command.name = some name) :
    ∃ line ∈ sourceLines source file, ∃ word ∈ line.words, word.text = name.toList := by
  obtain ⟨line,hline,head,arguments,hw,hl⟩ := exists_line_of_parse h hc
  refine ⟨line,hline,?_⟩
  rw [hw]
  obtain ⟨-,-,-,⟨-,-,hname,-⟩ | ⟨-,word,rfl,hname,-⟩ | ⟨-,word,index,value,rfl,hname,-,-⟩⟩ := Line.commandFrom_eq_ok hl
  · rw [hname] at hn
    split at hn
    · cases hn
      exact ⟨head,List.mem_cons_self,by simp⟩
    · cases hn
  · cases hname.symm.trans hn
    exact ⟨word,by simp,by simp⟩
  · cases hname.symm.trans hn
    exact ⟨word,by simp,by simp⟩

/-- The arguments of an instruction are in order: names are tokens, counts are not negative, and a push or pop stays
inside its segment. -/
def Instruction.IsSound : Instruction → Prop
  | .operate _ | .ret => True
  | .push segment index => segment.admits index = true
  | .pop segment index => segment ≠ .constant ∧ segment.admits index = true
  | .label name | .goto name | .ifGoto name => IsToken name.toList
  | .function name locals => IsToken name.toList ∧ 0 ≤ locals
  | .call name arguments => IsToken name.toList ∧ 0 ≤ arguments

theorem admits_of_checkEntry {kind : Kind} {segment : Segment} {index : Int} {position : Option Position}
    {line : Option String} (h : checkEntry kind segment index position line = .ok ()) :
    ¬(kind = .pop ∧ segment = .constant) ∧ segment.admits index.toNat = true := by
  unfold checkEntry at h
  split at h
  next => cases h
  next hk =>
    split at h
    next ha =>
      refine ⟨hk,?_⟩
      have hn : 0 ≤ index := by
        simp only [Segment.admits, Bool.and_eq_true, decide_eq_true_eq] at ha
        exact ha.1
      rwa [Int.toNat_of_nonneg hn]
    next => split at h <;> cases h

theorem Command.name_of_first {command : Command} {name : String} (h : command.first = .ok name) :
    command.name = some name := by
  unfold Command.first at h
  split at h
  next heq =>
    cases h
    assumption
  next => cases h

theorem Command.index_of_second {command : Command} {index : Int} (h : command.second = .ok index) :
    command.index = some index := by
  unfold Command.second at h
  split at h
  next =>
    cases h
    assumption
  next => cases h

theorem Command.IsRead.isSound {command : Command} (hr : command.IsRead) {instruction : Instruction}
    (h : command.instruction = .ok instruction) : instruction.IsSound := by
  have hname : ∀ {name}, command.first = .ok name → IsToken name.toList :=
    fun h => hr.name _ (Command.name_of_first h)
  have hindex : ∀ {index}, command.second = .ok index → 0 ≤ index :=
    fun h => hr.index _ (Command.index_of_second h)
  unfold Command.instruction at h
  split at h
  next =>
    obtain ⟨operator,_,h⟩ := Outcome.bind_eq_ok.mp h
    cases h
    trivial
  next =>
    obtain ⟨segment,_,h⟩ := Outcome.bind_eq_ok.mp h
    obtain ⟨index,_,h⟩ := Outcome.bind_eq_ok.mp h
    obtain ⟨_,hc,h⟩ := Outcome.bind_eq_ok.mp h
    cases h
    exact (admits_of_checkEntry hc).2
  next =>
    obtain ⟨segment,_,h⟩ := Outcome.bind_eq_ok.mp h
    obtain ⟨index,_,h⟩ := Outcome.bind_eq_ok.mp h
    obtain ⟨_,hc,h⟩ := Outcome.bind_eq_ok.mp h
    cases h
    obtain ⟨hk,ha⟩ := admits_of_checkEntry hc
    exact ⟨fun he => hk ⟨rfl,he⟩,ha⟩
  next =>
    obtain ⟨name,hn,h⟩ := Outcome.bind_eq_ok.mp h
    cases h
    exact hname hn
  next =>
    obtain ⟨name,hn,h⟩ := Outcome.bind_eq_ok.mp h
    cases h
    exact hname hn
  next =>
    obtain ⟨name,hn,h⟩ := Outcome.bind_eq_ok.mp h
    cases h
    exact hname hn
  next =>
    obtain ⟨name,hn,h⟩ := Outcome.bind_eq_ok.mp h
    obtain ⟨index,hi,h⟩ := Outcome.bind_eq_ok.mp h
    cases h
    exact ⟨hname hn,hindex hi⟩
  next =>
    obtain ⟨name,hn,h⟩ := Outcome.bind_eq_ok.mp h
    obtain ⟨index,hi,h⟩ := Outcome.bind_eq_ok.mp h
    cases h
    exact ⟨hname hn,hindex hi⟩
  next =>
    cases h
    trivial

end HackToolchain.Vm

namespace HackToolchain.Compile

open Vm (Command Instruction)

/-- The instructions of a unit, each with the name of the unit. -/
def CompilationUnit.instructions (unit : CompilationUnit) : Except Failure (List (String × Instruction)) := do
  (← unit.commands).mapM fun command => return (unit.name, ← command.instruction)

/-- The instructions of a whole program, one for each command, in unit and source order. -/
def programOf (units : List CompilationUnit) : Except Failure (List (String × Instruction)) := do
  return (← units.mapM CompilationUnit.instructions).flatten

theorem mem_outcomes {unit : CompilationUnit} {commands : List Command} (h : unit.commands = .ok commands)
    {command : Command} (hc : command ∈ commands) : .ok command ∈ unit.outcomes := by
  obtain ⟨outcome,ho,he⟩ := Outcome.exists_of_mem_mapM h hc
  cases he
  exact ho

theorem CompilationUnit.instructions_eq_ok {unit : CompilationUnit} {commands : List Command}
    {instructions : List Instruction} (hc : unit.commands = .ok commands)
    (hi : commands.mapM Command.instruction = .ok instructions) :
    unit.instructions = .ok (instructions.map (unit.name, ·)) := by
  refine Outcome.bind_eq_ok.mpr ⟨commands,hc,Outcome.mapM_eq_ok.mpr ?_⟩
  have hf : (fun command : Command => (return (unit.name, ← command.instruction) : Except Failure _)) =
      fun command => command.instruction.map (unit.name, ·) := by
    funext command
    cases command.instruction <;> rfl
  rw [hf]
  calc commands.map (fun command => command.instruction.map (unit.name, ·))
      = (commands.map Command.instruction).map (Except.map (unit.name, ·)) := by simp
    _ = (instructions.map (unit.name, ·)).map .ok := by
      rw [Outcome.mapM_eq_ok.mp hi]
      simp [Except.map]

theorem programOf_cons {unit : CompilationUnit} {rest : List CompilationUnit} {program : List (String × Instruction)} :
    programOf (unit :: rest) = .ok program ↔
      ∃ xs ys, unit.instructions = .ok xs ∧ programOf rest = .ok ys ∧ xs ++ ys = program := by
  simp only [programOf, List.mapM_cons, Outcome.bind_eq_ok, Outcome.pure_eq_ok]
  constructor
  · rintro ⟨_,⟨xs,hx,yss,hy,rfl⟩,rfl⟩
    exact ⟨xs,yss.flatten,hx,⟨yss,hy,rfl⟩,rfl⟩
  · rintro ⟨xs,_,hx,⟨yss,hy,rfl⟩,rfl⟩
    exact ⟨xs :: yss,⟨xs,hx,yss,hy,rfl⟩,rfl⟩

theorem exists_of_mem_programOf {units : List CompilationUnit} {program : List (String × Instruction)}
    (h : programOf units = .ok program) {entry : String × Instruction} (hm : entry ∈ program) :
    ∃ unit ∈ units, unit.name = entry.1 ∧ ∃ commands, unit.commands = .ok commands ∧
      ∃ command ∈ commands, command.instruction = .ok entry.2 := by
  obtain ⟨parts,hp,h⟩ := Outcome.bind_eq_ok.mp h
  cases Outcome.pure_eq_ok.mp h
  obtain ⟨part,hpart,hentry⟩ := List.mem_flatten.mp hm
  obtain ⟨unit,hu,hi⟩ := Outcome.exists_of_mem_mapM hp hpart
  obtain ⟨commands,hc,hi⟩ := Outcome.bind_eq_ok.mp hi
  obtain ⟨command,hcommand,hi⟩ := Outcome.exists_of_mem_mapM hi hentry
  obtain ⟨instruction,hinstruction,hi⟩ := Outcome.bind_eq_ok.mp hi
  cases Outcome.pure_eq_ok.mp hi
  exact ⟨unit,hu,rfl,commands,hc,command,hcommand,hinstruction⟩

theorem isSound_of_mem_programOf {units : List CompilationUnit} {program : List (String × Instruction)}
    (h : programOf units = .ok program) {entry : String × Instruction} (hm : entry ∈ program) : entry.2.IsSound := by
  obtain ⟨unit,_,_,commands,hc,command,hcommand,hi⟩ := exists_of_mem_programOf h hm
  exact (Vm.isRead_of_parse hc hcommand).isSound hi

end HackToolchain.Compile
