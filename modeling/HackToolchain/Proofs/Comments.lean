import HackToolchain.Asm.Session
import HackToolchain.Proofs.Emission

/-! # Comments do not change the machine code

A program is compiled with comments or without.  Step by step the two writers take the same labels, write the same code
and fail alike, since a comment is put into words whether it is wanted or not.  No comment runs into the next line, so
the assembler reads the same lines in both texts and only counts them differently.
-/
namespace HackToolchain

/-- A failure without the number of the line it lies in. -/
def Failure.unnumbered : Failure → Failure
  | .asm error => .asm { error with position := error.position.map fun place => { place with line := 0 } }
  | failure => failure

end HackToolchain

namespace HackToolchain.Asm

open Text (IsUnbroken)

section Numbering

def SourceLine.unnumbered (line : SourceLine) : SourceLine := { line with position := { line.position with line := 0 } }

def Stopped.unnumbered (stopped : Stopped) : Stopped := (stopped.1, stopped.2.unnumbered)

theorem Labels.add_unnumbered (labels : Labels) (line : SourceLine) :
    labels.add line.unnumbered = (labels.add line).mapError Stopped.unnumbered := by
  have hl : line.unnumbered.isLabel = line.isLabel := rfl
  have hn : line.unnumbered.labelName = line.labelName := rfl
  simp only [Labels.add, hl, hn]
  cases line.isLabel with
  | false => rfl
  | true =>
    cases line.labelName with
    | error fault => rfl
    | ok name => cases hg : labels.symbols.get? name <;> simp only [hg] <;> rfl

theorem Encoding.add_unnumbered (encoding : Encoding) (line : SourceLine) :
    encoding.add line.unnumbered = (encoding.add line).mapError Stopped.unnumbered := by
  have hl : line.unnumbered.isLoad = line.isLoad := rfl
  have ht : line.unnumbered.text = line.text := rfl
  simp only [Encoding.add, hl, ht]
  split
  · unfold Encoding.load Encoding.loadNumber
    split
    · cases Text.decimal (line.text.drop 1) with
      | error fault => rfl
      | ok value =>
        dsimp only
        split <;> rfl
    · split <;> rfl
  · unfold Encoding.compute
    rw [ht]
    cases Compute.parse line.text <;> rfl

/-- Where the lines stand is told in a failure only. -/
theorem assembleLines_unnumbered (lines : List SourceLine) :
    assembleLines (lines.map SourceLine.unnumbered) = (assembleLines lines).mapError Stopped.unnumbered := by
  have hplace : placeLabels (lines.map SourceLine.unnumbered) = (placeLabels lines).mapError Stopped.unnumbered := by
    rw [placeLabels, placeLabels, Outcome.foldlM_map_mapError Labels.add_unnumbered]
    cases lines.foldlM Labels.add ⟨.predefined,0⟩ <;> rfl
  have hencode : ∀ symbols, encodeLines symbols (lines.map SourceLine.unnumbered) =
      (encodeLines symbols lines).mapError Stopped.unnumbered := by
    intro symbols
    have hf : (lines.map SourceLine.unnumbered).filter (!·.isLabel) =
        (lines.filter (!·.isLabel)).map SourceLine.unnumbered := List.filter_map
    rw [encodeLines, encodeLines, hf, Outcome.foldlM_map_mapError Encoding.add_unnumbered]
    cases (lines.filter (!·.isLabel)).foldlM Encoding.add ⟨symbols,firstVariable,[]⟩ <;> rfl
  rw [assembleLines, assembleLines, hplace]
  cases placeLabels lines with
  | error stopped => rfl
  | ok symbols => exact hencode symbols

theorem unnumbered_sourceLines (source file : String) : (sourceLines source file).map SourceLine.unnumbered =
    (Text.lines source).filterMap (SourceLine.ofLine? file 0) := by
  have hline : ∀ number chars, (SourceLine.ofLine? file number chars).map SourceLine.unnumbered =
      SourceLine.ofLine? file 0 chars := by
    intro number chars
    simp only [SourceLine.ofLine?]
    split <;> rfl
  rw [sourceLines, List.map_filterMap]
  simp only [hline]
  generalize Text.lines source = lines
  conv_rhs => rw [← List.zipIdx_map_fst 0 lines, List.filterMap_map]
  rfl

end Numbering

section Printing

/-- No comment runs into the next line. -/
def IsQuiet (lines : List Line) : Prop := ∀ remark, .comment remark ∈ lines → IsUnbroken remark.toList

/-- Of printed lines the assembler reads nothing but the code. -/
theorem filterMap_lines_render {lines : List Line} (h : IsQuiet lines) (file : String) :
    (Text.lines (render lines)).filterMap (SourceLine.ofLine? file 0) =
      (Text.lines (render (lines.filter (!·.isComment)))).filterMap (SourceLine.ofLine? file 0) := by
  induction lines with
  | nil => rfl
  | cons line rest ih =>
    have hrest := ih fun remark hm => h remark (List.mem_cons_of_mem line hm)
    have hsplit : ∀ others : List Line, Text.lines (render (line :: others)) =
        Text.lines (render [line]) ++ Text.lines (render others) := lines_render_append [line]
    rw [hsplit rest, List.filterMap_append, hrest]
    cases hc : line.isComment with
    | false => rw [List.filter_cons_of_pos (by simp [hc]), hsplit (rest.filter _), List.filterMap_append]
    | true =>
      rw [List.filter_cons_of_neg (by simp [hc])]
      cases line with
      | comment remark =>
        have hlines : Text.lines (render [.comment remark]) = [(Line.comment remark).chars] :=
          lines_render (by simpa [Line.IsSound] using h remark List.mem_cons_self)
        have hnone : SourceLine.ofLine? file 0 (Line.comment remark).chars = none :=
          if_pos (isEmpty_readText (.comment remark))
        rw [hlines, List.filterMap_cons, hnone]
        rfl
      | _ => cases hc

/-- Texts with the same code are assembled alike. -/
theorem assembleLines_of_code {xs ys : List Line} (hx : IsQuiet xs) (hy : IsQuiet ys)
    (h : xs.filter (!·.isComment) = ys.filter (!·.isComment)) (file : String) :
    (assembleLines (sourceLines (render xs) file)).mapError Stopped.unnumbered =
      (assembleLines (sourceLines (render ys) file)).mapError Stopped.unnumbered := by
  rw [← assembleLines_unnumbered, ← assembleLines_unnumbered, unnumbered_sourceLines, unnumbered_sourceLines,
    filterMap_lines_render hx, filterMap_lines_render hy, h]

end Printing

end HackToolchain.Asm

namespace HackToolchain.Compile

open Asm (Line)
open Text (IsToken IsUnbroken)
open Vm (Command Instruction)

section Pieces

/-- A piece that makes no comment, or one that stays on its line. -/
def Piece.IsQuiet : Piece → Prop
  | .remark text _ => IsUnbroken text.toList
  | .code lines => ∀ line ∈ lines, line.isComment = false
  | .number | .refuse _ => True

/-- A piece that makes no comment. -/
def Piece.isBare : Piece → Bool
  | .remark _ _ => false
  | .code lines => lines.all (!·.isComment)
  | .number | .refuse _ => true

theorem isQuiet_of_isBare {pieces : List Piece} (h : pieces.all Piece.isBare = true) :
    ∀ piece ∈ pieces, piece.IsQuiet := by
  intro piece hm
  have hb := List.all_eq_true.mp h piece hm
  cases piece with
  | remark text number => cases hb
  | code lines => simpa [Piece.isBare, Piece.IsQuiet] using hb
  | number | refuse failure => trivial

theorem isQuiet_callPieces {name : String} (hn : IsUnbroken name.toList) (arguments : Int) (number : Nat) :
    ∀ piece ∈ callPieces name arguments number, piece.IsQuiet := by
  have ht : IsUnbroken ("call " ++ name).toList := isUnbroken_remark (by decide) hn
  exact List.forall_mem_cons.mpr ⟨trivial,List.forall_mem_cons.mpr ⟨ht,isQuiet_of_isBare rfl⟩⟩

/-- A comment holds names that have been read and numbers, so it stays on its line whatever the unit is called. -/
theorem isQuiet_pieces (unit : Option String) (number : Nat) {instruction : Instruction} (hi : instruction.IsSound) :
    ∀ piece ∈ pieces unit number instruction, piece.IsQuiet := by
  have hremark : ∀ {word name : String}, IsUnbroken word.toList → IsToken name.toList →
      IsUnbroken (word ++ name).toList := fun hw hn => isUnbroken_remark hw hn.isUnbroken
  cases instruction with
  | operate operator =>
    have hk : IsToken operator.keyword.toList := by cases operator <;> decide
    refine List.forall_mem_cons.mpr ⟨hk.isUnbroken,isQuiet_of_isBare ?_⟩
    cases operator <;> rfl
  | push segment index =>
    refine List.forall_mem_cons.mpr ⟨hremark (by decide) (isToken_keyword segment),isQuiet_of_isBare ?_⟩
    cases unit <;> cases segment <;> rfl
  | pop segment index =>
    refine List.forall_mem_cons.mpr ⟨hremark (by decide) (isToken_keyword segment),isQuiet_of_isBare ?_⟩
    cases unit <;> cases segment <;> rfl
  | label name => exact List.forall_mem_cons.mpr ⟨@hremark "label " name (by decide) hi,isQuiet_of_isBare rfl⟩
  | goto name => exact List.forall_mem_cons.mpr ⟨@hremark "goto " name (by decide) hi,isQuiet_of_isBare rfl⟩
  | ifGoto name => exact List.forall_mem_cons.mpr ⟨@hremark "if-goto " name (by decide) hi,isQuiet_of_isBare rfl⟩
  | function name locals =>
    refine List.forall_mem_cons.mpr ⟨@hremark "function " name (by decide) hi.1,?_⟩
    intro piece hm
    cases List.mem_singleton.mp hm
    intro line hl
    rw [← template_function "" number name locals] at hl
    exact isComment_of_mem_template hl
  | call name arguments => exact isQuiet_callPieces (IsToken.isUnbroken hi.1) arguments number
  | ret =>
    have ht : IsUnbroken "return".toList := by decide
    exact List.forall_mem_cons.mpr ⟨ht,isQuiet_of_isBare rfl⟩

theorem isQuiet_bootstrapPieces {entry : String} (he : IsUnbroken entry.toList) (stackBase : Int) (number : Nat) :
    ∀ piece ∈ bootstrapPieces stackBase entry number, piece.IsQuiet := by
  have ht : IsUnbroken "bootstrap".toList := by decide
  have hset : ([.code [atNumber stackBase, setD (.copy .a), atSymbol "SP", setM (.copy .d)]] : List Piece).all
      Piece.isBare = true := rfl
  exact List.forall_mem_cons.mpr
    ⟨ht,List.forall_mem_cons.mpr ⟨isQuiet_of_isBare hset _ List.mem_cons_self,isQuiet_callPieces he 0 number⟩⟩

end Pieces

namespace Writer

/-- Two writers that have written the same code, one of them perhaps with comments. -/
structure Alike (x y : Writer) : Prop where
  unit : x.unit = y.unit
  nextLabel : x.nextLabel = y.nextLabel
  stackBase : x.stackBase = y.stackBase
  isOpen : x.isOpen = true ∧ y.isOpen = true
  code : x.code = y.code
  quiet : Asm.IsQuiet x.lines ∧ Asm.IsQuiet y.lines

variable {x y : Writer}

theorem Alike.symm (h : Alike x y) : Alike y x :=
  ⟨h.unit.symm,h.nextLabel.symm,h.stackBase.symm,h.isOpen.symm,h.code.symm,h.quiet.symm⟩

theorem lines_cons (x : Writer) (lines : List Line) :
    { x with blocks := lines :: x.blocks }.lines = x.lines ++ lines := by
  simp [Writer.lines]

theorem Alike.comment (h : Alike x y) {remark : String} (hr : IsUnbroken remark.toList) :
    Alike { x with blocks := [.comment remark] :: x.blocks } y := by
  refine ⟨h.unit,h.nextLabel,h.stackBase,h.isOpen,?_,?_,h.quiet.2⟩
  · rw [← h.code, Writer.code, lines_cons]
    simp [Writer.code, Line.isComment]
  · intro other hm
    rw [lines_cons] at hm
    rcases List.mem_append.mp hm with hm | hm
    · exact h.quiet.1 other hm
    · cases List.mem_singleton.mp hm
      exact hr

theorem isQuiet_append {xs ys : List Line} (hx : Asm.IsQuiet xs) (hy : ∀ line ∈ ys, line.isComment = false) :
    Asm.IsQuiet (xs ++ ys) := by
  intro remark hm
  rcases List.mem_append.mp hm with hm | hm
  · exact hx remark hm
  · cases hy _ hm

theorem perform_alike (h : Alike x y) {piece : Piece} (hp : piece.IsQuiet) :
    Outcome.Both Alike (x.perform piece) (y.perform piece) := by
  cases piece with
  | remark text number =>
    simp only [perform]
    cases hr : remarkText text number with
    | error failure => exact .error failure
    | ok remark =>
      have hu := isUnbroken_remarkText hp hr
      change Outcome.Both Alike (if x.comments then x.emit [.comment remark] else pure x)
        (if y.comments then y.emit [.comment remark] else pure y)
      rw [emit_of_isOpen h.isOpen.1, emit_of_isOpen h.isOpen.2]
      split
      · split
        · exact .ok ((h.comment hu).symm.comment hu).symm
        · exact .ok (h.comment hu)
      · split
        · exact .ok (h.symm.comment hu).symm
        · exact .ok h
  | number => exact .ok ⟨h.unit,congrArg (· + 1) h.nextLabel,h.stackBase,h.isOpen,h.code,h.quiet⟩
  | code lines =>
    simp only [perform]
    split
    · rw [emit_of_isOpen h.isOpen.1, emit_of_isOpen h.isOpen.2]
      refine .ok ⟨h.unit,h.nextLabel,h.stackBase,h.isOpen,?_,?_,?_⟩
      · rw [Writer.code, Writer.code, lines_cons, lines_cons, List.filter_append, List.filter_append]
        exact congrArg (· ++ _) h.code
      · rw [lines_cons]
        exact isQuiet_append h.quiet.1 hp
      · rw [lines_cons]
        exact isQuiet_append h.quiet.2 hp
    · exact .error _
  | refuse failure => exact .error failure

/-- Writing ends the same way and leaves the writers alike. -/
def EndAlike (x y : Writer × Except Failure Unit) : Prop := x.2 = y.2 ∧ Alike x.1 y.1

theorem performAll_alike (h : Alike x y) {pieces : List Piece} (hp : ∀ piece ∈ pieces, piece.IsQuiet) :
    EndAlike (x.performAll pieces) (y.performAll pieces) := by
  induction pieces generalizing x y with
  | nil => exact ⟨rfl,h⟩
  | cons piece rest ih =>
    obtain ⟨hpiece,hrest⟩ := List.forall_mem_cons.mp hp
    rw [performAll, performAll]
    have hstep := perform_alike h hpiece
    generalize x.perform piece = xs at hstep
    generalize y.perform piece = ys at hstep
    cases hstep with
    | error failure => exact ⟨rfl,h⟩
    | ok hnext => exact ih hnext hrest

theorem writeCommand_alike (h : Alike x y) {command : Command} (hc : command.IsRead) :
    EndAlike (x.writeCommand command) (y.writeCommand command) := by
  unfold writeCommand
  cases hi : command.instruction with
  | error failure => exact ⟨rfl,h⟩
  | ok instruction =>
    change EndAlike (x.performAll (pieces x.unit x.nextLabel instruction))
      (y.performAll (pieces y.unit y.nextLabel instruction))
    rw [h.unit, h.nextLabel]
    exact performAll_alike h (isQuiet_pieces y.unit y.nextLabel (hc.isSound hi))

end Writer

namespace Emission

structure Alike (x y : Emission) : Prop where
  count : x.count = y.count
  writer : x.writer.Alike y.writer

def EndAlike (x y : Emission × Except Failure Unit) : Prop := x.2 = y.2 ∧ Alike x.1 y.1

variable {x y : Emission}

@[simp] theorem count_tell (emission : Emission) (level : Level) (message : String) :
    (emission.tell level message).count = emission.count := rfl

@[simp] theorem count_tellNote (emission : Emission) (note : Option String) :
    (emission.tellNote note).count = emission.count := by
  cases note <;> rfl

theorem Alike.tell (h : Alike x y) (level : Level) (message : String) :
    Alike (x.tell level message) (y.tell level message) := ⟨h.count,h.writer⟩

theorem EndAlike.andThen {xs ys : Emission × Except Failure Unit} (h : EndAlike xs ys)
    {f : Emission → Emission × Except Failure Unit}
    (hf : ∀ next other, Alike next other → EndAlike (f next) (f other)) :
    EndAlike (andThen xs f) (andThen ys f) := by
  obtain ⟨next,outcome⟩ := xs
  obtain ⟨other,result⟩ := ys
  obtain ⟨rfl,hw⟩ : outcome = result ∧ Alike next other := h
  cases outcome with
  | error failure => exact ⟨rfl,hw⟩
  | ok done => exact hf next other hw

theorem command_alike (h : Alike x y) {command : Command} (hc : command.IsRead) :
    EndAlike (x.command command) (y.command command) := by
  obtain ⟨ho,hw⟩ := Writer.writeCommand_alike h.writer hc
  unfold Emission.command
  generalize x.writer.writeCommand command = xs at ho hw
  generalize y.writer.writeCommand command = ys at ho hw
  obtain ⟨writer,outcome⟩ := xs
  obtain ⟨other,result⟩ := ys
  cases ho
  cases outcome with
  | error failure => exact ⟨rfl,h.count,hw⟩
  | ok done => exact ⟨rfl,by simp [h.count],by simpa using hw⟩

theorem commands_alike (h : Alike x y) {commands : List Command} (hc : ∀ command ∈ commands, command.IsRead) :
    EndAlike (x.commands commands) (y.commands commands) := by
  induction commands generalizing x y with
  | nil => exact ⟨rfl,h⟩
  | cons command rest ih =>
    obtain ⟨hfirst,hrest⟩ := List.forall_mem_cons.mp hc
    rw [commands_cons, commands_cons]
    exact (command_alike h hfirst).andThen fun next other hn => ih hn hrest

theorem units_alike (h : Alike x y) {units : List (CompilationUnit × List Command)}
    (hc : ∀ entry ∈ units, entry.1.commands = .ok entry.2) : EndAlike (x.units units) (y.units units) := by
  induction units generalizing x y with
  | nil => exact ⟨rfl,h⟩
  | cons entry rest ih =>
    obtain ⟨unit,body⟩ := entry
    obtain ⟨hbody,hrest⟩ := List.forall_mem_cons.mp hc
    have hw := h.writer
    have hentered : Alike
        { (x.tell .info s!"Processing file: {unit.file}").tell .debug s!"Translating unit: {unit.name}" with
          writer := x.writer.enterUnit unit.name }
        { (y.tell .info s!"Processing file: {unit.file}").tell .debug s!"Translating unit: {unit.name}" with
          writer := y.writer.enterUnit unit.name } :=
      ⟨h.count,rfl,hw.nextLabel,hw.stackBase,hw.isOpen,hw.code,hw.quiet⟩
    have hunit : EndAlike (x.unit unit body) (y.unit unit body) :=
      commands_alike hentered fun _ hm => Vm.isRead_of_parse hbody hm
    rw [units_cons, units_cons]
    exact hunit.andThen fun next other hn => ih hn hrest

theorem bootstrap_alike (h : Alike x y) {entry : String} (he : IsUnbroken entry.toList) :
    EndAlike (x.bootstrap entry) (y.bootstrap entry) := by
  have hend : Writer.EndAlike (x.writer.writeBootstrap entry) (y.writer.writeBootstrap entry) := by
    rw [Writer.writeBootstrap, Writer.writeBootstrap, h.writer.stackBase, h.writer.nextLabel]
    exact Writer.performAll_alike h.writer (isQuiet_bootstrapPieces he _ _)
  obtain ⟨ho,hw⟩ := hend
  simp only [Emission.bootstrap]
  generalize x.writer.writeBootstrap entry = xs at ho hw
  generalize y.writer.writeBootstrap entry = ys at ho hw
  obtain ⟨writer,outcome⟩ := xs
  obtain ⟨other,result⟩ := ys
  cases ho
  cases outcome with
  | error failure => exact ⟨rfl,h.count,hw⟩
  | ok done => exact ⟨rfl,by simpa using h.count,by simpa using hw⟩

end Emission

section Programs

variable {options : Options} {units : List CompilationUnit}

theorem prepare_comments (options : Options) (units : List CompilationUnit) (comments : Bool) :
    prepare { options with comments } units = prepare options units := rfl

theorem emit_alike {plan : Plan} (hc : ∀ entry ∈ plan.units, entry.1.commands = .ok entry.2)
    (he : plan.bootstrap = true → IsUnbroken options.entry.toList) :
    Emission.EndAlike (plan.emit { options with comments := true }) (plan.emit { options with comments := false }) := by
  have hnone : Asm.IsQuiet ([] : List Line) := fun _ hm => absurd hm List.not_mem_nil
  have hstart : Emission.Alike { writer := { comments := true, stackBase := options.stackBase } }
      { writer := { comments := false, stackBase := options.stackBase } } :=
    ⟨rfl,rfl,rfl,rfl,⟨rfl,rfl⟩,rfl,hnone,hnone⟩
  rw [Emission.emit_eq, Emission.emit_eq]
  dsimp only
  split
  next hb => exact (Emission.bootstrap_alike hstart (he hb)).andThen fun next other hn => Emission.units_alike hn hc
  next => exact Emission.units_alike (hstart.tell .debug _) hc

/-- Two outcomes of an assembler that differ in nothing but the line number in a failure. -/
def AssembledAlike (x y : Asm.Session × Except Failure (List Nat)) : Prop :=
  x.1 = y.1 ∧
    match x.2, y.2 with
    | .ok words, .ok others => words = others
    | .error failure, .error other => failure.unnumbered = other.unnumbered
    | _, _ => False

theorem assembledAlike_of_alike {x y : Writer} (h : x.Alike y) (session : Asm.Session) (file : String) :
    AssembledAlike (session.assemble x.text file) (session.assemble y.text file) := by
  have ha := Asm.assembleLines_of_code h.quiet.1 h.quiet.2 h.code file
  change (Asm.assembleLines (Asm.sourceLines x.text file)).mapError Asm.Stopped.unnumbered =
    (Asm.assembleLines (Asm.sourceLines y.text file)).mapError Asm.Stopped.unnumbered at ha
  unfold Asm.Session.assemble
  generalize Asm.assembleLines (Asm.sourceLines x.text file) = xs at ha
  generalize Asm.assembleLines (Asm.sourceLines y.text file) = ys at ha
  cases xs with
  | error stopped =>
    cases ys with
    | error other =>
      obtain ⟨hs,hf⟩ := Prod.mk.inj (Except.error.inj ha)
      exact ⟨congrArg (Asm.Session.mk · session.words) hs,hf⟩
    | ok other => cases ha
  | ok result =>
    cases ys with
    | error other => cases ha
    | ok other =>
      cases ha
      exact ⟨rfl,rfl⟩

theorem AssembledAlike.eq_of_ok {x y : Asm.Session × Except Failure (List Nat)} (h : AssembledAlike x y)
    {assembled : Asm.Session} {words : List Nat} (hy : y = (assembled, .ok words)) : x = (assembled, .ok words) := by
  obtain ⟨session,outcome⟩ := x
  subst hy
  obtain ⟨hs,ho⟩ := h
  cases outcome with
  | error failure => cases ho
  | ok found =>
    cases hs
    cases ho
    rfl

/-- Two compiled programs with the same summary, whose texts every assembler takes alike. -/
def CompiledAlike (x y : Summary × String) : Prop :=
  x.1 = y.1 ∧ ∀ (session : Asm.Session) (file : String),
    AssembledAlike (session.assemble x.2 file) (session.assemble y.2 file)

/-- With comments or without, a program is refused for the same reason or compiled to the same machine code. -/
theorem comments_leave_machine_code (options : Options) (units : List CompilationUnit)
    (he : wantsBootstrap options units = true → IsUnbroken options.entry.toList) :
    Outcome.Both CompiledAlike (compile { options with comments := true } units)
      (compile { options with comments := false } units) := by
  cases hp : prepare options units with
  | error failure =>
    have hfail : ∀ comments, compile { options with comments } units = .error failure := by
      intro comments
      rw [compile, prepare_comments, hp]
      rfl
    rw [hfail, hfail]
    exact .error failure
  | ok plan =>
    obtain ⟨-,hc,hb⟩ := units_of_prepare hp
    obtain ⟨ho,hw⟩ := @emit_alike options plan hc fun hboot => he (hb ▸ hboot)
    rw [compile_of_prepare ((prepare_comments options units true).trans hp),
      compile_of_prepare ((prepare_comments options units false).trans hp), ho]
    cases (plan.emit { options with comments := false }).2 with
    | error failure => exact .error failure
    | ok done =>
      refine .ok ⟨?_,assembledAlike_of_alike hw.writer⟩
      exact congrArg (Summary.mk _ plan.functions plan.bootstrap plan.warnings) hw.count

/-- A unit whose name splits the line that it is written to. -/
def splitUnits : List CompilationUnit := [.inMemory "LCL\nM=0\n@Y" "push static 0\nlabel E\ngoto E"]

set_option maxRecDepth 100000 in
theorem isSome_wordsOf?_splitUnits :
    (wordsOf? { bootstrap := some true, comments := false } splitUnits "out.asm").isSome = true := by
  decide +kernel

theorem comments_leave_split_name : IsUnbroken ({} : Options).entry.toList ∧ ∃ commented plain assembled words,
    compile { bootstrap := some true, comments := true } splitUnits = .ok commented ∧
    compile { bootstrap := some true, comments := false } splitUnits = .ok plain ∧ CompiledAlike commented plain ∧
    Asm.Session.new.assemble commented.2 "out.asm" = (assembled, .ok words) ∧
    Asm.Session.new.assemble plain.2 "out.asm" = (assembled, .ok words) := by
  have he : IsUnbroken ({} : Options).entry.toList := by decide
  have hboth := comments_leave_machine_code { bootstrap := some true } splitUnits fun _ => he
  obtain ⟨words,hwords⟩ := Option.isSome_iff_exists.mp isSome_wordsOf?_splitUnits
  obtain ⟨summary,text,assembled,hc,ha⟩ := compile_of_wordsOf? hwords
  rw [hc] at hboth
  cases hcommented : compile { bootstrap := some true, comments := true } splitUnits with
  | error failure =>
    rw [hcommented] at hboth
    cases hboth
  | ok commented =>
    rw [hcommented] at hboth
    cases hboth with
    | ok halike => exact ⟨he,commented,_,assembled,words,rfl,hc,halike,(halike.2 _ _).eq_of_ok ha,ha⟩

end Programs

end HackToolchain.Compile
