import HackToolchain.Asm.Session
import HackToolchain.Compile.Program
import HackToolchain.Proofs.TemplateText

/-! # What the compiler writes

Comments aside, the code of a program is the bootstrap code, if it is wanted, followed by the templates of all
instructions in unit and source order.  A template depends on the program around it only through the number of its
labels, which grows by one with every comparison and every call.
-/
namespace HackToolchain.Compile

open Asm (Line)
open Text (IsUnbroken)
open Vm (Command Instruction)

def Piece.lines : Piece → List Line
  | .code lines => lines
  | .remark _ _ | .number | .refuse _ => []

def Piece.taken : Piece → Nat
  | .number => 1
  | .remark _ _ | .code _ | .refuse _ => 0

def linesOf (pieces : List Piece) : List Line := pieces.flatMap Piece.lines

/-- The code of an instruction, with the number of its labels. -/
def template (unit : String) (number : Nat) (instruction : Instruction) : List Line :=
  linesOf (pieces (some unit) number instruction)

/-- The label numbers that an instruction takes: one for a comparison or a call. -/
def labelsTaken : Instruction → Nat
  | .operate operator => if operator.isComparison then 1 else 0
  | .call _ _ => 1
  | _ => 0

theorem sum_taken_pieces (unit : String) (number : Nat) (instruction : Instruction) :
    ((pieces (some unit) number instruction).map Piece.taken).sum = labelsTaken instruction := by
  cases instruction with
  | operate operator => cases operator <;> rfl
  | push segment index => cases segment <;> rfl
  | pop segment index => cases segment <;> rfl
  | _ => rfl

theorem template_function (unit : String) (number : Nat) (name : String) (locals : Int) :
    template unit number (.function name locals) =
      .label name :: (List.replicate locals.toNat pushZero).flatten := by
  simp [template, linesOf, pieces, Piece.lines]

theorem isComment_of_mem_template {unit : String} {number : Nat} {instruction : Instruction} {line : Line}
    (hm : line ∈ template unit number instruction) : line.isComment = false := by
  have hall : (template unit number instruction).all (!·.isComment) = true := by
    cases instruction with
    | operate operator => cases operator <;> rfl
    | push segment index => cases segment <;> rfl
    | pop segment index => cases segment <;> rfl
    | function name locals =>
      have hzero : ∀ lines ∈ List.replicate locals.toNat pushZero, lines.all (!·.isComment) = true := by
        intro lines hl
        rw [List.eq_of_mem_replicate hl]
        rfl
      rw [template_function, List.all_cons, List.all_flatten, List.all_eq_true.mpr hzero]
      rfl
    | _ => rfl
  simpa using List.all_eq_true.mp hall line hm

/-- The code of instructions in a row, the first of which may take the label number `number`. -/
def codeFrom (number : Nat) : List (String × Instruction) → List Line
  | [] => []
  | (unit, instruction) :: rest => template unit number instruction ++ codeFrom (number + labelsTaken instruction) rest

def allTaken (program : List (String × Instruction)) : Nat := (program.map fun entry => labelsTaken entry.2).sum

theorem codeFrom_append (number : Nat) (xs ys : List (String × Instruction)) :
    codeFrom number (xs ++ ys) = codeFrom number xs ++ codeFrom (number + allTaken xs) ys := by
  induction xs generalizing number with
  | nil => simp [codeFrom, allTaken]
  | cons entry rest ih =>
    obtain ⟨unit,instruction⟩ := entry
    simp [codeFrom, ih, allTaken, Nat.add_assoc]

def bootstrapCode (options : Options) : List Line := linesOf (bootstrapPieces options.stackBase options.entry 1)

/-- The code of a program from its first line to its last. -/
def codeOf (options : Options) (bootstrap : Bool) (program : List (String × Instruction)) : List Line :=
  if bootstrap then bootstrapCode options ++ codeFrom 2 program else codeFrom 1 program

theorem codeOf_append (options : Options) (bootstrap : Bool) (xs ys : List (String × Instruction)) :
    ∃ number, codeOf options bootstrap (xs ++ ys) = codeOf options bootstrap xs ++ codeFrom number ys := by
  cases bootstrap with
  | false => exact ⟨1 + allTaken xs,by simp [codeOf, codeFrom_append]⟩
  | true => exact ⟨2 + allTaken xs,by simp [codeOf, codeFrom_append]⟩

theorem codeOf_at {program : List (String × Instruction)} {position : Nat} {unit : String} {instruction : Instruction}
    (he : program[position]? = some (unit, instruction)) (options : Options) (bootstrap : Bool) :
    ∃ number rest, codeOf options bootstrap (program.take (position + 1)) =
        codeOf options bootstrap (program.take position) ++ template unit number instruction ∧
      codeOf options bootstrap program = codeOf options bootstrap (program.take (position + 1)) ++ rest := by
  have htake : program.take (position + 1) = program.take position ++ [(unit, instruction)] := by
    rw [List.take_add_one, he]
    rfl
  obtain ⟨number,hn⟩ := codeOf_append options bootstrap (program.take position) [(unit, instruction)]
  have htemplate : codeFrom number [(unit, instruction)] = template unit number instruction := by simp [codeFrom]
  rw [← htake, htemplate] at hn
  obtain ⟨next,hrest⟩ := codeOf_append options bootstrap (program.take (position + 1)) (program.drop (position + 1))
  rw [List.take_append_drop] at hrest
  exact ⟨number,_,hn,hrest⟩

theorem exists_of_mem_codeFrom {number : Nat} {program : List (String × Instruction)} {line : Line}
    (hm : line ∈ codeFrom number program) : ∃ unit found instruction, (unit, instruction) ∈ program ∧
      line ∈ template unit found instruction ∧ template unit found instruction ⊆ codeFrom number program := by
  induction program generalizing number with
  | nil => cases hm
  | cons entry rest ih =>
    rcases List.mem_append.mp hm with hm | hm
    · exact ⟨entry.1,number,entry.2,List.mem_cons_self,hm,List.subset_append_left _ _⟩
    · obtain ⟨unit,found,instruction,he,ht,hs⟩ := ih hm
      refine ⟨unit,found,instruction,List.mem_cons_of_mem entry he,ht,?_⟩
      exact List.Subset.trans hs (List.subset_append_right _ _)

theorem exists_of_mem_codeOf {options : Options} {bootstrap : Bool} {program : List (String × Instruction)}
    {line : Line} (hm : line ∈ codeOf options bootstrap program) :
    (bootstrap = true ∧ line ∈ bootstrapCode options) ∨
      ∃ unit number instruction, (unit, instruction) ∈ program ∧ line ∈ template unit number instruction ∧
        template unit number instruction ⊆ codeOf options bootstrap program := by
  cases bootstrap with
  | false => exact Or.inr (exists_of_mem_codeFrom hm)
  | true =>
    rcases List.mem_append.mp hm with hm | hm
    · exact Or.inl ⟨rfl,hm⟩
    · obtain ⟨unit,number,instruction,he,ht,hs⟩ := exists_of_mem_codeFrom hm
      exact Or.inr ⟨unit,number,instruction,he,ht,List.Subset.trans hs (List.subset_append_right _ _)⟩

namespace Writer

def code (writer : Writer) : List Line := writer.lines.filter (!·.isComment)

/-- A writer has gone on to write `lines` and taken `taken` label numbers.  If the names in them are `clean`, all lines
stay on their lines. -/
structure Wrote (clean : Prop) (before after : Writer) (lines : List Line) (taken : Nat) : Prop where
  code : after.code = before.code ++ lines
  nextLabel : after.nextLabel = before.nextLabel + taken
  unit : after.unit = before.unit
  stackBase : after.stackBase = before.stackBase
  sound : clean → (∀ line ∈ before.lines, line.IsSound) → ∀ line ∈ after.lines, line.IsSound

variable {clean : Prop}

theorem Wrote.refl (writer : Writer) : Wrote clean writer writer [] 0 := ⟨by simp,rfl,rfl,rfl,fun _ => id⟩

theorem Wrote.trans {first second third : Writer} {xs ys : List Line} {m n : Nat}
    (hx : Wrote clean first second xs m) (hy : Wrote clean second third ys n) :
    Wrote clean first third (xs ++ ys) (m + n) := by
  refine ⟨?_,?_,hy.unit.trans hx.unit,hy.stackBase.trans hx.stackBase,fun hc h => hy.sound hc (hx.sound hc h)⟩
  · rw [hy.code, hx.code, List.append_assoc]
  · rw [hy.nextLabel, hx.nextLabel, Nat.add_assoc]

theorem emit_of_isOpen {writer : Writer} (h : writer.isOpen = true) (lines : List Line) :
    writer.emit lines = .ok { writer with blocks := lines :: writer.blocks } := if_pos h

theorem emit_wrote {writer written : Writer} {lines : List Line} (hs : clean → ∀ line ∈ lines, line.IsSound)
    (h : writer.emit lines = .ok written) : Wrote clean writer written (lines.filter (!·.isComment)) 0 := by
  have hl := lines_emit h
  unfold emit at h
  split at h
  · cases h
    refine ⟨?_,rfl,rfl,rfl,?_⟩
    · rw [code, hl, List.filter_append]
      rfl
    · intro hc hb line hm
      rw [hl] at hm
      rcases List.mem_append.mp hm with hm | hm
      · exact hb line hm
      · exact hs hc line hm
  · cases h

theorem isUnbroken_remarkText {text remark : String} {number : Option Int} (ht : IsUnbroken text.toList)
    (h : remarkText text number = .ok remark) : IsUnbroken remark.toList := by
  unfold remarkText at h
  split at h
  · cases h
    exact ht
  next value =>
    split at h
    · cases h
      have hs : (s!"{text} {value}").toList = text.toList ++ ' ' :: (toString value).toList := by
        change (text ++ " " ++ toString value).toList = _
        simp
      rw [hs, Text.isUnbroken_append, Text.isUnbroken_cons]
      exact ⟨ht,by decide,(Text.isToken_toString value).isUnbroken⟩
    · cases h

theorem perform_wrote {writer written : Writer} {piece : Piece} (hp : ∀ line ∈ piece.lines, line.isComment = false)
    (hs : clean → piece.IsSound) (h : writer.perform piece = .ok written) :
    Wrote clean writer written piece.lines piece.taken := by
  cases piece with
  | remark text number =>
    obtain ⟨remark,hr,h⟩ := Outcome.bind_eq_ok.mp h
    have hl : clean → (Line.comment remark).IsSound := fun hc => isUnbroken_remarkText (hs hc) hr
    split at h
    · exact emit_wrote (by simpa using hl) h
    · cases Outcome.pure_eq_ok.mp h
      exact Wrote.refl _
  | number =>
    cases h
    exact ⟨by simp [code, Piece.lines, Writer.lines],rfl,rfl,rfl,fun _ => id⟩
  | code lines =>
    simp only [perform] at h
    split at h
    · have hc : lines.filter (!·.isComment) = lines := by
        rw [List.filter_eq_self]
        intro line hl
        simp [hp line hl]
      have hw := emit_wrote (fun hc line hl => (hs hc line hl).2) h
      rwa [hc] at hw
    · cases h
  | refuse failure => cases h

theorem performAll_wrote {writer written : Writer} {pieces : List Piece}
    (hp : ∀ line ∈ linesOf pieces, line.isComment = false) (hs : clean → ∀ piece ∈ pieces, piece.IsSound)
    (h : writer.performAll pieces = (written, .ok ())) :
    Wrote clean writer written (linesOf pieces) (pieces.map Piece.taken).sum := by
  induction pieces generalizing writer with
  | nil =>
    cases h
    exact Wrote.refl _
  | cons piece rest ih =>
    rw [performAll] at h
    split at h
    next next hn =>
      have hw := perform_wrote (fun line hl => hp line (List.mem_append_left _ hl))
        (fun hc => hs hc piece List.mem_cons_self) hn
      have hr := ih (fun line hl => hp line (List.mem_append_right _ hl))
        (fun hc other ho => hs hc other (List.mem_cons_of_mem piece ho)) h
      simpa [linesOf] using hw.trans hr
    next => cases h

theorem write_wrote {writer written : Writer} {unit : String} {instruction : Instruction}
    (hn : writer.unit = some unit) (hu : clean → IsUnbroken unit.toList) (hi : instruction.IsSound)
    (h : writer.write instruction = (written, .ok ())) :
    Wrote clean writer written (template unit writer.nextLabel instruction) (labelsTaken instruction) := by
  rw [write, hn] at h
  have hw := performAll_wrote (fun _ => isComment_of_mem_template)
    (fun hc => isSound_pieces (hu hc) writer.nextLabel hi) h
  rwa [sum_taken_pieces] at hw

theorem writeBootstrap_wrote {writer written : Writer} {entry : String} (he : clean → IsUnbroken entry.toList)
    (h : writer.writeBootstrap entry = (written, .ok ())) :
    Wrote clean writer written (linesOf (bootstrapPieces writer.stackBase entry writer.nextLabel)) 1 := by
  have hall : (linesOf (bootstrapPieces writer.stackBase entry writer.nextLabel)).all (!·.isComment) = true := rfl
  refine performAll_wrote ?_ (fun hc => isSound_bootstrapPieces (he hc) writer.stackBase writer.nextLabel) h
  intro line hm
  simpa using List.all_eq_true.mp hall line hm

end Writer

namespace Emission

open Writer (Wrote)

variable {clean : Prop}

@[simp] theorem writer_tell (emission : Emission) (level : Level) (message : String) :
    (emission.tell level message).writer = emission.writer := rfl

@[simp] theorem writer_tellNote (emission : Emission) (note : Option String) :
    (emission.tellNote note).writer = emission.writer := by
  cases note <;> rfl

/-- Goes on after a success. -/
def andThen (x : Emission × Except Failure Unit) (f : Emission → Emission × Except Failure Unit) :
    Emission × Except Failure Unit :=
  match x with
  | (emission, .ok ()) => f emission
  | (emission, .error failure) => (emission, .error failure)

theorem commands_cons (emission : Emission) (command : Command) (rest : List Command) :
    emission.commands (command :: rest) = andThen (emission.command command) (·.commands rest) := rfl

theorem units_cons (emission : Emission) (unit : CompilationUnit) (body : List Command)
    (rest : List (CompilationUnit × List Command)) :
    emission.units ((unit, body) :: rest) = andThen (emission.unit unit body) (·.units rest) := rfl

theorem emit_eq (plan : Plan) (options : Options) : plan.emit options =
    let start : Emission := { writer := { comments := options.comments, stackBase := options.stackBase } }
    if plan.bootstrap then andThen (start.bootstrap options.entry) (·.units plan.units)
    else (start.tell .debug "Skipping bootstrap code").units plan.units := rfl

/-- A command is written when it stands for an instruction, and then as its template. -/
theorem command_wrote {emission written : Emission} {unit : String} {command : Command}
    (hn : emission.writer.unit = some unit) (hu : clean → IsUnbroken unit.toList) (hc : command.IsRead)
    (h : emission.command command = (written, .ok ())) :
    ∃ instruction, command.instruction = .ok instruction ∧ Wrote clean emission.writer written.writer
      (template unit emission.writer.nextLabel instruction) (labelsTaken instruction) := by
  unfold Emission.command at h
  split at h
  next writer hw =>
    cases h
    cases hi : command.instruction with
    | error failure => simp [Writer.writeCommand, Writer.writeIfOk, hi] at hw
    | ok instruction =>
      simp only [Writer.writeCommand, Writer.writeIfOk, hi] at hw
      exact ⟨instruction,rfl,by simpa using Writer.write_wrote hn hu (hc.isSound hi) hw⟩
  next => cases h

theorem commands_wrote {emission written : Emission} {unit : String} {commands : List Command}
    (hn : emission.writer.unit = some unit) (hu : clean → IsUnbroken unit.toList)
    (hc : ∀ command ∈ commands, command.IsRead) (h : emission.commands commands = (written, .ok ())) :
    ∃ instructions : List Instruction, commands.mapM Command.instruction = .ok instructions ∧
      Wrote clean emission.writer written.writer (codeFrom emission.writer.nextLabel (instructions.map (unit, ·)))
        (allTaken (instructions.map (unit, ·))) := by
  induction commands generalizing emission with
  | nil =>
    cases h
    exact ⟨[],rfl,Wrote.refl _⟩
  | cons command rest ih =>
    rw [Emission.commands] at h
    split at h
    next next hnext =>
      obtain ⟨hfirst,hrest⟩ := List.forall_mem_cons.mp hc
      obtain ⟨instruction,hi,hw⟩ := command_wrote hn hu hfirst hnext
      obtain ⟨instructions,hm,hws⟩ := ih (hw.unit.trans hn) hrest h
      refine ⟨instruction :: instructions,?_,?_⟩
      · rw [Outcome.mapM_eq_ok] at hm ⊢
        simp [hi,hm]
      · rw [hw.nextLabel] at hws
        simpa [codeFrom, allTaken] using hw.trans hws
    next => cases h

/-- The units of a plan are written one after the other, with the labels numbered through. -/
theorem units_wrote {emission written : Emission} {units : List (CompilationUnit × List Command)}
    (hu : clean → ∀ entry ∈ units, IsUnbroken entry.1.name.toList)
    (hc : ∀ entry ∈ units, entry.1.commands = .ok entry.2) (h : emission.units units = (written, .ok ())) :
    ∃ program, programOf (units.map Prod.fst) = .ok program ∧
      written.writer.code = emission.writer.code ++ codeFrom emission.writer.nextLabel program ∧
      (clean → (∀ line ∈ emission.writer.lines, line.IsSound) → ∀ line ∈ written.writer.lines, line.IsSound) := by
  induction units generalizing emission with
  | nil =>
    cases h
    exact ⟨[],rfl,by simp [codeFrom],fun _ => id⟩
  | cons entry rest ih =>
    obtain ⟨unit,body⟩ := entry
    rw [Emission.units] at h
    split at h
    next next hnext =>
      have hfirst : clean → IsUnbroken unit.name.toList := fun hk => hu hk _ List.mem_cons_self
      have hrest : clean → ∀ entry ∈ rest, IsUnbroken entry.1.name.toList :=
        fun hk entry hm => hu hk entry (List.mem_cons_of_mem _ hm)
      obtain ⟨hbody,hbodies⟩ := List.forall_mem_cons.mp hc
      have hread : ∀ command ∈ body, command.IsRead := fun _ hm => Vm.isRead_of_parse hbody hm
      obtain ⟨instructions,hi,hw⟩ := commands_wrote rfl hfirst hread hnext
      obtain ⟨program,hp,hcode,hsound⟩ := ih hrest hbodies h
      refine ⟨instructions.map (unit.name, ·) ++ program,?_,?_,?_⟩
      · exact programOf_cons.mpr ⟨_,program,CompilationUnit.instructions_eq_ok hbody hi,hp,rfl⟩
      · rw [hcode, hw.code, hw.nextLabel, codeFrom_append, List.append_assoc]
        rfl
      · exact fun hk hb => hsound hk (hw.sound hk hb)
    next => cases h

theorem bootstrap_wrote {emission written : Emission} {entry : String} (he : clean → IsUnbroken entry.toList)
    (h : emission.bootstrap entry = (written, .ok ())) : Wrote clean emission.writer written.writer
      (linesOf (bootstrapPieces emission.writer.stackBase entry emission.writer.nextLabel)) 1 := by
  unfold Emission.bootstrap at h
  dsimp only at h
  split at h
  next writer hw =>
    cases h
    simpa using Writer.writeBootstrap_wrote he hw
  next => cases h

end Emission

theorem prepareMany_eq_ok {options : Options} {units : List CompilationUnit} {plan : Plan}
    (h : prepareMany options units = .ok plan) :
    ∃ calls entry labels, survey units = .ok plan.functions ∧
      units.mapM (fun unit => return (unit, ← unit.commands)) = .ok plan.units ∧
      Link.checkCalls (plan.units.map fun (unit, commands) => (unit.name, commands)) plan.functions
        options.isStrict = .ok ([], calls) ∧
      (if wantsBootstrap options units then entryWarnings options plan.functions else .ok []) = .ok entry ∧
      plan.units.mapM (fun (unit, commands) => labelWarnings options unit.name commands) = .ok labels ∧
      plan.bootstrap = wantsBootstrap options units ∧ plan.warnings = calls ++ entry ++ labels.flatten ∧
      ∀ entry ∈ plan.units, Vm.checkAccesses entry.2 = .ok () := by
  obtain ⟨registry,hr,h⟩ := Outcome.bind_eq_ok.mp h
  obtain ⟨parsed,hp,h⟩ := Outcome.bind_eq_ok.mp h
  obtain ⟨_,ha,h⟩ := Outcome.bind_eq_ok.mp h
  obtain ⟨⟨errors,calls⟩,hc,h⟩ := Outcome.bind_eq_ok.mp h
  cases errors with
  | cons error rest => cases h
  | nil =>
    dsimp only [List.head?_nil] at h
    split at h
    next hb =>
      obtain ⟨entry,he,h⟩ := Outcome.bind_eq_ok.mp h
      obtain ⟨labels,hl,h⟩ := Outcome.bind_eq_ok.mp h
      cases Outcome.pure_eq_ok.mp h
      exact ⟨calls,entry,labels,hr,hp,hc,(if_pos hb).trans he,hl,rfl,rfl,Outcome.forM_eq_ok.mp ha⟩
    next hb =>
      obtain ⟨entry,he,h⟩ := Outcome.bind_eq_ok.mp h
      obtain ⟨labels,hl,h⟩ := Outcome.bind_eq_ok.mp h
      cases Outcome.pure_eq_ok.mp h
      exact ⟨calls,entry,labels,hr,hp,hc,(if_neg hb).trans he,hl,rfl,rfl,Outcome.forM_eq_ok.mp ha⟩

theorem parsed_of_mapM {units : List CompilationUnit} {parsed : List (CompilationUnit × List Command)}
    (h : units.mapM (fun unit => return (unit, ← unit.commands)) = .ok parsed) :
    parsed.map Prod.fst = units ∧ ∀ entry ∈ parsed, entry.1.commands = .ok entry.2 := by
  refine ⟨Outcome.map_of_mapM ?_ h,?_⟩
  · intro unit entry hu
    obtain ⟨commands,_,hu⟩ := Outcome.bind_eq_ok.mp hu
    cases Outcome.pure_eq_ok.mp hu
    rfl
  · intro entry he
    obtain ⟨unit,_,hu⟩ := Outcome.exists_of_mem_mapM h he
    obtain ⟨commands,hc,hu⟩ := Outcome.bind_eq_ok.mp hu
    cases Outcome.pure_eq_ok.mp hu
    exact hc

theorem units_of_prepare {options : Options} {units : List CompilationUnit} {plan : Plan}
    (h : prepare options units = .ok plan) : plan.units.map Prod.fst = units ∧
      (∀ entry ∈ plan.units, entry.1.commands = .ok entry.2) ∧ plan.bootstrap = wantsBootstrap options units := by
  unfold prepare at h
  split at h
  next => cases h
  next => cases h
  next unit _ =>
    obtain ⟨commands,hc,h⟩ := Outcome.bind_eq_ok.mp h
    obtain ⟨_,_,h⟩ := Outcome.bind_eq_ok.mp h
    obtain ⟨warnings,_,h⟩ := Outcome.bind_eq_ok.mp h
    cases Outcome.pure_eq_ok.mp h
    exact ⟨rfl,by simpa using hc,rfl⟩
  next =>
    obtain ⟨_,_,_,_,hp,_,_,_,hb,_⟩ := prepareMany_eq_ok h
    obtain ⟨hunits,hc⟩ := parsed_of_mapM hp
    exact ⟨hunits,hc,hb⟩

/-- The pushes and pops of a program that has been checked are allowed. -/
theorem checkAccess_of_prepare {options : Options} {units : List CompilationUnit} {plan : Plan}
    (h : prepare options units = .ok plan) : ∀ entry ∈ plan.units, ∀ command ∈ entry.2, command.checkAccess = .ok () := by
  suffices hall : ∀ entry ∈ plan.units, Vm.checkAccesses entry.2 = .ok () from
    fun entry he => Outcome.forM_eq_ok.mp (hall entry he)
  unfold prepare at h
  split at h
  next => cases h
  next => cases h
  next unit _ =>
    obtain ⟨commands,_,h⟩ := Outcome.bind_eq_ok.mp h
    obtain ⟨_,ha,h⟩ := Outcome.bind_eq_ok.mp h
    obtain ⟨warnings,_,h⟩ := Outcome.bind_eq_ok.mp h
    cases Outcome.pure_eq_ok.mp h
    simpa using ha
  next =>
    obtain ⟨_,_,_,_,_,_,_,_,_,_,ha⟩ := prepareMany_eq_ok h
    exact ha

/-- A program that has been checked is compiled if its code can be written. -/
theorem compile_of_prepare {options : Options} {units : List CompilationUnit} {plan : Plan}
    (h : prepare options units = .ok plan) : compile options units =
      (plan.emit options).2.map fun _ => (plan.summary (plan.emit options).1, (plan.emit options).1.writer.text) := by
  rw [compile, h]
  simp only [bind, Except.bind]
  cases (plan.emit options).2 <;> rfl

/-- The words of a program, assembled from the characters of its code. -/
def wordsOf? (options : Options) (units : List CompilationUnit) (file : String) : Option (List Nat) :=
  match prepare options units with
  | .error _ => none
  | .ok plan =>
    match plan.emit options with
    | (_, .error _) => none
    | (emission, .ok ()) =>
      let chars := (emission.writer.lines.map Line.chars).flatMap fun chars => chars ++ ['\n']
      let sources := (Text.linesFrom [] chars).zipIdx.filterMap fun (chars, i) =>
        Asm.SourceLine.ofLine? file (i + 1) chars
      (Asm.assembleLines sources).toOption.map (·.2)

/-- A program that has words is compiled, and its text is assembled to them. -/
theorem compile_of_wordsOf? {options : Options} {units : List CompilationUnit} {file : String} {words : List Nat}
    (h : wordsOf? options units file = some words) : ∃ summary text assembled,
      compile options units = .ok (summary, text) ∧
        Asm.Session.new.assemble text file = (assembled, .ok words) := by
  unfold wordsOf? at h
  split at h
  next => cases h
  next plan hplan =>
    split at h
    next => cases h
    next emission hemit =>
      obtain ⟨⟨symbols,found⟩,hassembled,rfl⟩ := Option.map_eq_some_iff.mp h
      refine ⟨plan.summary emission,emission.writer.text,⟨symbols,found⟩,?_,?_⟩
      · rw [compile_of_prepare hplan, hemit]
        rfl
      · have hlines : Asm.assembleLines (Asm.sourceLines emission.writer.text file) = .ok (symbols, found) := by
          rw [Asm.sourceLines, Text.lines, Writer.text, Asm.toList_render]
          exact Outcome.toOption_eq_some.mp hassembled
        rw [Asm.Session.assemble, hlines]

/-- Comments aside, compiled text is the code of its program. -/
theorem code_of_compile {options : Options} {units : List CompilationUnit} {summary : Summary} {text : String}
    (h : compile options units = .ok (summary, text)) :
    ∃ program lines, programOf units = .ok program ∧ text = Asm.render lines ∧
      lines.filter (!·.isComment) = codeOf options (wantsBootstrap options units) program ∧
      ((∀ unit ∈ units, IsUnbroken unit.name.toList) →
        (wantsBootstrap options units = true → IsUnbroken options.entry.toList) → ∀ line ∈ lines, line.IsSound) := by
  obtain ⟨plan,hplan,-⟩ := Outcome.bind_eq_ok.mp h
  obtain ⟨hunits,hc,hb⟩ := units_of_prepare hplan
  rw [compile_of_prepare hplan] at h
  obtain ⟨_,ho,h⟩ := Outcome.map_eq_ok.mp h
  cases hemit : plan.emit options with
  | mk emission outcome =>
    rw [hemit] at ho h
    subst ho
    obtain ⟨-,rfl⟩ := Prod.mk.inj h
    let clean := (∀ unit ∈ units, IsUnbroken unit.name.toList) ∧
      (wantsBootstrap options units = true → IsUnbroken options.entry.toList)
    have hnames : clean → ∀ entry ∈ plan.units, IsUnbroken entry.1.name.toList := by
      intro hk entry hm
      exact hk.1 _ (hunits ▸ List.mem_map_of_mem hm)
    unfold Plan.emit at hemit
    dsimp only at hemit
    split at hemit
    next hboot =>
      split at hemit
      next started hs =>
        have hw := Emission.bootstrap_wrote (fun hk : clean => hk.2 (hb ▸ hboot)) hs
        obtain ⟨program,hp,hcode,hsound⟩ := Emission.units_wrote hnames hc hemit
        refine ⟨program,emission.writer.lines,hunits ▸ hp,rfl,?_,?_⟩
        · rw [hw.code, hw.nextLabel] at hcode
          simpa [Writer.code, codeOf, ← hb, hboot, bootstrapCode, Writer.lines] using hcode
        · intro hu he
          exact hsound ⟨hu,he⟩ (hw.sound ⟨hu,he⟩ (by simp [Writer.lines]))
      next => cases hemit
    next hboot =>
      obtain ⟨program,hp,hcode,hsound⟩ := Emission.units_wrote hnames hc hemit
      refine ⟨program,emission.writer.lines,hunits ▸ hp,rfl,?_,?_⟩
      · simpa [Writer.code, codeOf, ← hb, hboot, Writer.lines] using hcode
      · intro hu he
        exact hsound ⟨hu,he⟩ (by simp [Writer.lines])

end HackToolchain.Compile
