import HackToolchain.CommandLine.Tool
import HackToolchain.Proofs.Builds
import HackToolchain.Proofs.LineParts

/-! # What a run writes

A tool looks at its arguments before it goes to work.  So a run that fails leaves the disk as it was, and one that
succeeds has written one file.  One failure comes too late: a call may pass all the checks and still have a number that
is too long to print, and then the file has been opened and is left half written.
-/
namespace HackToolchain.CommandLine

open Compile (CompilationUnit Options Plan)
open Files (Disk Location Path Ready)

theorem ExitStatus.code_eq_zero {status : ExitStatus} : status.code = 0 ↔ status = .success := by
  cases status <;> simp [code]

/-- What is told of a failure is never that all went well. -/
theorem describe_ne_success (activity : String) (failure : Failure) : (describe activity failure).2 ≠ .success := by
  unfold describe
  split <;> simp

/-- An option that asks for words and not for work. -/
def isInquiry (given : Given) : Bool := given.key == "version" || given.key == "help"

/-- What arguments ask a tool to work on, if they are in order. -/
def assignment? (disk : Disk) (specs : List OptionSpec) (takesDirectory : Bool) (arguments : List String) :
    Option (Arguments × Path × Option Path) := do
  let found ← read specs arguments
  if found.given.any isInquiry then none
  else (inputAndOutput disk takesDirectory found).toOption.map (found, ·)

section Starting

variable {disk : Disk} {α β : Type}

/-- A step that may end the run, but not well and only with the disk as it was. -/
def Careful (disk : Disk) (step : Except Ending α) : Prop :=
  ∀ ending, step = .error ending → ending.disk = disk ∧ ending.status ≠ .success

theorem careful_ok (a : α) : Careful disk (.ok a) := fun _ h => by cases h

theorem careful_usageError : Careful disk (.error (.usageError disk) : Except Ending α) := by
  rintro _ ⟨⟩
  exact ⟨rfl,by simp [Ending.usageError]⟩

theorem Careful.bind {step : Except Ending α} {next : α → Except Ending β} (hs : Careful disk step)
    (hn : ∀ a, Careful disk (next a)) : Careful disk (step >>= next) := by
  cases step with
  | error ending =>
    rintro _ ⟨⟩
    exact hs ending rfl
  | ok a => exact hn a

theorem careful_lookUp (disk : Disk) (text : String) : Careful disk (lookUp disk text) := by
  unfold lookUp
  split
  · exact careful_ok _
  · rintro _ ⟨⟩
    exact ⟨rfl,by simp [Ending.brokenOff]⟩
  · exact careful_ok _

theorem careful_outputPath (disk : Disk) (text : String) : Careful disk (outputPath disk text) := by
  refine (careful_lookUp disk text).bind fun location => ?_
  split
  · exact careful_usageError
  · exact careful_ok _

theorem careful_inputPath (disk : Disk) (takesDirectory : Bool) (text : String) :
    Careful disk (inputPath disk takesDirectory text) := by
  refine (careful_lookUp disk text).bind fun location => ?_
  cases location with
  | none => exact careful_usageError
  | some location =>
    dsimp only
    split
    · exact careful_usageError
    · exact careful_ok _

/-- Arguments that are not in order are refused before anything is done. -/
theorem careful_inputAndOutput (disk : Disk) (takesDirectory : Bool) (found : Arguments) :
    Careful disk (inputAndOutput disk takesDirectory found) := by
  refine Careful.bind ?_ fun output => ?_
  · cases found.lastValue? "output" with
    | none => exact careful_ok _
    | some text => exact (careful_outputPath disk text).bind fun path => careful_ok _
  · cases found.operands with
    | nil => exact careful_usageError
    | cons operand others =>
      refine (careful_inputPath disk takesDirectory operand).bind fun input => ?_
      split
      · exact careful_ok _
      · exact careful_usageError

/-- A tool goes to work, or leaves the disk as it was and tells something at most. -/
theorem start_cases (disk : Disk) (tool : String) (specs : List OptionSpec) (takesDirectory : Bool)
    (arguments : List String) (work : Arguments → Path → Option Path → Ending) :
    (∃ found input output, assignment? disk specs takesDirectory arguments = some (found, input, output) ∧
      start disk tool specs takesDirectory arguments work = work found input output) ∨
    assignment? disk specs takesDirectory arguments = none ∧
      (start disk tool specs takesDirectory arguments work).disk = disk ∧
      ((start disk tool specs takesDirectory arguments work).status = .success →
        ∃ found, read specs arguments = some found ∧ found.given.any isInquiry = true) := by
  unfold start assignment?
  cases read specs arguments with
  | none => exact .inr ⟨rfl,rfl,by simp [Ending.usageError]⟩
  | some found =>
    dsimp only
    split
    next given hg =>
      have hany : found.given.any isInquiry = true :=
        List.any_eq_true.mpr ⟨given,List.mem_of_find?_eq_some hg,List.find?_some hg⟩
      exact .inr ⟨if_pos hany,rfl,fun _ => ⟨found,rfl,hany⟩⟩
    next hg =>
      have hany : ¬found.given.any isInquiry = true := by
        simpa [isInquiry] using hg
      cases hp : inputAndOutput disk takesDirectory found with
      | ok paths =>
        refine .inl ⟨found,paths.1,paths.2,(if_neg hany).trans ?_,rfl⟩
        rw [hp]
        rfl
      | error ending =>
        obtain ⟨hdisk,hstatus⟩ := careful_inputAndOutput disk takesDirectory found ending hp
        refine .inr ⟨(if_neg hany).trans ?_,hdisk,fun h => absurd h hstatus⟩
        rw [hp]
        rfl

end Starting

/-- What the compiler is to do. -/
structure Job where
  options : Options
  input : Path
  output : Option Path
  deriving DecidableEq

def compilerJob? (disk : Disk) (arguments : List String) (environment : Options.Environment) : Option Job :=
  (assignment? disk compilerSpecs true arguments).map fun (found, input, output) =>
    ⟨adjusted (Options.ofEnvironment environment).1 found, input, output⟩

section Compiler

variable {disk : Disk} {arguments : List String} {environment : Options.Environment} {job : Job}

theorem isPrintable_stackBase (environment : Options.Environment) :
    Text.isPrintableInteger (Options.ofEnvironment environment).1.stackBase = true := by
  change Text.isPrintableInteger
    (((Options.setting? environment "HACKVM_STACK_BASE").bind Text.integer?).getD 256) = true
  cases hb : (Options.setting? environment "HACKVM_STACK_BASE").bind Text.integer? with
  | none =>
    have hshort : Text.IsShort 256 := ⟨3,by decide,by decide⟩
    exact hshort.isPrintableInteger
  | some value =>
    obtain ⟨text,-,hv⟩ := Option.bind_eq_some_iff.mp hb
    exact Text.isPrintableInteger_of_integer? hv

theorem compilerWork_eq (disk : Disk) (environment : Options.Environment) (found : Arguments) (input : Path)
    (output : Option Path) :
    let attempt := Files.compilePath disk (adjusted (Options.ofEnvironment environment).1 found) input output
    (compilerWork disk environment found input output).disk = attempt.disk ∧
      (compilerWork disk environment found input output).status =
        (Outcome.failure? attempt.outcome).elim .success fun failure => (describe "Translation" failure).2 := by
  unfold compilerWork
  dsimp only
  cases (Files.compilePath disk (adjusted (Options.ofEnvironment environment).1 found) input output).outcome with
  | ok result => exact ⟨rfl,rfl⟩
  | error failure => exact ⟨rfl,rfl⟩

/-- The compiler does its job on files. -/
theorem compiler_of_job (hj : compilerJob? disk arguments environment = some job) :
    Text.isPrintableInteger job.options.stackBase = true ∧
    (compiler disk arguments environment).disk =
        (Files.compilePath disk job.options job.input job.output).disk ∧
      (compiler disk arguments environment).status =
        (Outcome.failure? (Files.compilePath disk job.options job.input job.output).outcome).elim .success
          fun failure => (describe "Translation" failure).2 := by
  obtain ⟨⟨found,input,output⟩,ha,rfl⟩ := Option.map_eq_some_iff.mp hj
  refine ⟨isPrintable_stackBase environment,?_⟩
  rcases start_cases disk "hackvm" compilerSpecs true arguments (compilerWork disk environment) with
    ⟨_,_,_,hb,hs⟩ | ⟨hn,-⟩
  · cases ha.symm.trans hb
    rw [compiler, hs]
    exact compilerWork_eq disk environment found input output
  · cases ha.symm.trans hn

variable {units : List (Path × CompilationUnit)} {plan : Plan} {path : Path} {place : Location}

theorem compiler_of_ready (hj : compilerJob? disk arguments environment = some job)
    (h : Ready disk job.options job.input job.output units plan path place) :
    (compiler disk arguments environment).status = (if plan.isOverlong then .unforeseen else .success) ∧
      disk.Wrote (compiler disk arguments environment).disk place
        (plan.emit job.options).1.writer.text.toUTF8 := by
  obtain ⟨hbase,hdisk,hstatus⟩ := compiler_of_job hj
  obtain ⟨hwritten,houtcome⟩ := h.compilePath
  rw [hdisk, hstatus, hwritten, houtcome, (Compile.emit_ends_of_prepare h.checked).outcome,
    Compile.hasLongBase_eq_false hbase, Bool.false_or]
  refine ⟨?_,disk.put_wrote place _⟩
  cases plan.isOverlong <;> rfl

theorem compiler_of_not_ready (hj : compilerJob? disk arguments environment = some job)
    (h : ¬∃ units plan path place, Ready disk job.options job.input job.output units plan path place) :
    (compiler disk arguments environment).disk = disk ∧ (compiler disk arguments environment).status ≠ .success := by
  obtain ⟨-,hdisk,hstatus⟩ := compiler_of_job hj
  obtain ⟨hkept,failure,houtcome⟩ := Files.compilePath_of_not_ready h
  rw [hdisk, hstatus, hkept, houtcome]
  exact ⟨rfl,describe_ne_success "Translation" failure⟩

theorem compiler_of_no_job (hj : compilerJob? disk arguments environment = none) :
    (compiler disk arguments environment).disk = disk ∧
      ((compiler disk arguments environment).status = .success →
        ∃ found, read compilerSpecs arguments = some found ∧ found.given.any isInquiry = true) := by
  rcases start_cases disk "hackvm" compilerSpecs true arguments (compilerWork disk environment) with
    ⟨_,_,_,hb,-⟩ | ⟨-,hs⟩
  · rw [compilerJob?, hb] at hj
    cases hj
  · exact hs

end Compiler

/-- What a run of the compiler does to the disk.  It leaves a file behind although it fails only if the program has an
overlong call. -/
structure CompilerEffect (disk : Disk) (arguments : List String) (environment : Options.Environment)
    (ending : Ending) : Prop where
  failed : ending.status.code ≠ 0 → ending.disk = disk ∨ ∃ job units plan path place,
    compilerJob? disk arguments environment = some job ∧
      Ready disk job.options job.input job.output units plan path place ∧ plan.isOverlong = true
  cut : ∀ job units plan path place, compilerJob? disk arguments environment = some job →
    Ready disk job.options job.input job.output units plan path place → plan.isOverlong = true →
      ending.status.code = 3 ∧ disk.Wrote ending.disk place (plan.emit job.options).1.writer.text.toUTF8
  succeeded : ending.status.code = 0 →
    (∃ found, read compilerSpecs arguments = some found ∧ found.given.any isInquiry = true) ∧ ending.disk = disk ∨
    ∃ job units plan path place summary text, compilerJob? disk arguments environment = some job ∧
      Ready disk job.options job.input job.output units plan path place ∧
      Compile.compile job.options (units.map (·.2)) = .ok (summary, text) ∧
      disk.Wrote ending.disk place text.toUTF8
  inputs : ∀ job units, compilerJob? disk arguments environment = some job → job.output = none →
    Files.unitsAt disk job.input = .ok units → ∀ entry ∈ units, ending.disk.readBytes entry.1 = disk.readBytes entry.1

/-- What a run of the assembler does to the disk. -/
structure AssemblerEffect (disk : Disk) (arguments : List String) (ending : Ending) : Prop where
  failed : ending.status.code ≠ 0 → ending.disk = disk
  succeeded : ending.status.code = 0 →
    (∃ found, read commonSpecs arguments = some found ∧ found.given.any isInquiry = true) ∧ ending.disk = disk ∨
    ∃ found input output source words place,
      assignment? disk commonSpecs false arguments = some (found, input, output) ∧
      disk.readText input = .ok source ∧ Asm.assemble source input.name = .ok words ∧
      disk.target (output.getD (input.withSuffix ".hack")) = .ok place ∧
      disk.Wrote ending.disk place (Asm.hackText words).toUTF8

theorem compiler_effect (disk : Disk) (arguments : List String) (environment : Options.Environment) :
    CompilerEffect disk arguments environment (compiler disk arguments environment) := by
  cases hj : compilerJob? disk arguments environment with
  | none =>
    obtain ⟨hdisk,hinquiry⟩ := compiler_of_no_job hj
    refine ⟨fun _ => .inl hdisk,?_,?_,?_⟩
    · intro _ _ _ _ _ he
      cases hj.symm.trans he
    · exact fun hs => .inl ⟨hinquiry (ExitStatus.code_eq_zero.mp hs),hdisk⟩
    · intro _ _ he
      cases hj.symm.trans he
  | some job =>
    by_cases hr : ∃ units plan path place, Ready disk job.options job.input job.output units plan path place
    · obtain ⟨units,plan,path,place,hr⟩ := hr
      obtain ⟨hstatus,hwrote⟩ := compiler_of_ready hj hr
      refine ⟨?_,?_,?_,?_⟩
      · intro hs
        refine .inr ⟨job,units,plan,path,place,hj,hr,?_⟩
        by_contra hlong
        rw [hstatus, if_neg hlong] at hs
        exact hs rfl
      · intro _ _ _ _ _ he hr hlong
        cases hj.symm.trans he
        obtain ⟨hstatus,hwrote⟩ := compiler_of_ready hj hr
        rw [hstatus, if_pos hlong]
        exact ⟨rfl,hwrote⟩
      · intro hs
        have hlong : plan.isOverlong = false := by
          rw [← Bool.not_eq_true]
          intro hlong
          rw [hstatus, if_pos hlong] at hs
          cases hs
        refine .inr ⟨job,units,plan,path,place,plan.summary (plan.emit job.options).1,_,hj,hr,?_,hwrote⟩
        rw [Compile.compile_of_prepare hr.checked, (Compile.emit_ends_of_prepare hr.checked).outcome,
          Compile.hasLongBase_eq_false (compiler_of_job hj).1, hlong]
        rfl
      · intro _ _ he ho hu
        cases hj.symm.trans he
        have hnamed := hr.named
        rw [ho] at hnamed
        exact hwrote.readBytes_units hu hnamed hr.placed
    · obtain ⟨hdisk,hstatus⟩ := compiler_of_not_ready hj hr
      refine ⟨fun _ => .inl hdisk,?_,?_,fun _ _ _ _ _ _ _ => by rw [hdisk]⟩
      · intro _ _ _ _ _ he hready
        cases hj.symm.trans he
        exact absurd ⟨_,_,_,_,hready⟩ hr
      · exact fun hs => absurd (ExitStatus.code_eq_zero.mp hs) hstatus

theorem assembler_effect (disk : Disk) (arguments : List String) :
    AssemblerEffect disk arguments (assembler disk arguments) := by
  rcases start_cases disk "hackasm" commonSpecs false arguments (assemblerWork disk) with
    ⟨found,input,output,ha,hs⟩ | ⟨-,hdisk,hinquiry⟩
  · rw [assembler, hs]
    rcases Files.assemblePath_cases disk input (output.getD (input.withSuffix ".hack")) with
      ⟨hdisk,failure,ho⟩ | ⟨source,words,place,hsource,hwords,hplace,hdisk,session,ho⟩
    · have hstatus : (assemblerWork disk found input output).status ≠ .success := by
        simp only [assemblerWork, ho, failed]
        exact describe_ne_success "Assembly" failure
      refine ⟨fun _ => ?_,fun hs => absurd (ExitStatus.code_eq_zero.mp hs) hstatus⟩
      simp only [assemblerWork, ho, failed]
      exact hdisk
    · have hstatus : (assemblerWork disk found input output).status = .success := by
        simp only [assemblerWork, ho]
      have hwritten : (assemblerWork disk found input output).disk = disk.put place (Asm.hackText words).toUTF8 := by
        simp only [assemblerWork, ho]
        exact hdisk
      refine ⟨fun hs => absurd (ExitStatus.code_eq_zero.mpr hstatus) hs,fun _ => .inr ?_⟩
      refine ⟨found,input,output,source,words,place,ha,hsource,hwords,hplace,?_⟩
      rw [hwritten]
      exact disk.put_wrote place _
  · exact ⟨fun _ => hdisk,fun hs => .inl ⟨hinquiry (ExitStatus.code_eq_zero.mp hs),hdisk⟩⟩

/-- A run of a tool that fails writes nothing, and one that succeeds writes its output and nothing else, unless a call
of a program that has been accepted is too long to be written. -/
theorem output_is_all_that_is_written (disk : Disk) (arguments : List String) (environment : Options.Environment) :
    CompilerEffect disk arguments environment (compiler disk arguments environment) ∧
      AssemblerEffect disk arguments (assembler disk arguments) :=
  ⟨compiler_effect disk arguments environment,assembler_effect disk arguments⟩

section Overlong

/-- The largest number that can be read. -/
def nines : List Char := List.replicate Text.maxNumeralDigits '9'

def ninesWords : List (List Char) := ["call".toList, "f".toList, nines]

/-- A call with as many arguments as can be read. -/
def ninesText : List Char := [' '].intercalate ninesWords

def ninesDisk : Disk := { files := [(["Main.vm"], (String.ofList ninesText).toUTF8)], directories := [], here := [] }

theorem succ_ofDigitChars_nines (n value : Nat) :
    Nat.ofDigitChars 10 (List.replicate n '9') value + 1 = (value + 1) * 10 ^ n := by
  induction n generalizing value with
  | zero => simp
  | succ n ih =>
    have hdigit : 10 * value + ('9'.toNat - '0'.toNat) + 1 = (value + 1) * 10 := by
      change 10 * value + 9 + 1 = _
      omega
    rw [List.replicate_succ, Nat.ofDigitChars_cons, ih, hdigit, Nat.pow_succ, Nat.mul_assoc, Nat.mul_comm 10]

theorem isOverlong_nines (name : String) : Compile.isOverlong (.call name (Nat.ofDigitChars 10 nines 0)) = true := by
  have hsucc := succ_ofDigitChars_nines Text.maxNumeralDigits 0
  rw [Nat.zero_add, Nat.one_mul] at hsucc
  change Nat.ofDigitChars 10 nines 0 + 1 = _ at hsucc
  generalize Nat.ofDigitChars 10 nines 0 = n at hsucc ⊢
  have hframe : Compile.frameWords = 5 := rfl
  have habs : ((n : Int) + Compile.frameWords).natAbs = n + 5 := by omega
  have hle : ¬n + 5 < 10 ^ Text.maxNumeralDigits := by omega
  simp only [Compile.isOverlong, Text.isPrintableInteger, habs, Nat.pow_eq, hle, decide_false, Bool.not_false]

theorem nines_ne_nil : nines ≠ [] := by
  intro h
  have hlength : nines.length = Text.maxNumeralDigits := List.length_replicate
  rw [h] at hlength
  cases hlength

theorem isWord_ninesWords : ∀ word ∈ ninesWords, Text.IsWord word := by
  have hnines : Text.IsWord nines := by
    refine ⟨nines_ne_nil,?_,?_⟩
    · intro c hc
      rw [List.eq_of_mem_replicate hc]
      decide
    · intro hi
      have hslash : '/' ∈ nines := hi.subset List.mem_cons_self
      cases List.eq_of_mem_replicate hslash
  have hcall : ∀ word ∈ ["call".toList, "f".toList], Text.IsWord word := by
    simp only [Text.isWord_iff]
    decide
  exact List.forall_mem_append.mpr ⟨hcall,by simpa using hnines⟩

theorem isPlain_ninesText : ∀ c ∈ ninesText, c.toNat < 0x80 ∧ c ≠ '\r' := by
  have hall : ("call".toList ++ [' '] ++ ("f".toList ++ [' '] ++ ['9'])).all
      (fun c => c.toNat < 0x80 && c != '\r') = true := by decide
  intro c hc
  have hplain := List.all_eq_true.mp hall c
  rw [Bool.and_eq_true, decide_eq_true_eq, bne_iff_ne] at hplain
  apply hplain
  simp only [ninesText, ninesWords, List.intercalate_cons_cons, List.intercalate_singleton, List.mem_append] at hc ⊢
  rcases hc with hc | hc | hc
  · exact .inl hc
  · exact .inr (.inl hc)
  · exact .inr (.inr (List.mem_singleton.mpr (List.eq_of_mem_replicate hc)))

theorem numeral_nines (line : Vm.Line) {index : Text.Token} (hi : index.text = nines) :
    line.numeral .call index = .ok (Nat.ofDigitChars 10 nines 0) := by
  have hd : nines.all Text.isAsciiDigit = true := by
    rw [List.all_eq_true]
    intro c hc
    rw [List.eq_of_mem_replicate hc]
    decide
  rw [Vm.Line.numeral, hi, if_pos hd, Text.decimal_of_isAsciiDigit nines_ne_nil hd List.length_replicate.le]

theorem exists_ninesCommand (file : String) : ∃ command : Vm.Command,
    Vm.parse (String.ofList ninesText) file = .ok [command] ∧ command.kind = .call ∧
      command.instruction = .ok (.call "f" (Nat.ofDigitChars 10 nines 0)) := by
  obtain ⟨arguments,hspaced,htexts⟩ := Text.spaced_intercalate isWord_ninesWords 0
  obtain ⟨name,_,rfl,hname,hrest⟩ := List.map_eq_cons_iff.mp htexts
  obtain ⟨index,_,rfl,hindex,hnil⟩ := List.map_eq_cons_iff.mp hrest
  cases List.map_eq_nil_iff.mp hnil
  let line : Vm.Line := ⟨file,1,ninesText⟩
  have hlines : Text.lines (String.ofList ninesText) = [ninesText] := by
    apply Text.broken_iff.mp
    rw [String.toList_ofList]
    exact .last (by simp [ninesText, ninesWords, List.intercalate_cons_cons])
      (Text.isUnbroken_intercalate isWord_ninesWords)
  have hwords : line.words = [⟨0,"call".toList⟩, name, index] := by
    change Text.tokens (Text.beforeComment ([' '].intercalate ninesWords)) = _
    rw [Text.isCut_iff.mp (Text.isCut_intercalate isWord_ninesWords)]
    exact Text.spaced_iff.mp hspaced
  let command : Vm.Command :=
    { kind := .call, name := some "f", index := some (Nat.ofDigitChars 10 nines 0),
      position := some ⟨file,1,1⟩, text := some line.text }
  have hcommand : line.command? = some (.ok command) := by
    have hkind : Vm.kindOf? (String.ofList "call".toList) = some .call := by decide
    rw [Vm.Line.command?, hwords]
    simp only [Vm.Line.commandFrom, hkind, Vm.Kind.arity, numeral_nines line hindex, hname]
    rfl
  refine ⟨command,?_,rfl,rfl⟩
  rw [Vm.parse, Vm.sourceLines, hlines]
  change ([line].filterMap Vm.Line.command?).mapM id = _
  rw [List.filterMap_cons_some hcommand]
  rfl

theorem prepare_of_call {unit : CompilationUnit} {command : Vm.Command} (hc : unit.commands = .ok [command])
    (hk : command.kind = .call) :
    ∃ plan, Compile.prepare {} [unit] = .ok plan ∧ plan.units = [(unit, [command])] := by
  have haccess : Vm.checkAccesses [command] = .ok () := by
    refine Outcome.forM_eq_ok.mpr ?_
    simp only [List.mem_singleton, forall_eq, Vm.Command.checkAccess, hk, reduceCtorEq, or_self, ↓reduceIte]
    rfl
  have hlabels : Compile.labelWarnings {} unit.name [command] = .ok [] := by
    simp [Compile.labelWarnings, Link.checkLabels, Link.labelNames, Link.isJump, hk]
    rfl
  refine ⟨⟨[(unit, [command])],Link.Registry.freeze {},Compile.wantsBootstrap {} [unit],[]⟩,?_,rfl⟩
  refine Outcome.bind_eq_ok.mpr ⟨[command],hc,Outcome.bind_eq_ok.mpr ⟨(),haccess,?_⟩⟩
  exact Outcome.bind_eq_ok.mpr ⟨[],hlabels,rfl⟩

/-- A run fails over a call that can be read but not written, and leaves a new file behind. -/
theorem overlong_call_leaves_file :
    (compiler ninesDisk ["Main.vm"] []).status.code = 3 ∧ ninesDisk.file? ["Main.asm"] = none ∧
      ∃ bytes, (compiler ninesDisk ["Main.vm"] []).disk.file? ["Main.asm"] = some bytes := by
  have hjob : compilerJob? ninesDisk ["Main.vm"] [] = some ⟨{},.ofText "Main.vm",none⟩ := by decide +kernel
  have hlocate : ninesDisk.locate (.ofText "Main.vm") = .ok ["Main.vm"] := by decide +kernel
  have hbytes : ninesDisk.readBytes (.ofText "Main.vm") = .ok (String.ofList ninesText).toUTF8 := by
    rw [Disk.readBytes, hlocate]
    rfl
  have hunits := Files.unitsAt_of_file hlocate (by decide +kernel) (by decide +kernel)
    (Disk.readText_of_ascii hbytes isPlain_ninesText)
  have hpath : Files.codePathFor ninesDisk (.ofText "Main.vm") = .ok ((Path.ofText "Main.vm").withSuffix ".asm") := by
    rw [Files.codePathFor, Disk.probe, hlocate]
    rfl
  have hplace : ninesDisk.target ((Path.ofText "Main.vm").withSuffix ".asm") = .ok ["Main.asm"] := by decide +kernel
  obtain ⟨command,hparse,hkind,hcall⟩ := exists_ninesCommand (Path.ofText "Main.vm").name
  obtain ⟨plan,hplan,hentries⟩ := @prepare_of_call ⟨_,_,_⟩ command hparse hkind
  have hready : Ready ninesDisk {} (.ofText "Main.vm") none _ plan _ _ := ⟨hunits,hplan,hpath,hplace⟩
  have hlong : plan.isOverlong = true := by
    have hcommand : Compile.isOverlongCommand command = true := by
      simp only [Compile.isOverlongCommand, hcall, Except.toOption, Option.any_some, isOverlong_nines]
    simp only [Compile.Plan.isOverlong, hentries, List.any_cons, hcommand, Bool.true_or]
  obtain ⟨hstatus,hwrote⟩ := compiler_of_ready hjob hready
  rw [hstatus, if_pos hlong]
  exact ⟨rfl,by decide +kernel,_,hwrote.file⟩

end Overlong

end HackToolchain.CommandLine
