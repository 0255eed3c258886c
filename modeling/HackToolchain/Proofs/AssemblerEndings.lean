import HackToolchain.Proofs.OutputFiles
import HackToolchain.Proofs.SourceFaults

/-! # How an assembly ends

A source is assembled, or it is refused with the place of the line to blame, or it holds digits that are no numeral and
is refused without a place.  The assembler tells these apart by its exit code, and one more: the output may have no
place on the disk.
-/
namespace HackToolchain.Files

section NullCharacter

/-- No name of a path holds a null character. -/
def Path.IsClean (path : Path) : Prop := ∀ name ∈ path.names, '\x00' ∉ name.toList

theorem mem_intercalate_slash {c : Char} (hc : c ≠ '/') (names : List String) :
    c ∈ ("/".intercalate names).toList ↔ ∃ name ∈ names, c ∈ name.toList := by
  rw [String.toList_intercalate]
  induction names with
  | nil => simp [List.intercalate]
  | cons name rest ih =>
    cases rest with
    | nil => simp [List.intercalate]
    | cons other rest =>
      rw [List.map_cons] at ih
      rw [List.map_cons, List.map_cons, List.intercalate_cons_cons, List.mem_append, List.mem_append, ih]
      simp [hc]

theorem Path.isClean_iff (path : Path) : path.IsClean ↔ '\x00' ∉ path.text.toList := by
  have hmem := mem_intercalate_slash (by decide : '\x00' ≠ '/') path.names
  have hclean : path.IsClean ↔ '\x00' ∉ ("/".intercalate path.names).toList := by
    rw [hmem]
    simp [IsClean]
  rw [hclean, text]
  split_ifs with habsolute hempty
  · simp
  · simp [List.isEmpty_iff.mp hempty]
  · rfl

theorem mem_of_mem_components {c : Char} {part cs : List Char} (hp : part ∈ components cs) (hc : c ∈ part) : c ∈ cs := by
  induction cs generalizing part with
  | nil =>
    cases List.mem_singleton.mp hp
    cases hc
  | cons d rest ih =>
    rw [components] at hp
    split at hp
    next =>
      cases List.mem_singleton.mp hp
      exact List.mem_cons.mpr (.inl (List.mem_singleton.mp hc))
    next first others hrest =>
      rw [hrest] at ih
      split at hp
      next =>
        rcases List.mem_cons.mp hp with rfl | hp
        · cases hc
        · exact List.mem_cons_of_mem d (ih hp hc)
      next =>
        rcases List.mem_cons.mp hp with rfl | hp
        · rcases List.mem_cons.mp hc with rfl | hc
          · exact List.mem_cons_self
          · exact List.mem_cons_of_mem d (ih List.mem_cons_self hc)
        · exact List.mem_cons_of_mem d (ih (List.mem_cons_of_mem first hp) hc)

theorem Path.isClean_ofText {text : String} (h : '\x00' ∉ text.toList) : (Path.ofText text).IsClean := by
  intro name hn hc
  obtain ⟨part,hp,rfl⟩ := List.mem_map.mp (List.mem_filter.mp hn).1
  exact h (mem_of_mem_components hp (by simpa using hc))

theorem mem_of_mem_divide {c : Char} {name : String} (h : c ∈ (divide name).1.toList) : c ∈ name.toList := by
  unfold divide at h
  dsimp only at h
  split at h
  next => exact h
  next => exact List.mem_of_mem_take (by simpa using h)

theorem Path.IsClean.withSuffix {path : Path} (h : path.IsClean) {suffix : String} (hs : '\x00' ∉ suffix.toList) :
    (path.withSuffix suffix).IsClean := by
  intro name hn hc
  rcases List.mem_append.mp hn with hn | hn
  · exact h name (List.dropLast_subset _ hn) hc
  · cases List.mem_singleton.mp hn
    rw [String.toList_append, List.mem_append] at hc
    rcases hc with hc | hc
    · have hname := mem_of_mem_divide hc
      unfold name at hname
      cases hlast : path.names.getLast? with
      | none => simp [hlast] at hname
      | some last =>
        rw [hlast] at hname
        exact h last (List.mem_of_getLast? hlast) hname
    · exact hs hc

theorem Disk.walk_ne_nullCharacter (disk : Disk) (location : Location) (names : List String) :
    disk.walk location names ≠ .error .nullCharacter := by
  induction names generalizing location with
  | nil => simp [walk]
  | cons name rest ih =>
    unfold walk
    split_ifs <;> simp [ih]

theorem textTrouble?_eq_nullCharacter {text : String} (h : textTrouble? text = some .nullCharacter) :
    '\x00' ∈ text.toList := by
  unfold textTrouble? at h
  split at h
  next hc => simpa using hc
  next => split at h <;> cases h

/-- A path without a null character is not refused for one. -/
theorem Path.IsClean.target_ne {path : Path} (h : path.IsClean) (disk : Disk) :
    disk.target path ≠ .error .nullCharacter := by
  intro ht
  unfold Disk.target at ht
  split at ht
  next trouble htext =>
    cases ht
    exact path.isClean_iff.mp h (textTrouble?_eq_nullCharacter htext)
  next => cases ht
  next name _ _ =>
    rcases Outcome.bind_eq_error.mp ht with hwalk | ⟨parent,-,ht⟩
    · exact disk.walk_ne_nullCharacter _ _ hwalk
    · split_ifs at ht <;> cases ht

end NullCharacter

end HackToolchain.Files

namespace HackToolchain.CommandLine

open Asm (Blames SourceLine sourceLines)
open Files (Disk Path)

section Clean

variable {disk : Disk} {text : String}

theorem not_null_of_lookUp {found : Option Files.Location} (h : lookUp disk text = .ok found) :
    '\x00' ∉ text.toList := by
  intro hnull
  have htrouble : Files.textTrouble? text = some .nullCharacter := by simp [Files.textTrouble?, hnull]
  simp [lookUp, Disk.locateTyped, htrouble] at h

theorem isClean_of_outputPath {path : Path} (h : outputPath disk text = .ok path) : path.IsClean := by
  obtain ⟨found,hf,h⟩ := Outcome.bind_eq_ok.mp h
  split at h
  next => cases h
  next =>
    cases h
    exact Path.isClean_ofText (not_null_of_lookUp hf)

theorem isClean_of_inputPath {takesDirectory : Bool} {path : Path} (h : inputPath disk takesDirectory text = .ok path) :
    path.IsClean := by
  obtain ⟨found,hf,h⟩ := Outcome.bind_eq_ok.mp h
  split at h
  next =>
    split at h
    next => cases h
    next =>
      cases h
      exact Path.isClean_ofText (not_null_of_lookUp hf)
  next => cases h

/-- The paths that a tool works on hold no null character. -/
theorem isClean_of_inputAndOutput {takesDirectory : Bool} {found : Arguments} {input : Path} {output : Option Path}
    (h : inputAndOutput disk takesDirectory found = .ok (input, output)) :
    input.IsClean ∧ ∀ path ∈ output, path.IsClean := by
  obtain ⟨chosen,ho,h⟩ := Outcome.bind_eq_ok.mp h
  have hchosen : ∀ path ∈ chosen, path.IsClean := by
    cases hv : found.lastValue? "output" with
    | none =>
      rw [hv] at ho
      cases ho
      rintro _ ⟨⟩
    | some text =>
      rw [hv, Option.mapM_some] at ho
      obtain ⟨path,hp,ho⟩ := Outcome.bind_eq_ok.mp ho
      cases ho
      rintro _ ⟨⟩
      exact isClean_of_outputPath hp
  split at h
  next => cases h
  next =>
    obtain ⟨path,hp,h⟩ := Outcome.bind_eq_ok.mp h
    split at h
    next =>
      cases h
      exact ⟨isClean_of_inputPath hp,hchosen⟩
    next => cases h

theorem isClean_of_assignment? {specs : List OptionSpec} {takesDirectory : Bool} {arguments : List String}
    {found : Arguments} {input : Path} {output : Option Path}
    (h : assignment? disk specs takesDirectory arguments = some (found, input, output)) :
    input.IsClean ∧ ∀ path ∈ output, path.IsClean := by
  obtain ⟨given,-,h⟩ := Option.bind_eq_some_iff.mp h
  split at h
  next => cases h
  next =>
    obtain ⟨paths,hp,he⟩ := Option.map_eq_some_iff.mp h
    cases he
    exact isClean_of_inputAndOutput (Outcome.toOption_eq_some.mp hp)

end Clean

/-- What the exit code of the assembler says about a source that it has read. -/
structure CodeTells (lines : List SourceLine) (hasPlace : Prop) (code : Nat) : Prop where
  success : code = 0 ↔ (∀ line failure, ¬Blames lines line failure) ∧ hasPlace
  badProgram : code = 1 ↔ ∃ line fault, Blames lines line (line.fail fault)
  badRequest : code = 2 ↔ (∀ line failure, ¬Blames lines line failure) ∧ ¬hasPlace
  unforeseen : code = 3 ↔ ∃ line fault, Blames lines line (.numeral fault)

section Endings

variable {disk : Disk} {found : Arguments} {input : Path} {output : Option Path} {source : String}

/-- The file that a program goes to. -/
def programPath (input : Path) (output : Option Path) : Path := output.getD (input.withSuffix ".hack")

theorem assemblerWork_of_failure {failure : Failure}
    (h : (Files.assemblePath disk input (some (programPath input output))).outcome = .error failure) :
    (assemblerWork disk found input output).status = (describe "Assembly" failure).2 := by
  unfold programPath at h
  simp only [assemblerWork, h, failed]

theorem assemblerWork_of_session {session : Asm.Session}
    (h : (Files.assemblePath disk input (some (programPath input output))).outcome = .ok session) :
    (assemblerWork disk found input output).status = .success := by
  unfold programPath at h
  simp only [assemblerWork, h]

theorem outcome_of_refused (hs : disk.readText input = .ok source) {failure : Failure}
    (h : (Asm.Session.new.assemble source input.name).2 = .error failure) (path : Path) :
    (Files.assemblePath disk input (some path)).outcome = .error failure := by
  cases hr : Asm.Session.new.assemble source input.name with
  | mk session outcome =>
    rw [hr] at h
    cases h
    simp only [Files.assemblePath, hs, hr]

theorem outcome_of_accepted (hs : disk.readText input = .ok source) {words : List Nat}
    (h : (Asm.Session.new.assemble source input.name).2 = .ok words) (path : Path) :
    (∀ place, disk.target path = .ok place →
        ∃ session, (Files.assemblePath disk input (some path)).outcome = .ok session) ∧
      ∀ trouble, disk.target path = .error trouble →
        (Files.assemblePath disk input (some path)).outcome = .error (trouble.failure path.text) := by
  cases hr : Asm.Session.new.assemble source input.name with
  | mk session outcome =>
    rw [hr] at h
    cases h
    constructor
    · intro place hp
      refine ⟨session,?_⟩
      simp only [Files.assemblePath, hs, hr, Option.mapM_some, Disk.writeText, Disk.writeBytes, hp]
      rfl
    · intro trouble ht
      simp only [Files.assemblePath, hs, hr, Option.mapM_some, Disk.writeText, Disk.writeBytes, ht]
      rfl

/-- A file without a place on the disk is a request that is wrong. -/
theorem describe_failure {trouble : Files.Trouble} (h : trouble ≠ .nullCharacter) (path activity : String) :
    (describe activity (trouble.failure path)).2 = .badRequest := by
  cases trouble with
  | nullCharacter => exact absurd rfl h
  | missing | notDirectory | isDirectory | nameTooLong => rfl

theorem assemblerWork_tells (hs : disk.readText input = .ok source) (hc : (programPath input output).IsClean) :
    CodeTells (sourceLines source input.name) (∃ place, disk.target (programPath input output) = .ok place)
      (assemblerWork disk found input output).status.code := by
  have hblames : ∀ line failure, Blames (sourceLines source input.name) line failure →
      (Asm.Session.new.assemble source input.name).2 = .error failure :=
    fun line _ hb => Asm.Session.assemble_eq_error.mpr ⟨line,hb⟩
  -- An assembly has one outcome, so no two of the four descriptions can be true.
  cases ho : (Asm.Session.new.assemble source input.name).2 with
  | ok words =>
    have hnone : ∀ line failure, ¬Blames (sourceLines source input.name) line failure := by
      intro line failure hb
      cases ho.symm.trans (hblames line failure hb)
    obtain ⟨hplace,htrouble⟩ := outcome_of_accepted hs ho (programPath input output)
    cases ht : disk.target (programPath input output) with
    | ok place =>
      obtain ⟨session,hsession⟩ := hplace place ht
      rw [assemblerWork_of_session hsession]
      constructor <;> simp [ExitStatus.code, hnone]
    | error trouble =>
      rw [assemblerWork_of_failure (htrouble trouble ht),
        describe_failure (fun he => hc.target_ne disk (he ▸ ht))]
      constructor <;> simp [ExitStatus.code, hnone]
  | error failure =>
    obtain ⟨line,hb⟩ := Asm.Session.assemble_eq_error.mp ho
    rw [assemblerWork_of_failure (outcome_of_refused hs ho _)]
    have hsome : ¬∀ line failure, ¬Blames (sourceLines source input.name) line failure := fun h => h line failure hb
    rcases hb.failure_eq with ⟨fault,rfl⟩ | ⟨digits,fault,-,-,-,rfl⟩
    · have hnumeral : ¬∃ line fault, Blames (sourceLines source input.name) line (.numeral fault) := by
        rintro ⟨other,fault,h⟩
        cases ho.symm.trans (hblames other _ h)
      have hcode : (describe "Assembly" (line.fail fault)).2.code = 1 := rfl
      rw [hcode]
      exact ⟨iff_of_false (by decide) fun h => hsome h.1,iff_of_true rfl ⟨line,fault,hb⟩,
        iff_of_false (by decide) fun h => hsome h.1,iff_of_false (by decide) hnumeral⟩
    · have hlocated : ¬∃ line fault, Blames (sourceLines source input.name) line (line.fail fault) := by
        rintro ⟨other,fault,h⟩
        cases ho.symm.trans (hblames other _ h)
      have hcode : (describe "Assembly" (.numeral fault)).2.code = 3 := rfl
      rw [hcode]
      exact ⟨iff_of_false (by decide) fun h => hsome h.1,iff_of_false (by decide) hlocated,
        iff_of_false (by decide) fun h => hsome h.1,iff_of_true rfl ⟨line,fault,hb⟩⟩

/-- The assembler at work tells by its exit code what is wrong. -/
theorem assembler_tells {arguments : List String}
    (ha : assignment? disk commonSpecs false arguments = some (found, input, output))
    (hs : disk.readText input = .ok source) :
    CodeTells (sourceLines source input.name) (∃ place, disk.target (programPath input output) = .ok place)
      (assembler disk arguments).status.code := by
  obtain ⟨hinput,houtput⟩ := isClean_of_assignment? ha
  have hclean : (programPath input output).IsClean := by
    cases output with
    | none => exact hinput.withSuffix (by decide)
    | some path => exact houtput path rfl
  rcases start_cases disk "hackasm" commonSpecs false arguments (assemblerWork disk) with
    ⟨_,_,_,hassigned,hstart⟩ | ⟨hnone,-⟩
  · cases ha.symm.trans hassigned
    rw [assembler, hstart]
    exact assemblerWork_tells hs hclean
  · cases ha.symm.trans hnone

end Endings

/-- How the assembly of a source ends: it is accepted if no line is to blame, and otherwise refused with the failure of
the line to blame.  The failure tells the place of that line, unless the line loads digits that are no numeral. -/
structure Diagnosed (session : Asm.Session) (source file : String) : Prop where
  accepted : (∃ words, (session.assemble source file).2 = .ok words) ↔
    ∀ line failure, ¬Blames (sourceLines source file) line failure
  refused : ∀ failure, (session.assemble source file).2 = .error failure ↔
    ∃ line, Blames (sourceLines source file) line failure
  placed : ∀ line failure, Blames (sourceLines source file) line failure → ∃ (i : Nat) (chars : List Char),
    (Text.lines source)[i]? = some chars ∧
      line.position = ⟨file,i + 1,((Text.beforeComment chars).takeWhile Text.isBlank).length + 1⟩ ∧
      line.text = (Text.beforeComment chars).filter (!Text.isBlank ·) ∧ line.raw = String.ofList (Text.trimRight chars)
  located : ∀ line failure, Blames (sourceLines source file) line failure →
    (∃ fault, failure = .asm ⟨.malformed fault,some line.position,some line.raw⟩) ∨
      ∃ digits fault, line.text = '@' :: digits ∧ digits.all Text.isDigit = true ∧ Text.IsRefused digits fault ∧
        failure = .numeral fault

/-- A source that is refused is refused for the first line at fault, labels before all others, and with its place.  The
exit code of the assembler says so too.  Only digits that are no numeral are refused without a place, and with the code
of an internal error. -/
theorem refusals_are_located_unless_numeral (session : Asm.Session) (source file : String) :
    Diagnosed session source file ∧
      ∀ disk arguments found input output, assignment? disk commonSpecs false arguments = some (found, input, output) →
        disk.readText input = .ok source →
        CodeTells (sourceLines source input.name) (∃ place, disk.target (programPath input output) = .ok place)
          (assembler disk arguments).status.code := by
  refine ⟨⟨?_,fun _ => Asm.Session.assemble_eq_error,?_,?_⟩,fun _ _ _ _ _ => assembler_tells⟩
  · constructor
    · rintro ⟨words,hw⟩ line failure hb
      cases hw.symm.trans (Asm.Session.assemble_eq_error.mpr ⟨line,hb⟩)
    · intro hnone
      cases ho : (session.assemble source file).2 with
      | ok words => exact ⟨words,rfl⟩
      | error failure =>
        obtain ⟨line,hb⟩ := Asm.Session.assemble_eq_error.mp ho
        exact absurd hb (hnone line failure)
  · exact fun line failure hb => Asm.mem_sourceLines hb.mem
  · exact fun line failure hb => hb.failure_eq

/-- A constant that is too large, between a label and digits that are no numeral. -/
def largeSource : String := "(A)\n@70000\n@²"

def sourceDisk (name source : String) : Disk := { files := [([name], source.toUTF8)], directories := [], here := [] }

theorem large_constant_is_located :
    (Asm.Session.new.assemble largeSource "large.asm").2 =
        .error (.asm ⟨.malformed (.constantOutOfRange 70000),some ⟨"large.asm",2,1⟩,some "@70000"⟩) ∧
      (∃ line failure, Blames (sourceLines largeSource "large.asm") line failure) ∧
      (assembler (sourceDisk "large.asm" largeSource) ["large.asm"]).status.code = 1 := by
  obtain ⟨hdiagnosed,hcode⟩ := refusals_are_located_unless_numeral .new largeSource "large.asm"
  have hrefused : (Asm.Session.new.assemble largeSource "large.asm").2 =
      .error (.asm ⟨.malformed (.constantOutOfRange 70000),some ⟨"large.asm",2,1⟩,some "@70000"⟩) := by
    decide +kernel
  have hassigned : assignment? (sourceDisk "large.asm" largeSource) commonSpecs false ["large.asm"] =
      some (⟨[],["large.asm"]⟩,.ofText "large.asm",none) := by
    decide +kernel
  have hread : (sourceDisk "large.asm" largeSource).readText (.ofText "large.asm") = .ok largeSource := by
    decide +kernel
  have hname : (Path.ofText "large.asm").name = "large.asm" := by decide +kernel
  have htells := hcode _ _ _ _ _ hassigned hread
  rw [hname] at htells
  obtain ⟨line,hb⟩ := (hdiagnosed.refused _).mp hrefused
  rcases hdiagnosed.located line _ hb with ⟨fault,he⟩ | ⟨digits,fault,-,-,-,he⟩
  · rw [he] at hb
    exact ⟨hrefused,⟨line,_,hb⟩,htells.badProgram.mpr ⟨line,fault,hb⟩⟩
  · cases he

/-- A superscript two is a digit without a decimal value.  It is refused with no place, and not as a fault of the
source. -/
theorem superscript_is_not_located :
    (Asm.Session.new.assemble "@²" "<input>").2 = .error (.numeral (.notANumeral "²")) ∧
      (assembler (sourceDisk "two.asm" "@²") ["two.asm"]).status.code = 3 := by
  decide +kernel

end HackToolchain.CommandLine
