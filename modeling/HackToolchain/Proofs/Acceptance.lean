import Mathlib.Algebra.Ring.Int.Defs
import Mathlib.Data.List.Nodup
import HackToolchain.Proofs.LinkChecks

/-! # Which programs are compiled

A program is compiled unless one of its faults is found.  Faults are looked for in a fixed order: there is no unit at
all, two units have the same name, a line cannot be read or defines a function again, a push or pop is not allowed, a
called function is missing, the entry function is missing.  The fault that is told is the first of the first kind that
occurs.  Once the checks are passed the code is written to its end, unless the stack base that the bootstrap code loads
has too many digits to be printed.
-/
namespace HackToolchain.Vm

/-- A push or pop is for an entry of a segment, and no pop is for a constant. -/
def Command.IsAdmissible (command : Command) : Prop :=
  command.kind = .push ∨ command.kind = .pop → ∃ (segment : Segment) (index : Int),
    command.name = some segment.keyword ∧ command.index = some index ∧ segment.admits index = true ∧
      ¬(command.kind = .pop ∧ segment = .constant)

/-- What is wrong with a push or pop. -/
def Command.accessFault? (command : Command) : Option Failure :=
  if command.kind = .push ∨ command.kind = .pop then
    let word := command.name.getD ""
    let index := command.index.getD 0
    match Segment.ofKeyword? word with
    | none => some (command.fail (.unknownSegment word))
    | some segment =>
      if command.kind = .pop ∧ segment = .constant then some (command.fail .popsConstant)
      else if segment.admits index then none
      else some (command.fail (.badIndex segment index))
  else none

theorem Segment.ofKeyword?_eq_some {word : String} {segment : Segment} :
    Segment.ofKeyword? word = some segment ↔ word = segment.keyword := by
  constructor
  · intro h
    have hk := List.find?_some h
    exact (beq_iff_eq.mp hk).symm
  · rintro rfl
    cases segment <;> rfl

theorem Command.IsFormed.exists_arguments {command : Command} (hf : command.IsFormed)
    (hk : command.kind = .push ∨ command.kind = .pop) : ∃ (name : String) (index : Nat), command.first = .ok name ∧
      command.second = .ok index ∧ Text.isPrintableInteger index = true := by
  obtain ⟨name,hn⟩ := hf.name (by rcases hk with hk | hk <;> simp [hk])
  obtain ⟨index,hi,hs⟩ := hf.index (by rcases hk with hk | hk <;> rw [hk] <;> rfl)
  exact ⟨name,index,hn,hi,hs⟩

theorem Command.IsFormed.failure?_checkAccess {command : Command} (hf : command.IsFormed) :
    Outcome.failure? command.checkAccess = command.accessFault? := by
  by_cases hk : command.kind = .push ∨ command.kind = .pop
  · obtain ⟨name,index,hn,hi,hs⟩ := hf.exists_arguments hk
    rw [Command.checkAccess, Command.accessFault?, if_pos hk, if_pos hk, hn, hi, name_of_first hn, index_of_second hi]
    change Outcome.failure? (do
      let _ ← access command.kind name index command.position command.text
      return ()) = _
    rw [access_eq hk, Segment.parse]
    simp only [Option.getD_some]
    cases Segment.ofKeyword? name with
    | none => rfl
    | some segment =>
      have hentry : Outcome.failure? (checkEntry command.kind segment index command.position command.text) =
          if command.kind = .pop ∧ segment = .constant then some (command.fail .popsConstant)
          else if segment.admits index then none
          else some (command.fail (.badIndex segment index)) := by
        rw [checkEntry, if_pos hs]
        repeat' split
        all_goals rfl
      refine Eq.trans ?_ hentry
      change Outcome.failure? ((checkEntry command.kind segment index command.position command.text >>=
        fun _ => pure segment) >>= fun _ => pure ()) = _
      cases checkEntry command.kind segment index command.position command.text <;> rfl
  · rw [Command.checkAccess, Command.accessFault?, if_neg hk, if_neg hk]
    rfl

theorem Command.IsFormed.accessFault?_eq_none {command : Command} (hf : command.IsFormed) :
    command.accessFault? = none ↔ command.IsAdmissible := by
  by_cases hk : command.kind = .push ∨ command.kind = .pop
  · obtain ⟨name,index,hn,hi,-⟩ := hf.exists_arguments hk
    rw [Command.accessFault?, if_pos hk, Command.IsAdmissible, name_of_first hn, index_of_second hi]
    simp only [Option.getD_some, Option.some.injEq, hk, forall_const]
    constructor
    · intro h
      split at h
      next => cases h
      next segment hseg =>
        split at h
        next => cases h
        next hp =>
          split at h
          next ha => exact ⟨segment,index,Segment.ofKeyword?_eq_some.mp hseg,rfl,ha,hp⟩
          next => cases h
    · rintro ⟨segment,_,hw,rfl,ha,hp⟩
      rw [Segment.ofKeyword?_eq_some.mpr hw]
      simp [hp, ha]
  · simp [Command.accessFault?, Command.IsAdmissible, hk]

end HackToolchain.Vm

namespace HackToolchain.Compile

open Link (Registry Call)
open Outcome (failure?)
open Vm (Command)

section Faults

variable {α β γ : Type}

/-- The fault of the first member that has one, where a fault may lie in what stands before. -/
def firstFault? (fault? : List α → α → Option γ) (before : List α) : List α → Option γ
  | [] => none
  | x :: rest => (fault? before x).or (firstFault? fault? (before ++ [x]) rest)

theorem firstFault?_append (fault? : List α → α → Option γ) (before xs ys : List α) :
    firstFault? fault? before (xs ++ ys) =
      (firstFault? fault? before xs).or (firstFault? fault? (before ++ xs) ys) := by
  induction xs generalizing before with
  | nil => simp [firstFault?]
  | cons x rest ih => simp [firstFault?, ih, Option.or_assoc]

theorem firstFault?_const (fault? : α → Option γ) (before xs : List α) :
    firstFault? (fun _ => fault?) before xs = xs.findSome? fault? := by
  induction xs generalizing before with
  | nil => rfl
  | cons x rest ih =>
    rw [firstFault?, ih, List.findSome?_cons]
    cases fault? x <;> rfl

theorem findSome?_congr {f g : α → Option γ} {xs : List α} (h : ∀ x ∈ xs, f x = g x) :
    xs.findSome? f = xs.findSome? g := by
  induction xs with
  | nil => rfl
  | cons x rest ih =>
    obtain ⟨hx,hrest⟩ := List.forall_mem_cons.mp h
    rw [List.findSome?_cons, List.findSome?_cons, hx, ih hrest]

theorem findSome?_flatMap (f : α → List β) (g : β → Option γ) (xs : List α) :
    (xs.flatMap f).findSome? g = xs.findSome? fun x => (f x).findSome? g := by
  induction xs with
  | nil => rfl
  | cons x rest ih =>
    rw [List.flatMap_cons, List.findSome?_append, ih, List.findSome?_cons]
    cases (f x).findSome? g <;> rfl

end Faults

/-- A line of a program: the name of its unit, and what scanning it comes to. -/
abbrev ScannedLine := String × Except Failure Command

/-- All lines that are not blank, in unit and source order. -/
def scanned (units : List CompilationUnit) : List ScannedLine :=
  units.flatMap fun unit => unit.outcomes.map (unit.name, ·)

def commandsIn (lines : List ScannedLine) : List Command := lines.filterMap (·.2.toOption)

/-- The name in a command of some kind. -/
def nameOf? (kind : Vm.Kind) (command : Command) : Option String := if command.kind = kind then command.name else none

/-- The functions that lines define, each with its unit. -/
def functionsIn (lines : List ScannedLine) : List (String × String) :=
  lines.filterMap fun line => (line.2.toOption.bind (nameOf? .function)).map (·, line.1)

def namesIn (lines : List ScannedLine) : List String := (functionsIn lines).map Prod.fst

def functionNames (units : List CompilationUnit) : List String := namesIn (scanned units)

def repeatFault? (before : List String) (name : String) : Option Failure :=
  if name ∈ before then some (.setup (.repeatedUnit name)) else none

/-- What is wrong with a line after others: it cannot be read or, if there are several units, it defines a function
that an earlier line has defined. -/
def lineFault? (several : Bool) (before : List ScannedLine) (line : ScannedLine) : Option Failure :=
  match line.2 with
  | .error failure => some failure
  | .ok command =>
    if several then
      (nameOf? .function command).bind fun name =>
        ((functionsIn before).lookup name).map fun owner => .link (.duplicate name owner line.1)
    else none

def callFault? (names : List String) (command : Command) : Option Failure :=
  (nameOf? .call command).bind fun name =>
    if name ∈ names then none else some (.link (.undefined name command.position))

def entryFault? (options : Options) (units : List CompilationUnit) : Option Failure :=
  if wantsBootstrap options units = true ∧ options.entry ∉ functionNames units then
    some (.link (.undefined options.entry none))
  else none

/-- The fault that a program is refused for: the first of the first kind that it has. -/
def verdict? (options : Options) (units : List CompilationUnit) : Option Failure :=
  let several : Bool := 1 < units.length
  List.findSome? id
    [if units = [] then some (.setup .noUnits) else none,
     firstFault? repeatFault? [] (units.map (·.name)),
     firstFault? (lineFault? several) [] (scanned units),
     (commandsIn (scanned units)).findSome? Command.accessFault?,
     if several && options.isStrict then (commandsIn (scanned units)).findSome? (callFault? (functionNames units))
     else none,
     if several && options.isStrict then entryFault? options units else none]

/-- What a program has to be like to be compiled. -/
structure Accepted (options : Options) (units : List CompilationUnit) : Prop where
  nonempty : units ≠ []
  unitNames : (units.map (·.name)).Nodup
  readable : ∀ unit ∈ units, ∃ commands, unit.commands = .ok commands
  accesses : ∀ command ∈ commandsIn (scanned units), command.IsAdmissible
  functions : 1 < units.length → (functionNames units).Nodup
  calls : 1 < units.length → options.isStrict = true → ∀ command ∈ commandsIn (scanned units), ∀ name,
    nameOf? .call command = some name → name ∈ functionNames units
  entry : 1 < units.length → options.isStrict = true → wantsBootstrap options units = true →
    options.entry ∈ functionNames units

/-- Every numeral in the source of a unit is shorter than the longest that can be read. -/
def CompilationUnit.HasShortIndices (unit : CompilationUnit) : Prop :=
  ∀ line ∈ Vm.sourceLines unit.source unit.file, line.hasShortIndex = true

instance (unit : CompilationUnit) : Decidable unit.HasShortIndices := List.decidableBAll _ _

theorem firstRepeated_eq {seen before : List String} (h : ∀ name, name ∈ seen ↔ name ∈ before) (names : List String) :
    (firstRepeated seen names).map (fun name => .setup (.repeatedUnit name)) =
      firstFault? repeatFault? before names := by
  induction names generalizing seen before with
  | nil => rfl
  | cons name rest ih =>
    rw [firstRepeated, firstFault?, repeatFault?]
    by_cases hm : name ∈ before
    · have hs : seen.contains name = true := List.contains_iff_mem.mpr ((h name).mpr hm)
      rw [if_pos hs, if_pos hm]
      rfl
    · have hs : ¬seen.contains name = true := fun hc => hm ((h name).mp (List.contains_iff_mem.mp hc))
      rw [if_neg hs, if_neg hm, Option.none_or]
      apply ih
      intro other
      simp [h other, or_comm]

theorem firstFault?_repeatFault {before : List String} (hb : before.Nodup) (names : List String) :
    firstFault? repeatFault? before names = none ↔ (before ++ names).Nodup := by
  induction names generalizing before with
  | nil => simpa [firstFault?] using hb
  | cons name rest ih =>
    rw [firstFault?, Option.or_eq_none_iff, List.append_cons before name rest]
    have hstep : repeatFault? before name = none ↔ (before ++ [name]).Nodup := by
      rw [← List.concat_eq_append, List.nodup_concat]
      simp [repeatFault?, hb]
    rw [hstep]
    constructor
    · rintro ⟨hn,hr⟩
      exact (ih hn).mp hr
    · intro hr
      have hn := hr.sublist (List.sublist_append_left _ _)
      exact ⟨hn,(ih hn).mpr hr⟩

theorem lookup_eq_none {entries : List (String × String)} {name : String} :
    entries.lookup name = none ↔ name ∉ entries.map Prod.fst := by
  rw [List.lookup_eq_none_iff]
  simp only [bne_iff_ne, ne_eq, List.mem_map, not_exists, not_and]
  exact ⟨fun h entry hm he => h entry hm he.symm,fun h entry hm he => h entry hm he.symm⟩

theorem functionsIn_concat (before : List ScannedLine) (unit : String) (command : Command) :
    functionsIn (before ++ [(unit, .ok command)]) =
      functionsIn before ++ ((nameOf? .function command).map (·, unit)).toList := by
  rw [functionsIn, List.filterMap_append]
  cases hd : nameOf? .function command <;> simp [functionsIn, Except.toOption, hd]

theorem lineFault?_definition {command : Command} {name : String} (hd : nameOf? .function command = some name)
    (before : List ScannedLine) (unit : String) : lineFault? true before (unit, .ok command) =
      ((functionsIn before).lookup name).map fun owner => .link (.duplicate name owner unit) := by
  simp [lineFault?, hd]

theorem lineFault?_eq_none {several : Bool} {before : List ScannedLine} (hb : several = true → (namesIn before).Nodup)
    (unit : String) (command : Command) : lineFault? several before (unit, .ok command) = none ↔
      (several = true → (namesIn (before ++ [(unit, .ok command)])).Nodup) := by
  cases several with
  | false => simp [lineFault?]
  | true =>
    have hb : ((functionsIn before).map Prod.fst).Nodup := hb rfl
    rw [namesIn, functionsIn_concat, List.map_append]
    cases hd : nameOf? .function command with
    | none => simp [lineFault?, hd, hb]
    | some name =>
      have hn := List.nodup_concat ((functionsIn before).map Prod.fst) name
      rw [and_iff_left hb, List.concat_eq_append] at hn
      rw [lineFault?_definition hd, Option.map_eq_none_iff, lookup_eq_none]
      simpa using hn.symm

/-- No line has a fault if all can be read and, where it matters, define different functions. -/
theorem firstFault?_lineFault {several : Bool} {before : List ScannedLine}
    (hb : several = true → (namesIn before).Nodup) (lines : List ScannedLine) :
    firstFault? (lineFault? several) before lines = none ↔
      (∀ line ∈ lines, ∃ command, line.2 = .ok command) ∧ (several = true → (namesIn (before ++ lines)).Nodup) := by
  induction lines generalizing before with
  | nil => simpa [firstFault?] using hb
  | cons line rest ih =>
    obtain ⟨unit,outcome⟩ := line
    rw [firstFault?, Option.or_eq_none_iff, List.forall_mem_cons, List.append_cons before (unit, outcome) rest]
    cases outcome with
    | error failure => simp [lineFault?]
    | ok command =>
      rw [lineFault?_eq_none hb]
      constructor
      · rintro ⟨hn,hr⟩
        obtain ⟨hall,hr⟩ := (ih hn).mp hr
        exact ⟨⟨⟨command,rfl⟩,hall⟩,hr⟩
      · rintro ⟨⟨-,hall⟩,hr⟩
        have hn : several = true → (namesIn (before ++ [(unit, .ok command)])).Nodup := by
          intro hs
          have hr := hr hs
          rw [namesIn, functionsIn, List.filterMap_append, List.map_append] at hr
          exact hr.sublist (List.sublist_append_left _ _)
        exact ⟨hn,(ih hn).mpr ⟨hall,hr⟩⟩

theorem CompilationUnit.HasShortIndices.exists_line {unit : CompilationUnit} (h : unit.HasShortIndices)
    {outcome : Except Failure Command} (hm : outcome ∈ unit.outcomes) :
    ∃ line : Vm.Line, line.hasShortIndex = true ∧ ∃ head arguments, line.words = head :: arguments ∧
      line.commandFrom head arguments = outcome := by
  obtain ⟨line,hline,hl⟩ := List.mem_filterMap.mp hm
  exact ⟨line,h line hline,Vm.Line.exists_of_command? hl⟩

/-- A short index leaves room for the words of a frame. -/
theorem CompilationUnit.HasShortIndices.isOverlongCommand_eq {unit : CompilationUnit} (h : unit.HasShortIndices)
    {command : Command} (hm : .ok command ∈ unit.outcomes) : isOverlongCommand command = false := by
  obtain ⟨line,hs,head,arguments,hw,hc⟩ := h.exists_line hm
  unfold isOverlongCommand
  cases hi : command.instruction with
  | error failure => rfl
  | ok instruction =>
    cases instruction with
    | call name count =>
      obtain ⟨number,rfl,hshort⟩ := Vm.Line.isShort_of_commandFrom hs hw hc (Vm.Command.second_of_call hi)
      have hframe : Text.isPrintableInteger (number + frameWords) = true := hshort.isPrintableInteger_add (by decide)
      simp [Except.toOption, isOverlong, hframe]
    | _ => rfl

/-- A registry that is being filled holds the functions of the lines gone through. -/
structure Registered (registry : Registry) (lines : List ScannedLine) : Prop where
  frozen : registry.frozen = false
  entries : registry.entries = functionsIn lines

theorem Registered.lookup {registry : Registry} {lines : List ScannedLine} (h : Registered registry lines)
    (name : String) : registry.lookup name = (functionsIn lines).lookup name := by
  rw [Registry.lookup, h.entries]

theorem put_of_lookup {entries : List (String × String)} {name : String} (h : entries.lookup name = none)
    (unit : String) : Registry.put name unit entries = entries ++ [(name, unit)] := by
  induction entries with
  | nil => rfl
  | cons entry rest ih =>
    rw [lookup_eq_none, List.map_cons, List.mem_cons, not_or] at h
    rw [Registry.put, if_neg (Ne.symm h.1), ih (lookup_eq_none.mpr h.2), List.cons_append]

theorem Registered.enter {registry : Registry} {before : List ScannedLine} (h : Registered registry before)
    {unit name : String} (hn : (functionsIn before).lookup name = none) {command : Command}
    (hd : nameOf? .function command = some name) :
    ∃ next, addFunction unit name registry = .ok next ∧
      Registered next (before ++ [(unit, .ok command)]) := by
  have hadd : addFunction unit name registry =
      .ok { registry with entries := Registry.put name unit registry.entries } := by
    rw [addFunction, h.lookup, hn, Registry.add, h.frozen]
    rfl
  refine ⟨_,hadd,h.frozen,?_⟩
  rw [functionsIn_concat, hd, ← h.entries]
  exact put_of_lookup (h.entries ▸ hn) unit

/-- What surveying one line comes to: its fault, or a registry that holds its function too. -/
theorem Registered.survey_line {registry : Registry} {before : List ScannedLine} (h : Registered registry before)
    (unit : String) {outcome : Except Failure Command} (hf : ∀ command, outcome = .ok command → command.IsFormed) :
    (∃ failure, outcome.bind (addCommand unit registry) = .error failure ∧
        lineFault? true before (unit, outcome) = some failure) ∨
      ∃ next, outcome.bind (addCommand unit registry) = .ok next ∧ lineFault? true before (unit, outcome) = none ∧
        Registered next (before ++ [(unit, outcome)]) := by
  cases outcome with
  | error failure => exact .inl ⟨failure,rfl,rfl⟩
  | ok command =>
    change (∃ failure, addCommand unit registry command = .error failure ∧ _) ∨
      ∃ next, addCommand unit registry command = .ok next ∧ _
    by_cases hk : command.kind = .function
    · obtain ⟨name,hn⟩ := (hf command rfl).name (by simp [hk])
      have hd : nameOf? .function command = some name := (if_pos hk).trans (Vm.Command.name_of_first hn)
      have hadd : addCommand unit registry command = addFunction unit name registry := by
        rw [addCommand, if_pos hk, hn]
        rfl
      rw [hadd, lineFault?_definition hd]
      cases hl : (functionsIn before).lookup name with
      | some owner =>
        refine .inl ⟨_,?_,rfl⟩
        rw [addFunction, h.lookup, hl]
      | none =>
        obtain ⟨next,hnext,hr⟩ := h.enter hl hd
        exact .inr ⟨next,hnext,rfl,hr⟩
    · have hd : nameOf? .function command = none := if_neg hk
      refine .inr ⟨registry,?_,by simp [lineFault?, hd],h.frozen,?_⟩
      · rw [addCommand, if_neg hk]
        rfl
      · rw [functionsIn_concat, hd, h.entries]
        exact (List.append_nil _).symm

theorem surveyOutcomes_spec {registry : Registry} {before : List ScannedLine} (h : Registered registry before)
    (unit : String) {outcomes : List (Except Failure Command)}
    (hf : ∀ command, .ok command ∈ outcomes → command.IsFormed) :
    failure? (surveyOutcomes unit registry outcomes).2 =
        firstFault? (lineFault? true) before (outcomes.map (unit, ·)) ∧
      ((surveyOutcomes unit registry outcomes).2 = .ok () →
        Registered (surveyOutcomes unit registry outcomes).1 (before ++ outcomes.map (unit, ·))) := by
  induction outcomes generalizing registry before with
  | nil => exact ⟨rfl,fun _ => (List.append_nil before).symm ▸ h⟩
  | cons outcome rest ih =>
    have hfirst : ∀ command, outcome = .ok command → command.IsFormed := by
      rintro command rfl
      exact hf command List.mem_cons_self
    rw [List.map_cons, firstFault?, List.append_cons before (unit, outcome) (rest.map (unit, ·))]
    rcases h.survey_line unit hfirst with ⟨failure,hs,hl⟩ | ⟨next,hs,hl,hr⟩
    · rw [surveyOutcomes, hs, hl]
      exact ⟨rfl,nofun⟩
    · rw [surveyOutcomes, hs, hl, Option.none_or]
      exact ih hr fun command hm => hf command (List.mem_cons_of_mem outcome hm)

theorem surveyFrom_spec {registry : Registry} {before : List ScannedLine} (h : Registered registry before)
    (units : List CompilationUnit) :
    failure? (surveyFrom registry units).2 = firstFault? (lineFault? true) before (scanned units) ∧
      ((surveyFrom registry units).2 = .ok () →
        Registered (surveyFrom registry units).1 (before ++ scanned units)) := by
  induction units generalizing registry before with
  | nil => exact ⟨rfl,fun _ => (List.append_nil before).symm ▸ h⟩
  | cons unit rest ih =>
    obtain ⟨hfault,hr⟩ := surveyOutcomes_spec h unit.name fun command => isFormed_of_mem_outcomes
    have hscanned : scanned (unit :: rest) = unit.outcomes.map (unit.name, ·) ++ scanned rest := rfl
    rw [hscanned, firstFault?_append, ← List.append_assoc, ← hfault, surveyFrom, surveyUnit]
    generalize surveyOutcomes unit.name registry unit.outcomes = surveyed at hr
    obtain ⟨next,outcome⟩ := surveyed
    cases outcome with
    | error failure => exact ⟨rfl,nofun⟩
    | ok done => exact ih (hr rfl)

theorem survey_spec (units : List CompilationUnit) :
    failure? (survey units) = firstFault? (lineFault? true) [] (scanned units) ∧
      ∀ registry, survey units = .ok registry → registry = ⟨functionsIn (scanned units), true⟩ := by
  have hstart : Registered {} [] := ⟨rfl,rfl⟩
  obtain ⟨hfault,hr⟩ := surveyFrom_spec hstart units
  rw [← hfault, survey]
  generalize surveyFrom {} units = surveyed at hr
  obtain ⟨registry,outcome⟩ := surveyed
  cases outcome with
  | error failure => exact ⟨rfl,nofun⟩
  | ok done =>
    refine ⟨rfl,?_⟩
    rintro _ ⟨⟩
    rw [Registry.freeze, (hr rfl).entries, List.nil_append]

theorem contains_of_survey {units : List CompilationUnit} {registry : Registry} (h : survey units = .ok registry)
    (name : String) : registry.contains name = true ↔ name ∈ functionNames units := by
  rw [(survey_spec units).2 registry h, Registry.contains, Registry.lookup, Option.isSome_iff_ne_none, Ne,
    lookup_eq_none, not_not]
  rfl

theorem mem_commandsIn {units : List CompilationUnit} {command : Command} :
    command ∈ commandsIn (scanned units) ↔ ∃ unit ∈ units, .ok command ∈ unit.outcomes := by
  simp only [commandsIn, scanned, List.mem_filterMap, List.mem_flatMap, List.mem_map, Outcome.toOption_eq_some]
  constructor
  · rintro ⟨_,⟨unit,hu,outcome,ho,rfl⟩,rfl⟩
    exact ⟨unit,hu,ho⟩
  · rintro ⟨unit,hu,ho⟩
    exact ⟨_,⟨unit,hu,_,ho,rfl⟩,rfl⟩

theorem commandsIn_scanned {parsed : List (CompilationUnit × List Command)}
    (h : ∀ entry ∈ parsed, entry.1.commands = .ok entry.2) :
    commandsIn (scanned (parsed.map Prod.fst)) = parsed.flatMap Prod.snd := by
  induction parsed with
  | nil => rfl
  | cons entry rest ih =>
    obtain ⟨hentry,hrest⟩ := List.forall_mem_cons.mp h
    have ho : entry.1.outcomes = entry.2.map .ok := (List.map_id _).symm.trans (Outcome.mapM_eq_ok.mp hentry)
    have hfirst : commandsIn (entry.1.outcomes.map (entry.1.name, ·)) = entry.2 := by
      rw [ho, commandsIn, List.map_map, List.filterMap_map]
      exact List.filterMap_some
    rw [List.flatMap_cons, ← ih hrest, ← hfirst]
    exact List.filterMap_append

theorem exists_parsed {units : List CompilationUnit} (h : ∀ unit ∈ units, ∃ commands, unit.commands = .ok commands) :
    ∃ parsed, units.mapM (fun unit => return (unit, ← unit.commands)) = .ok parsed := by
  apply Outcome.exists_mapM
  intro unit hu
  obtain ⟨commands,hc⟩ := h unit hu
  exact ⟨(unit, commands),Outcome.bind_eq_ok.mpr ⟨commands,hc,rfl⟩⟩

theorem failure?_commands (unit : CompilationUnit) :
    failure? unit.commands = unit.outcomes.findSome? failure? := Outcome.failure?_mapM id unit.outcomes

theorem failure?_checkAccesses {commands : List Command} (hf : ∀ command ∈ commands, command.IsFormed) :
    failure? (Vm.checkAccesses commands) = commands.findSome? Command.accessFault? := by
  rw [Vm.checkAccesses, Outcome.failure?_forM]
  exact findSome?_congr fun command hm => (hf command hm).failure?_checkAccess

theorem firstFault?_scanned (several : Bool) (units : List CompilationUnit) :
    firstFault? (lineFault? several) [] (scanned units) = none ↔
      (∀ unit ∈ units, ∃ commands, unit.commands = .ok commands) ∧
        (several = true → (functionNames units).Nodup) := by
  rw [firstFault?_lineFault fun _ => by simp [namesIn, functionsIn], List.nil_append, functionNames]
  refine and_congr_left fun _ => ?_
  simp only [← Outcome.failure?_eq_none, failure?_commands, List.findSome?_eq_none_iff]
  constructor
  · intro h unit hu outcome ho
    exact h _ (List.mem_flatMap.mpr ⟨unit,hu,List.mem_map_of_mem ho⟩)
  · intro h line hl
    obtain ⟨unit,hu,hl⟩ := List.mem_flatMap.mp hl
    obtain ⟨outcome,ho,rfl⟩ := List.mem_map.mp hl
    exact h unit hu outcome ho

section Links

variable {registry : Registry} {names : List String}

/-- What is wrong with a call that has been collected. -/
def undefinedFault? (names : List String) (call : Call) : Option Failure :=
  if call.name ∈ names then none else some (.link call.error)

/-- The undefined call that is told first is the first one. -/
theorem head?_undefinedCalls (hr : ∀ name, registry.contains name = true ↔ name ∈ names) (calls : List Call) :
    ((Link.undefinedCalls registry [] calls).map Call.error).head?.map Failure.link =
      calls.findSome? (undefinedFault? names) := by
  induction calls with
  | nil => rfl
  | cons call rest ih =>
    rw [Link.undefinedCalls, List.findSome?_cons, undefinedFault?]
    by_cases hc : call.name ∈ names
    · simp only [(hr call.name).mpr hc, hc, Bool.true_or, if_true]
      exact ih
    · have hn : registry.contains call.name = false := by simpa using mt (hr call.name).mp hc
      simp [hn, hc]

theorem hasArguments_of_isFormed {command : Command} (hf : command.IsFormed) : Link.HasArguments command := by
  constructor
  · intro hk
    obtain ⟨name,hn⟩ := hf.name (by rintro he; simp [he] at hk)
    rw [Vm.Command.name_of_first hn, Option.isSome_some]
  · intro hk
    obtain ⟨index,hi,-⟩ := hf.index (by rw [hk]; rfl)
    rw [Vm.Command.index_of_second hi, Option.isSome_some]

theorem callOf?_bind {command : Command} (hf : command.IsFormed) (unit : String) :
    (Link.callOf? unit command).bind (undefinedFault? names) = callFault? names command := by
  by_cases hk : command.kind = .call
  · obtain ⟨name,hn,-⟩ := (hasArguments_of_isFormed hf).exists_first (by simp [hk])
    obtain ⟨index,hi⟩ := Option.isSome_iff_exists.mp ((hasArguments_of_isFormed hf).2 hk)
    rw [Link.callOf?, callFault?, nameOf?, if_pos hk, if_pos hk, hn, hi]
    rfl
  · rw [Link.callOf?, callFault?, nameOf?, if_neg hk, if_neg hk]
    rfl

/-- The calls of complete commands are collected, and what is wrong with the first of them is found. -/
theorem exists_callsIn {parsed : List (CompilationUnit × List Command)}
    (hf : ∀ entry ∈ parsed, ∀ command ∈ entry.2, command.IsFormed) :
    ∃ calls, Link.callsIn (parsed.map fun (unit, commands) => (unit.name, commands)) = .ok calls ∧
      calls.findSome? (undefinedFault? names) = (parsed.flatMap Prod.snd).findSome? (callFault? names) := by
  refine ⟨_,Link.callsIn_eq ?_,?_⟩
  · intro _ hm command hc
    obtain ⟨entry,he,rfl⟩ := List.mem_map.mp hm
    exact hasArguments_of_isFormed (hf entry he command hc)
  · rw [Link.callSites, findSome?_flatMap, findSome?_flatMap, List.findSome?_map]
    refine findSome?_congr fun entry he => ?_
    change (entry.2.filterMap (Link.callOf? entry.1.name)).findSome? _ = _
    rw [← List.head?_filterMap, List.filterMap_filterMap, List.head?_filterMap]
    exact findSome?_congr fun command hm => callOf?_bind (hf entry he command hm) entry.1.name

theorem failure?_entry {units : List CompilationUnit}
    (hr : ∀ name, registry.contains name = true ↔ name ∈ functionNames units) (options : Options) :
    failure? (if wantsBootstrap options units then entryWarnings options registry else .ok []) =
      if options.isStrict then entryFault? options units else none := by
  unfold entryFault? entryWarnings
  by_cases hc : options.entry ∈ functionNames units
  · rw [if_pos ((hr _).mpr hc)]
    cases wantsBootstrap options units <;> simp [hc, failure?]
  · rw [if_neg fun h => hc ((hr _).mp h)]
    cases wantsBootstrap options units <;> cases options.isStrict <;> simp [hc, failure?]

end Links

theorem exists_labelWarnings {commands : List Command} (hf : ∀ command ∈ commands, command.IsFormed) (options : Options)
    (unit : String) : ∃ warnings, labelWarnings options unit commands = .ok warnings := by
  unfold labelWarnings
  split
  next => exact ⟨_,Link.checkLabels_eq unit fun command hm => hasArguments_of_isFormed (hf command hm)⟩
  next => exact ⟨[],rfl⟩

theorem findSome?_id_cons {α : Type} (x : Option α) (xs : List (Option α)) :
    (x :: xs).findSome? id = x.or (xs.findSome? id) := by
  cases x <;> rfl

theorem failure?_prepareOne (unit : CompilationUnit) (options : Options) :
    failure? (prepareOne options unit) = List.findSome? id
      [firstFault? (lineFault? false) [] (scanned [unit]),
       (commandsIn (scanned [unit])).findSome? Command.accessFault?] := by
  have hlines : firstFault? (lineFault? false) [] (scanned [unit]) = failure? unit.commands := by
    have hconst : lineFault? false = fun _ line => failure? line.2 := by
      funext before line
      obtain ⟨unit,outcome⟩ := line
      cases outcome <;> rfl
    have hscanned : scanned [unit] = unit.outcomes.map (unit.name, ·) := by simp [scanned]
    rw [hconst, firstFault?_const, failure?_commands, hscanned, List.findSome?_map]
    rfl
  rw [hlines, findSome?_id_cons, findSome?_id_cons]
  cases hc : unit.commands with
  | error failure =>
    rw [prepareOne, hc]
    rfl
  | ok commands =>
    have hf := isFormed_of_commands hc
    have hlist : commandsIn (scanned [unit]) = commands := by
      simpa using @commandsIn_scanned [(unit, commands)] (by simpa using hc)
    obtain ⟨warnings,hw⟩ := exists_labelWarnings hf options unit.name
    rw [hlist, ← failure?_checkAccesses hf, prepareOne, hc]
    change failure? (Vm.checkAccesses commands >>= fun _ => labelWarnings options unit.name commands >>= fun _ => _) = _
    rw [Outcome.failure?_seq, hw]
    rfl

/-- The checks of a program whose units have been surveyed and read. -/
theorem prepareMany_eq {units : List CompilationUnit} {options : Options} {registry : Registry}
    {parsed : List (CompilationUnit × List Command)} {errors : List LinkError} {warnings : List String}
    (hs : survey units = .ok registry) (hp : units.mapM (fun unit => return (unit, ← unit.commands)) = .ok parsed)
    (hc : Link.checkCalls (parsed.map fun (unit, commands) => (unit.name, commands)) registry options.isStrict =
      .ok (errors, warnings)) :
    prepareMany options units = (do
      parsed.forM fun entry => Vm.checkAccesses entry.2
      match errors.head? with
      | some error => .error (.link error)
      | none => do
        let entry ← (if wantsBootstrap options units then entryWarnings options registry else .ok [])
        let labels ← parsed.mapM fun (unit, commands) => labelWarnings options unit.name commands
        return ⟨parsed, registry, wantsBootstrap options units, warnings ++ entry ++ labels.flatten⟩) := by
  rw [prepareMany, hs]
  change (List.mapM (fun unit => return (unit, ← unit.commands)) units >>= _) = _
  rw [hp]
  change ((parsed.forM fun entry => Vm.checkAccesses entry.2) >>= _) = _
  rw [hc]
  refine bind_congr fun _ => ?_
  cases errors with
  | cons error rest => rfl
  | nil => cases wantsBootstrap options units <;> rfl

/-- What the rest of the checks finds in a program that has been surveyed. -/
theorem failure?_surveyed {parsed : List (CompilationUnit × List Command)} {registry : Registry}
    (hs : survey (parsed.map Prod.fst) = .ok registry)
    (hp : (parsed.map Prod.fst).mapM (fun unit => return (unit, ← unit.commands)) = .ok parsed)
    (hf : ∀ entry ∈ parsed, ∀ command ∈ entry.2, command.IsFormed)
    (hr : ∀ name, registry.contains name = true ↔ name ∈ functionNames (parsed.map Prod.fst)) (options : Options) :
    failure? (prepareMany options (parsed.map Prod.fst)) = List.findSome? id
      [(parsed.flatMap Prod.snd).findSome? Command.accessFault?,
       if options.isStrict then
         (parsed.flatMap Prod.snd).findSome? (callFault? (functionNames (parsed.map Prod.fst)))
       else none,
       if options.isStrict then entryFault? options (parsed.map Prod.fst) else none] := by
  obtain ⟨calls,hcalls,hundefined⟩ := @exists_callsIn (functionNames (parsed.map Prod.fst)) parsed hf
  have hcheck : Link.checkCalls (parsed.map fun (unit, commands) => (unit.name, commands)) registry options.isStrict =
      .ok (if options.isStrict then (Link.undefinedCalls registry [] calls).map Call.error else [],
        if options.isStrict then [] else (Link.undefinedCalls registry [] calls).map Call.warning) := by
    refine Outcome.bind_eq_ok.mpr ⟨calls,hcalls,?_⟩
    cases options.isStrict <;> rfl
  have haccess : failure? (parsed.forM fun entry => Vm.checkAccesses entry.2) =
      (parsed.flatMap Prod.snd).findSome? Command.accessFault? := by
    rw [Outcome.failure?_forM, findSome?_flatMap]
    exact findSome?_congr fun entry he => failure?_checkAccesses (hf entry he)
  have hentry : ∀ warnings : List String, failure? (do
      let entry ← (if wantsBootstrap options (parsed.map Prod.fst) then entryWarnings options registry else .ok [])
      let labels ← parsed.mapM fun (unit, commands) => labelWarnings options unit.name commands
      return (⟨parsed, registry, wantsBootstrap options (parsed.map Prod.fst),
        warnings ++ entry ++ labels.flatten⟩ : Plan)) =
      if options.isStrict then entryFault? options (parsed.map Prod.fst) else none := by
    intro warnings
    rw [Outcome.failure?_bind_total, failure?_entry hr]
    intro entry
    obtain ⟨labels,hl⟩ := Outcome.exists_mapM fun entry he =>
      exists_labelWarnings (hf entry he) options entry.1.name
    exact ⟨_,Outcome.bind_eq_ok.mpr ⟨labels,hl,rfl⟩⟩
  have hhead := (head?_undefinedCalls hr calls).trans hundefined
  rw [prepareMany_eq hs hp hcheck, Outcome.failure?_seq, haccess, findSome?_id_cons, findSome?_id_cons,
    findSome?_id_cons, List.findSome?_nil, Option.or_none, ← hhead]
  refine congrArg (Option.or _) ?_
  cases hstrict : options.isStrict with
  | false =>
    rw [hstrict] at hentry
    exact hentry _
  | true =>
    rw [hstrict] at hentry
    simp only [if_true]
    cases ((Link.undefinedCalls registry [] calls).map Call.error).head? with
    | some error => rfl
    | none => exact hentry _

theorem failure?_prepareMany (units : List CompilationUnit) (options : Options) :
    failure? (prepareMany options units) = List.findSome? id
      [firstFault? (lineFault? true) [] (scanned units),
       (commandsIn (scanned units)).findSome? Command.accessFault?,
       if options.isStrict then (commandsIn (scanned units)).findSome? (callFault? (functionNames units)) else none,
       if options.isStrict then entryFault? options units else none] := by
  obtain ⟨hlines,-⟩ := survey_spec units
  rw [findSome?_id_cons, ← hlines]
  cases hsurvey : survey units with
  | error failure =>
    rw [prepareMany, hsurvey]
    rfl
  | ok registry =>
    have hnone : firstFault? (lineFault? true) [] (scanned units) = none := by
      rw [← hlines, hsurvey]
      rfl
    obtain ⟨hread,-⟩ := (firstFault?_scanned true units).mp hnone
    obtain ⟨parsed,hp⟩ := exists_parsed hread
    obtain ⟨rfl,hc⟩ := parsed_of_mapM hp
    have hf : ∀ entry ∈ parsed, ∀ command ∈ entry.2, command.IsFormed :=
      fun entry he => isFormed_of_commands (hc entry he)
    rw [commandsIn_scanned hc]
    exact failure?_surveyed hsurvey hp hf (contains_of_survey hsurvey) options

/-- The checks stop at the fault that the verdict names. -/
theorem failure?_prepare (units : List CompilationUnit) (options : Options) :
    failure? (prepare options units) = verdict? options units := by
  have hnames := @firstRepeated_eq [] [] (fun _ => Iff.rfl) (units.map (·.name))
  cases units with
  | nil => rfl
  | cons unit rest =>
    rw [verdict?, findSome?_id_cons, if_neg (List.cons_ne_nil unit rest), Option.none_or, findSome?_id_cons, ← hnames]
    unfold prepare
    cases firstRepeated [] ((unit :: rest).map (·.name)) with
    | some name => rfl
    | none =>
      rw [Option.map_none, Option.none_or]
      cases rest with
      | nil =>
        have hone : decide (1 < [unit].length) = false := rfl
        have hunit := failure?_prepareOne unit options
        simp only [hone, Bool.false_and, Bool.false_eq_true, if_false, findSome?_id_cons, List.findSome?_nil,
          Option.or_none] at hunit ⊢
        exact hunit
      | cons next others =>
        have hseveral : decide (1 < (unit :: next :: others).length) = true := by simp
        rw [hseveral]
        exact failure?_prepareMany _ options

theorem callFault?_eq_none {names : List String} {command : Command} :
    callFault? names command = none ↔ ∀ name, nameOf? .call command = some name → name ∈ names := by
  cases hn : nameOf? .call command <;> simp [callFault?, hn]

theorem verdict?_eq_none (units : List CompilationUnit) (options : Options) :
    verdict? options units = none ↔ Accepted options units := by
  have hf : ∀ command ∈ commandsIn (scanned units), command.IsFormed := by
    intro command hm
    obtain ⟨unit,hu,ho⟩ := mem_commandsIn.mp hm
    exact isFormed_of_mem_outcomes ho
  have haccess : (commandsIn (scanned units)).findSome? Command.accessFault? = none ↔
      ∀ command ∈ commandsIn (scanned units), command.IsAdmissible := by
    rw [List.findSome?_eq_none_iff]
    exact forall₂_congr fun command hm => (hf command hm).accessFault?_eq_none
  have hentry : entryFault? options units = none ↔
      (wantsBootstrap options units = true → options.entry ∈ functionNames units) := by
    simp [entryFault?]
  have hstrict : ∀ fault? : Option Failure, (if (decide (1 < units.length) && options.isStrict) = true then fault?
      else none) = none ↔ (1 < units.length → options.isStrict = true → fault? = none) := by
    intro fault?
    rw [ite_eq_right_iff, Bool.and_eq_true, decide_eq_true_eq, and_imp]
  rw [verdict?]
  simp only [findSome?_id_cons, List.findSome?_nil, Option.or_eq_none_iff, and_true, ite_eq_right_iff,
    reduceCtorEq, imp_false, firstFault?_repeatFault List.nodup_nil, List.nil_append, firstFault?_scanned,
    decide_eq_true_eq, haccess, hstrict, hentry, List.findSome?_eq_none_iff, callFault?_eq_none]
  constructor
  · rintro ⟨hnonempty,hnames,⟨hread,hfunctions⟩,hadmissible,hcalls,hentry⟩
    exact ⟨hnonempty,hnames,hread,hadmissible,hfunctions,hcalls,hentry⟩
  · rintro ⟨hnonempty,hnames,hread,hadmissible,hfunctions,hcalls,hentry⟩
    exact ⟨hnonempty,hnames,⟨hread,hfunctions⟩,hadmissible,hcalls,hentry⟩

/-- What has passed the checks is written to its end, unless the stack base is too long to print. -/
theorem emit_of_prepare {units : List CompilationUnit} (hs : ∀ unit ∈ units, unit.HasShortIndices) {options : Options}
    {plan : Plan} (h : prepare options units = .ok plan) : (plan.emit options).2 =
      if hasLongBase options units then .error (.numeral .tooLongToPrint) else .ok () := by
  obtain ⟨rfl,hc,-⟩ := units_of_prepare h
  have hshort : plan.isOverlong = false := by
    simp only [Plan.isOverlong, List.any_eq_false, Bool.not_eq_true]
    intro entry he command hm
    exact (hs entry.1 (List.mem_map_of_mem he)).isOverlongCommand_eq (mem_outcomes (hc entry he) hm)
  rw [(emit_ends_of_prepare h).outcome, hshort, Bool.or_false]

/-- How a program fares. -/
structure Judged (options : Options) (units : List CompilationUnit) : Prop where
  accepted : (∃ plan, prepare options units = .ok plan) ↔ Accepted options units
  refused : ∀ failure, prepare options units = .error failure ↔ verdict? options units = some failure
  /-- Once the checks have been passed, only the stack base of the bootstrap may be too long to be written. -/
  written : ∀ plan, prepare options units = .ok plan → (plan.emit options).2 =
    if hasLongBase options units then .error (.numeral .tooLongToPrint) else .ok ()
  compiled : (∃ result, compile options units = .ok result) ↔
    Accepted options units ∧ hasLongBase options units = false
  failed : ∀ failure, compile options units = .error failure ↔ verdict? options units = some failure ∨
    Accepted options units ∧ hasLongBase options units = true ∧ failure = .numeral .tooLongToPrint
  malformed : ∀ unit ∈ units, ∀ failure, .error failure ∈ unit.outcomes →
    ∃ fault position text, failure = .vm ⟨.malformed fault,some position,some text⟩

/-- A failure of compiling is the fault that the verdict names, or the stack base is too long to print. -/
theorem failure?_compile {units : List CompilationUnit} (hs : ∀ unit ∈ units, unit.HasShortIndices)
    (options : Options) : failure? (compile options units) =
      (verdict? options units).or (if hasLongBase options units then some (.numeral .tooLongToPrint) else none) := by
  rw [← failure?_prepare]
  cases hp : prepare options units with
  | error failure =>
    rw [compile, hp]
    rfl
  | ok plan =>
    rw [compile_of_prepare hp, emit_of_prepare hs hp]
    cases hasLongBase options units <;> rfl

/-- A program passes the checks if and only if it is accepted, and is refused for the first of its faults.  It is then
compiled, unless its stack base is too long to be printed.  Lines are refused as malformed only.  The numerals of the
program are within the limit for numerals. -/
theorem compiled_unless_at_fault (options : Options) (units : List CompilationUnit)
    (hs : ∀ unit ∈ units, unit.HasShortIndices) : Judged options units := by
  have hfault := failure?_compile hs options
  refine ⟨?_,?_,fun plan => emit_of_prepare hs,?_,?_,?_⟩
  · rw [← Outcome.failure?_eq_none, failure?_prepare, verdict?_eq_none]
  · intro failure
    rw [← Outcome.failure?_eq_some, failure?_prepare]
  · rw [← Outcome.failure?_eq_none, hfault, Option.or_eq_none_iff, verdict?_eq_none]
    cases hasLongBase options units <;> simp
  · intro failure
    rw [← Outcome.failure?_eq_some, hfault, Option.or_eq_some_iff, verdict?_eq_none]
    cases hasLongBase options units <;> simp [eq_comm]
  · intro unit hu failure hm
    obtain ⟨line,hline,head,arguments,hw,hc⟩ := (hs unit hu).exists_line hm
    obtain ⟨word,-,fault,rfl⟩ := Vm.Line.exists_fault_of_commandFrom hline hw hc
    exact ⟨fault,_,_,rfl⟩

/-- Two units that define the same function, besides a bad pop and an undefined call. -/
def faultyUnits : List CompilationUnit :=
  [.inMemory "A" "function f 0\nreturn", .inMemory "B" "pop constant 1\ncall g 0\nfunction f 0"]

/-- The least stack base that is too long to print. -/
def longBase : Options := { bootstrap := some true, stackBase := 10 ^ 4300 }

/-- A repeated function is found by the checks, and a stack base that is too long only after them. -/
theorem repeated_function_and_long_base_fail :
    (∀ unit ∈ faultyUnits, unit.HasShortIndices) ∧
      compile { isStrict := true } faultyUnits = .error (.link (.duplicate "f" "A" "B")) ∧
      ¬Accepted { isStrict := true } faultyUnits ∧
      (∀ unit ∈ [CompilationUnit.inMemory "Main" "add"], unit.HasShortIndices) ∧
      Accepted longBase [.inMemory "Main" "add"] ∧
      compile longBase [.inMemory "Main" "add"] = .error (.numeral .tooLongToPrint) := by
  have hfaulty : ∀ unit ∈ faultyUnits, unit.HasShortIndices := by decide
  have hmain : ∀ unit ∈ [CompilationUnit.inMemory "Main" "add"], unit.HasShortIndices := by decide
  have hrefused := compiled_unless_at_fault { isStrict := true } faultyUnits hfaulty
  have hwritten := compiled_unless_at_fault longBase [.inMemory "Main" "add"] hmain
  have hfault : compile { isStrict := true } faultyUnits = .error (.link (.duplicate "f" "A" "B")) :=
    (hrefused.failed _).mpr (.inl (by decide))
  have haccepted : Accepted longBase [.inMemory "Main" "add"] :=
    hwritten.accepted.mp (Outcome.failure?_eq_none.mp (by decide +kernel))
  refine ⟨hfaulty,hfault,fun ha => ?_,hmain,haccepted,?_⟩
  · obtain ⟨result,hr⟩ := hrefused.compiled.mpr ⟨ha,by decide +kernel⟩
    cases hfault.symm.trans hr
  · exact (hwritten.failed _).mpr (.inr ⟨haccepted,by decide +kernel,rfl⟩)

end HackToolchain.Compile
