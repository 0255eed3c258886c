import HackToolchain.Proofs.Acceptance
import HackToolchain.Proofs.Streaming

/-! # What the survey finds

The survey goes through the lines of all units and enters the functions that they define.  It comes to its end if all
lines can be read and no function is defined twice, and then the registry holds the functions of all units in order.
Otherwise it stops at the first line that is at fault.  A line is at fault by itself, or after the lines before it.
-/
namespace HackToolchain.Vm.Scanner

theorem lookAhead_lookAhead (scanner : Scanner) : scanner.lookAhead.lookAhead = scanner.lookAhead := by
  cases hp : scanner.pending with
  | some line => simp [lookAhead, hp]
  | none => cases hf : firstFull? scanner.upcoming <;> simp [lookAhead, hp, hf, firstFull?]

theorem advance_lookAhead (scanner : Scanner) : scanner.lookAhead.advance = scanner.advance := by
  rw [advance, lookAhead_lookAhead]
  rfl

end HackToolchain.Vm.Scanner

namespace HackToolchain.Compile

open Link (Registry)
open Outcome (FirstFails NoneFails failure?)
open Vm (Command Scanner)

section Streamed

/-- Looks for the next command, reads it, asks for the command last read, and enters it if it is a function. -/
def surveyNext (unit : String) (registry : Registry) (scanner : Scanner) : Except Failure Registry := do
  let read := scanner.lookAhead.advance
  let _ ← read.2
  addCommand unit registry (← read.1.current)

/-- Enters the functions of a unit while it is being read. -/
def surveyScanner (unit : String) (registry : Registry) (scanner : Scanner) : Registry × Except Failure Unit :=
  if _h : scanner.hasMore = true then
    match surveyNext unit registry scanner with
    | .ok registry => surveyScanner unit registry scanner.lookAhead.advance.1
    | .error failure => (registry, .error failure)
  else (registry, .ok ())
termination_by scanner.unread
decreasing_by
  rw [Scanner.advance_lookAhead]
  exact Scanner.unread_advance_lt _h

variable (unit : String) (registry : Registry) {scanner : Scanner}

theorem surveyNext_of_cons {outcome : Except Failure Command} {left : List (Except Failure Command)}
    (h : scanner.toCome = outcome :: left) :
    surveyNext unit registry scanner = outcome.bind (addCommand unit registry) := by
  obtain ⟨rfl,hwent⟩ := Scanner.advance_of_cons h
  rw [surveyNext, Scanner.advance_lookAhead]
  cases hread : scanner.advance.2 with
  | error failure => rfl
  | ok command =>
    have hcurrent : scanner.advance.1.current = .ok command := by
      rw [Scanner.current, hwent.current?, hread]
      rfl
    change (scanner.advance.1.current >>= addCommand unit registry) = _
    rw [hcurrent]
    rfl

/-- Reading a unit bit by bit comes to the same as having it read before. -/
theorem surveyScanner_eq (scanner : Scanner) :
    surveyScanner unit registry scanner = surveyOutcomes unit registry scanner.toCome := by
  induction ht : scanner.toCome generalizing registry scanner with
  | nil =>
    rw [surveyScanner, dif_neg (by simp [Scanner.hasMore_eq, ht])]
    rfl
  | cons outcome left ih =>
    have hleft : scanner.lookAhead.advance.1.toCome = left := by
      have htail := (Scanner.advance_of_cons ht).2.toCome
      rw [ht] at htail
      rw [Scanner.advance_lookAhead]
      exact (List.cons.inj htail).2.symm
    rw [surveyScanner, dif_pos (by simp [Scanner.hasMore_eq, ht]), surveyNext_of_cons unit registry ht, surveyOutcomes]
    cases outcome.bind (addCommand unit registry) with
    | error failure => rfl
    | ok next => exact ih next _ hleft

end Streamed

section Definitions

/-- The functions that the commands of units define, each with its unit, in unit and source order. -/
def definitions (parsed : List (CompilationUnit × List Command)) : List (String × String) :=
  parsed.flatMap fun entry => entry.2.filterMap fun command => (nameOf? .function command).map (·, entry.1.name)

/-- Units with the commands that reading each of them as a whole gives. -/
def IsParsed (units : List CompilationUnit) (parsed : List (CompilationUnit × List Command)) : Prop :=
  parsed.map Prod.fst = units ∧ ∀ entry ∈ parsed, Vm.parse entry.1.source entry.1.file = .ok entry.2

theorem functionsIn_scanned {parsed : List (CompilationUnit × List Command)}
    (h : ∀ entry ∈ parsed, entry.1.commands = .ok entry.2) :
    functionsIn (scanned (parsed.map Prod.fst)) = definitions parsed := by
  induction parsed with
  | nil => rfl
  | cons entry rest ih =>
    obtain ⟨hentry,hrest⟩ := List.forall_mem_cons.mp h
    have ho : entry.1.outcomes = entry.2.map .ok := (List.map_id _).symm.trans (Outcome.mapM_eq_ok.mp hentry)
    have hfirst : functionsIn (entry.1.outcomes.map (entry.1.name, ·)) =
        entry.2.filterMap fun command => (nameOf? .function command).map (·, entry.1.name) := by
      rw [ho, functionsIn, List.map_map, List.filterMap_map]
      rfl
    rw [definitions, List.flatMap_cons, ← hfirst]
    exact List.filterMap_append.trans (congrArg _ (ih hrest))

end Definitions

section Faults

/-- What is wrong with a line after the lines before it: it cannot be read, or it defines a function again. -/
inductive Offends (before : List ScannedLine) : ScannedLine → Failure → Prop
  | unreadable (unit : String) (failure : Failure) : Offends before (unit, .error failure) failure
  | again (unit : String) {command : Command} {name owner : String} (isFunction : command.kind = .function)
    (hasName : command.name = some name) (first : (functionsIn before).lookup name = some owner) :
    Offends before (unit, .ok command) (.link (.duplicate name owner unit))

theorem lineFault?_eq_some {before : List ScannedLine} {line : ScannedLine} {failure : Failure} :
    lineFault? true before line = some failure ↔ Offends before line failure := by
  obtain ⟨unit,outcome⟩ := line
  constructor
  · intro h
    cases outcome with
    | error found =>
      cases h
      exact .unreadable unit failure
    | ok command =>
      obtain ⟨name,hd,h⟩ := Option.bind_eq_some_iff.mp h
      obtain ⟨owner,hl,rfl⟩ := Option.map_eq_some_iff.mp h
      obtain ⟨hk,hn⟩ := Option.ite_none_right_eq_some.mp hd
      exact .again unit hk hn hl
  · intro h
    cases h with
    | unreadable => rfl
    | again _ hk hn hl => rw [lineFault?_definition ((if_pos hk).trans hn), hl, Option.map_some]

/-- The fault that is found is the one of the first element that fails. -/
theorem firstFault?_iff {α γ : Type} {fault? : List α → α → Option γ} {fails : List α → α → γ → Prop}
    (hf : ∀ before x failure, fault? before x = some failure ↔ fails before x failure) (xs : List α) :
    (firstFault? fault? [] xs = none ↔ NoneFails fails xs) ∧
      ∀ failure, firstFault? fault? [] xs = some failure ↔ ∃ x, FirstFails fails xs x failure := by
  induction xs using List.reverseRecOn with
  | nil =>
    refine ⟨iff_of_true rfl (Outcome.noneFails_nil fails),fun failure => iff_of_false ?_ ?_⟩
    · simp [firstFault?]
    · rintro ⟨x,before,after,h,-⟩
      simp at h
  | append_singleton xs x ih =>
    have hlast : firstFault? fault? [] (xs ++ [x]) = (firstFault? fault? [] xs).or (fault? xs x) := by
      simp [firstFault?_append, firstFault?]
    have hx : fault? xs x = none ↔ ∀ failure, ¬fails xs x failure := by
      simp only [← hf, Option.eq_none_iff_forall_ne_some, ne_eq]
    rw [hlast]
    refine ⟨?_,fun failure => ?_⟩
    · rw [Option.or_eq_none_iff, ih.1, hx, Outcome.noneFails_concat]
    · rw [Option.or_eq_some_iff, ih.2, ih.1, hf]
      simp only [Outcome.firstFails_concat, exists_or, exists_and_left, exists_eq_left]

end Faults

/-- What is found in a list of units. -/
structure FindsFunctions (units : List CompilationUnit) : Prop where
  /-- Entering functions while a unit is read comes to the same as having it read before. -/
  streamed : ∀ unit ∈ units, ∀ registry, surveyScanner unit.name registry (.ofSource unit.source unit.file) =
    surveyUnit registry unit
  returned : ∀ registry, survey units = .ok registry ↔ ∃ parsed, IsParsed units parsed ∧
    ((definitions parsed).map Prod.fst).Nodup ∧ registry = ⟨definitions parsed, true⟩
  owner : ∀ registry, survey units = .ok registry → ∀ name owner, registry.lookup name = some owner ↔
    (name, owner) ∈ registry.entries
  refused : ∀ failure, survey units = .error failure ↔ ∃ line, FirstFails Offends (scanned units) line failure

theorem survey_eq_error (units : List CompilationUnit) (failure : Failure) :
    survey units = .error failure ↔ ∃ line, FirstFails Offends (scanned units) line failure := by
  rw [← Outcome.failure?_eq_some, (survey_spec units).1]
  exact (firstFault?_iff (fun _ _ _ => lineFault?_eq_some) (scanned units)).2 failure

theorem survey_eq_ok (units : List CompilationUnit) (registry : Registry) :
    survey units = .ok registry ↔ ∃ parsed, IsParsed units parsed ∧ ((definitions parsed).map Prod.fst).Nodup ∧
      registry = ⟨definitions parsed, true⟩ := by
  obtain ⟨hfault,hentries⟩ := survey_spec units
  have hends : (∃ registry, survey units = .ok registry) ↔ (∀ unit ∈ units, ∃ commands, unit.commands = .ok commands) ∧
      (functionNames units).Nodup := by
    rw [← Outcome.failure?_eq_none, hfault, firstFault?_scanned true units]
    simp
  constructor
  · intro h
    obtain ⟨hread,hnodup⟩ := hends.mp ⟨registry,h⟩
    obtain ⟨parsed,hp⟩ := exists_parsed hread
    obtain ⟨rfl,hparsed⟩ := parsed_of_mapM hp
    rw [functionNames, namesIn, functionsIn_scanned hparsed] at hnodup
    refine ⟨parsed,⟨rfl,hparsed⟩,hnodup,?_⟩
    rw [hentries registry h, functionsIn_scanned hparsed]
  · rintro ⟨parsed,⟨rfl,hparsed⟩,hnodup,rfl⟩
    have hread : ∀ unit ∈ parsed.map Prod.fst, ∃ commands, unit.commands = .ok commands := by
      intro unit hu
      obtain ⟨entry,he,rfl⟩ := List.mem_map.mp hu
      exact ⟨entry.2,hparsed entry he⟩
    rw [← functionsIn_scanned hparsed] at hnodup ⊢
    obtain ⟨registry,h⟩ := hends.mpr ⟨hread,hnodup⟩
    rw [h, hentries registry h]

theorem lookup_eq_some {entries : List (String × String)} (h : (entries.map Prod.fst).Nodup) {name owner : String} :
    entries.lookup name = some owner ↔ (name, owner) ∈ entries := by
  induction entries with
  | nil => simp
  | cons entry rest ih =>
    obtain ⟨other,unit⟩ := entry
    rw [List.map_cons, List.nodup_cons] at h
    rw [List.lookup_cons, List.mem_cons, ← ih h.2]
    by_cases hn : name = other
    · subst hn
      have hlater : rest.lookup name = none := lookup_eq_none.mpr h.1
      simp [hlater, eq_comm]
    · have hother : (name == other) = false := beq_eq_false_iff_ne.mpr hn
      simp [hother, hn]

/-- The survey finds the functions of all units if every unit can be read and no function is defined twice.  Otherwise
it tells of the first line that cannot be read or defines a function again. -/
theorem survey_finds_functions (units : List CompilationUnit) : FindsFunctions units where
  streamed unit _ registry := surveyScanner_eq unit.name registry (.ofSource unit.source unit.file)
  returned := survey_eq_ok units
  owner registry h name owner := by
    obtain ⟨parsed,-,hnodup,rfl⟩ := (survey_eq_ok units registry).mp h
    exact lookup_eq_some hnodup
  refused := survey_eq_error units

end HackToolchain.Compile
