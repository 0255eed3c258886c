import Mathlib.Algebra.Ring.Int.Defs
import Mathlib.Data.List.ReduceOption
import Mathlib.Data.List.Sort
import HackToolchain.Proofs.Writing

/-! # What the checks across units tell

The check of calls tells every missing function once, at its first call, and the functions in the order of their first
calls.  The check of labels tells every jump whose target is no label of its unit.  Both are told here of commands that
have their arguments, from a source or not.
-/
namespace HackToolchain.Link

open Vm (Command Kind)

section Calls

/-- The first call of a function. -/
def firstCall? (calls : List Call) (name : String) : Option Call := calls.find? (·.name == name)

/-- Where in a list of calls a function is called first. -/
def firstSite (calls : List Call) (name : String) : Nat := calls.findIdx (·.name == name)

/-- All functions that are called and not known are told, once each, at their first calls and in the order of these. -/
structure Reports (known : String → Prop) (calls told : List Call) : Prop where
  names : ∀ name, name ∈ told.map Call.name ↔ name ∈ calls.map Call.name ∧ ¬known name
  sites : ∀ call ∈ told, firstCall? calls call.name = some call
  ordered : told.Pairwise fun call later => firstSite calls call.name < firstSite calls later.name

variable {known : String → Prop} {call : Call} {rest told : List Call}

theorem firstCall?_cons_of_ne {name : String} (h : name ≠ call.name) :
    firstCall? (call :: rest) name = firstCall? rest name :=
  List.find?_cons_of_neg (by simpa using h.symm)

theorem firstSite_cons_of_ne {name : String} (h : name ≠ call.name) :
    firstSite (call :: rest) name = firstSite rest name + 1 := by
  have hn : (call.name == name) = false := beq_eq_false_iff_ne.mpr h.symm
  simp [firstSite, List.findIdx_cons, hn]

theorem firstSite_cons_self : firstSite (call :: rest) call.name = 0 := by
  simp [firstSite, List.findIdx_cons]

theorem Reports.not_known (h : Reports known rest told) {later : Call} (hm : later ∈ told) : ¬known later.name :=
  ((h.names later.name).mp (List.mem_map_of_mem hm)).2

/-- Calls before which another function is called stay in their order. -/
theorem Reports.behind (h : Reports known rest told) (hk : known call.name) :
    (∀ later ∈ told, firstCall? (call :: rest) later.name = some later) ∧
      told.Pairwise fun later last => firstSite (call :: rest) later.name < firstSite (call :: rest) last.name := by
  have hne : ∀ later ∈ told, later.name ≠ call.name := by
    intro later hm he
    exact h.not_known hm (he ▸ hk)
  constructor
  · intro later hm
    rw [firstCall?_cons_of_ne (hne later hm), h.sites later hm]
  · refine h.ordered.imp_of_mem fun hm hl hlt => ?_
    rw [firstSite_cons_of_ne (hne _ hm), firstSite_cons_of_ne (hne _ hl)]
    exact Nat.succ_lt_succ hlt

theorem Reports.skip (h : Reports known rest told) (hk : known call.name) : Reports known (call :: rest) told := by
  obtain ⟨hsites,hordered⟩ := h.behind hk
  refine ⟨fun name => (h.names name).trans ?_,hsites,hordered⟩
  rw [List.map_cons, List.mem_cons]
  constructor
  · rintro ⟨hm,hn⟩
    exact ⟨.inr hm,hn⟩
  · rintro ⟨rfl | hm,hn⟩
    · exact absurd hk hn
    · exact ⟨hm,hn⟩

theorem Reports.tell {before : String → Prop} (h : Reports known rest told) (hk : ¬before call.name)
    (hknown : ∀ name, known name ↔ name = call.name ∨ before name) : Reports before (call :: rest) (call :: told) := by
  have hcall : known call.name := (hknown call.name).mpr (.inl rfl)
  obtain ⟨hsites,hordered⟩ := h.behind hcall
  refine ⟨?_,List.forall_mem_cons.mpr ⟨?_,hsites⟩,List.pairwise_cons.mpr ⟨?_,hordered⟩⟩
  · intro name
    rw [List.map_cons, List.map_cons, List.mem_cons, List.mem_cons, h.names, hknown]
    by_cases hn : name = call.name
    · simp [hn, hk]
    · simp [hn]
  · exact List.find?_cons_of_pos (by simp)
  · intro later hm
    have hne : later.name ≠ call.name := fun he => h.not_known hm (he ▸ hcall)
    rw [firstSite_cons_self, firstSite_cons_of_ne hne]
    exact Nat.succ_pos _

theorem reports_undefinedCalls (registry : Registry) (before : List String) (calls : List Call) :
    Reports (fun name => name ∈ before ∨ registry.contains name = true) calls
      (undefinedCalls registry before calls) := by
  induction calls generalizing before with
  | nil => exact ⟨by simp [undefinedCalls],by simp [undefinedCalls],List.Pairwise.nil⟩
  | cons call rest ih =>
    rw [undefinedCalls]
    split
    next hc =>
      apply (ih before).skip
      simpa [or_comm] using hc
    next hc =>
      apply (ih (call.name :: before)).tell
      · simpa [and_comm] using hc
      · simp [or_assoc]

theorem Reports.subset {calls other : List Call} (h : Reports known calls told) (ho : Reports known calls other)
    (hm : call ∈ told) : call ∈ other := by
  have hname := (h.names call.name).mp (List.mem_map_of_mem hm)
  obtain ⟨found,hf,he⟩ := List.mem_map.mp ((ho.names call.name).mpr hname)
  have hsite := ho.sites found hf
  rw [he, h.sites call hm] at hsite
  cases hsite
  exact hf

/-- There is only one way to tell what is missing. -/
theorem Reports.unique {calls other : List Call} (h : Reports known calls told) (ho : Reports known calls other) :
    other = told := by
  have hirrefl : Std.Irrefl fun call later : Call => firstSite calls call.name < firstSite calls later.name :=
    ⟨fun _ => Nat.lt_irrefl _⟩
  have hantisymm : Std.Antisymm fun call later : Call => firstSite calls call.name < firstSite calls later.name :=
    ⟨fun _ _ hlt hgt => absurd hlt (Nat.lt_asymm hgt)⟩
  exact ho.ordered.eq_of_mem_iff h.ordered fun call => ⟨ho.subset h,h.subset ho⟩

end Calls

section Sites

/-- The commands that are checked have the arguments that they are to have. -/
def HasArguments (command : Command) : Prop :=
  (command.kind ∈ [Kind.call, .label, .goto, .ifGoto] → command.name.isSome = true) ∧
    (command.kind = .call → command.index.isSome = true)

instance (command : Command) : Decidable (HasArguments command) := inferInstanceAs (Decidable (_ ∧ _))

/-- The call that a command makes. -/
def callOf? (unit : String) (command : Command) : Option Call :=
  if command.kind = .call then
    command.name.bind fun name => command.index.map fun index => ⟨name, index, unit, command.position⟩
  else none

/-- All calls in unit and source order. -/
def callSites (units : List ParsedUnit) : List Call := units.flatMap fun entry => entry.2.filterMap (callOf? entry.1)

variable {command : Command}

theorem HasArguments.exists_first (h : HasArguments command) (hk : command.kind ∈ [Kind.call, .label, .goto, .ifGoto]) :
    ∃ name, command.name = some name ∧ command.first = .ok name := by
  obtain ⟨name,hn⟩ := Option.isSome_iff_exists.mp (h.1 hk)
  refine ⟨name,hn,Vm.Command.first_of_name ?_ hn⟩
  rintro he
  simp [he] at hk

theorem HasArguments.exists_call (h : HasArguments command) (hk : command.kind = .call) (unit : String) :
    ∃ call, callOf? unit command = some call ∧ Call.ofCommand unit command = .ok call := by
  obtain ⟨name,hn,hfirst⟩ := h.exists_first (by simp [hk])
  obtain ⟨index,hi⟩ := Option.isSome_iff_exists.mp (h.2 hk)
  have hsecond : command.second = .ok index := Vm.Command.second_of_index (by rw [hk]; rfl) hi
  refine ⟨⟨name, index, unit, command.position⟩,by simp [callOf?, hk, hn, hi],?_⟩
  exact Outcome.bind_eq_ok.mpr ⟨name,hfirst,Outcome.bind_eq_ok.mpr ⟨index,hsecond,rfl⟩⟩

theorem map_ofCommand {commands : List Command} (h : ∀ command ∈ commands, HasArguments command) (unit : String) :
    (commands.filter (·.kind == .call)).map (Call.ofCommand unit) = (commands.filterMap (callOf? unit)).map .ok := by
  induction commands with
  | nil => rfl
  | cons command rest ih =>
    obtain ⟨hfirst,hrest⟩ := List.forall_mem_cons.mp h
    by_cases hk : command.kind = .call
    · obtain ⟨call,hc,ho⟩ := hfirst.exists_call hk unit
      rw [List.filter_cons_of_pos (by simpa using hk), List.map_cons, ho, ih hrest, List.filterMap_cons_some hc,
        List.map_cons]
    · have hnone : callOf? unit command = none := if_neg hk
      rw [List.filter_cons_of_neg (by simpa using hk), ih hrest, List.filterMap_cons_none hnone]

/-- Calls that have their arguments are collected, all of them. -/
theorem callsIn_eq {units : List ParsedUnit} (h : ∀ entry ∈ units, ∀ command ∈ entry.2, HasArguments command) :
    callsIn units = .ok (callSites units) := by
  rw [callsIn, Outcome.mapM_eq_ok, List.map_id, callSites, List.map_flatMap]
  exact List.flatMap_congr fun entry he => map_ofCommand (h entry he) entry.1

theorem checkCalls_eq {units : List ParsedUnit} (h : ∀ entry ∈ units, ∀ command ∈ entry.2, HasArguments command)
    (registry : Registry) (isStrict : Bool) : checkCalls units registry isStrict =
      .ok (if isStrict then ((undefinedCalls registry [] (callSites units)).map Call.error, [])
        else ([], (undefinedCalls registry [] (callSites units)).map Call.warning)) := by
  rw [checkCalls, callsIn_eq h]
  rfl

theorem tellCalls_eq {units : List ParsedUnit} (h : ∀ entry ∈ units, ∀ command ∈ entry.2, HasArguments command)
    (registry : Registry) (isStrict : Bool) : tellCalls units registry isStrict =
      if (undefinedCalls registry [] (callSites units)).all fun call => Position.isPrintable call.position then
        checkCalls units registry isStrict
      else .error (.numeral .tooLongToPrint) := by
  rw [tellCalls, callsIn_eq h]
  rfl

end Sites

section Registries

/-- The registry after entries have been added to a new one. -/
def Registry.ofEntries (entries : List (String × String)) : Except LinkError Registry :=
  entries.foldlM (fun registry entry => registry.add entry.1 entry.2) {}

theorem Registry.exists_foldlM_add {registry : Registry} (h : registry.frozen = false)
    (entries : List (String × String)) :
    ∃ filled, entries.foldlM (fun registry entry => Registry.add registry entry.1 entry.2) registry = .ok filled ∧
      ∀ name, filled.contains name = true ↔ registry.contains name = true ∨ name ∈ entries.map Prod.fst := by
  induction entries generalizing registry with
  | nil => exact ⟨registry,rfl,by simp⟩
  | cons entry rest ih =>
    have hadd : registry.add entry.1 entry.2 =
        .ok { registry with entries := put entry.1 entry.2 registry.entries } := by
      rw [Registry.add, h]
      rfl
    have hentered : ({ registry with entries := put entry.1 entry.2 registry.entries } : Registry).frozen = false := h
    obtain ⟨filled,hf,hnames⟩ := ih hentered
    refine ⟨filled,Outcome.foldlM_cons_eq_ok.mpr ⟨_,hadd,hf⟩,fun name => (hnames name).trans ?_⟩
    rw [Registry.contains, Registry.lookup, lookup_put, List.map_cons, List.mem_cons]
    by_cases hn : name = entry.1
    · simp [hn]
    · simp [hn, Registry.contains, Registry.lookup]

/-- The registry holds the names that were added, in whatever order. -/
theorem Registry.exists_ofEntries (entries : List (String × String)) : ∃ registry, Registry.ofEntries entries = .ok registry ∧
    ∀ name, registry.contains name = true ↔ name ∈ entries.map Prod.fst := by
  have hnew : ({} : Registry).frozen = false := rfl
  obtain ⟨registry,hr,hnames⟩ := Registry.exists_foldlM_add hnew entries
  exact ⟨registry,hr,fun name => (hnames name).trans (by simp [Registry.contains, Registry.lookup])⟩

theorem undefinedCalls_congr {registry other : Registry} (h : registry.contains = other.contains) (before : List String)
    (calls : List Call) : undefinedCalls registry before calls = undefinedCalls other before calls := by
  induction calls generalizing before with
  | nil => rfl
  | cons call rest ih => rw [undefinedCalls, undefinedCalls, h, ih, ih]

theorem checkCalls_congr {registry other : Registry} (h : registry.contains = other.contains) (units : List ParsedUnit)
    (isStrict : Bool) : checkCalls units registry isStrict = checkCalls units other isStrict := by
  simp only [checkCalls, undefinedCalls_congr h]

end Registries

section Labels

/-- A jump to what is the name of no label among the commands. -/
def IsStray (commands : List Command) (command : Command) : Prop :=
  (command.kind = .goto ∨ command.kind = .ifGoto) ∧
    ∀ label ∈ commands, label.kind = .label → label.name ≠ command.name

instance (commands : List Command) (command : Command) : Decidable (IsStray commands command) :=
  inferInstanceAs (Decidable (_ ∧ _))

def strays (commands : List Command) : List Command := commands.filter fun command => decide (IsStray commands command)

def strayWarning (unit : String) (command : Command) : String :=
  let target := command.name.getD ""
  s!"{whereabouts unit command.position}: warning: jump to undefined label '{target}'"

/-- The names of all labels among the commands. -/
def AreLabels (commands : List Command) (labels : List String) : Prop :=
  ∀ name, name ∈ labels ↔ ∃ label ∈ commands, label.kind = .label ∧ label.name = some name

variable {commands : List Command} {labels : List String} (unit : String)

theorem exists_labelNames (h : ∀ command ∈ commands, HasArguments command) :
    ∃ labels, labelNames commands = .ok labels ∧ AreLabels commands labels := by
  have hfirst : ∀ label ∈ commands.filter (·.kind == .label), ∃ name, label.name = some name ∧ label.first = .ok name := by
    intro label hm
    obtain ⟨hm,hk⟩ := List.mem_filter.mp hm
    exact (h label hm).exists_first (by simp_all)
  obtain ⟨labels,hl⟩ : ∃ labels, labelNames commands = .ok labels :=
    Outcome.exists_mapM fun label hm => (hfirst label hm).imp fun _ => And.right
  refine ⟨labels,hl,fun name => ?_⟩
  constructor
  · intro hn
    obtain ⟨label,hm,hf⟩ := Outcome.exists_of_mem_mapM hl hn
    obtain ⟨hm,hk⟩ := List.mem_filter.mp hm
    exact ⟨label,hm,by simpa using hk,Vm.Command.name_of_first hf⟩
  · rintro ⟨label,hm,hk,hn⟩
    have hm : label ∈ commands.filter (·.kind == .label) := List.mem_filter.mpr ⟨hm,by simp [hk]⟩
    obtain ⟨found,hfound,hf⟩ := Outcome.exists_mem_of_mapM hl hm
    have he := (Vm.Command.name_of_first hf).symm.trans hn
    cases he
    exact hfound

/-- What is told of a jump. -/
def strayWarning? (commands : List Command) (command : Command) : Option String :=
  if IsStray commands command then some (strayWarning unit command) else none

theorem jumpWarning?_eq (hl : AreLabels commands labels) (h : ∀ command ∈ commands, HasArguments command)
    {command : Command} (hm : command ∈ commands.filter isJump) :
    jumpWarning? unit labels command = .ok (strayWarning? unit commands command) := by
  obtain ⟨hm,hj⟩ := List.mem_filter.mp hm
  have hkind : command.kind = .goto ∨ command.kind = .ifGoto := by simpa [isJump] using hj
  obtain ⟨target,hn,hfirst⟩ := (h command hm).exists_first (by rcases hkind with hk | hk <;> simp [hk])
  have hstray : IsStray commands command ↔ target ∉ labels := by
    rw [IsStray, and_iff_right hkind, hl target, hn]
    simp
  rw [jumpWarning?, hfirst, strayWarning?, strayWarning, hn]
  refine congrArg Except.ok ?_
  by_cases hc : target ∈ labels
  · rw [if_pos (List.contains_iff_mem.mpr hc), if_neg fun hs => hstray.mp hs hc]
  · rw [if_neg (mt List.contains_iff_mem.mp hc), if_pos (hstray.mpr hc)]
    rfl

theorem reduceOption_strayWarning? (commands : List Command) :
    ((commands.filter isJump).map (strayWarning? unit commands)).reduceOption =
      (strays commands).map (strayWarning unit) := by
  rw [List.reduceOption, List.filterMap_map, List.filterMap_filter, strays, ← List.filterMap_eq_map,
    List.filterMap_filter]
  refine List.filterMap_congr fun command _ => ?_
  by_cases hs : IsStray commands command
  · have hj : isJump command = true := by simpa [isJump] using hs.1
    simp [strayWarning?, hs, hj]
  · simp [strayWarning?, hs]

theorem checkLabels_eq (h : ∀ command ∈ commands, HasArguments command) :
    checkLabels unit commands = .ok ((strays commands).map (strayWarning unit)) := by
  obtain ⟨labels,hlabels,hl⟩ := exists_labelNames h
  have hwarnings : (commands.filter isJump).mapM (jumpWarning? unit labels) =
      .ok ((commands.filter isJump).map (strayWarning? unit commands)) := by
    rw [Outcome.mapM_eq_ok, List.map_map]
    exact List.map_congr_left fun command hm => jumpWarning?_eq unit hl h hm
  refine Outcome.bind_eq_ok.mpr ⟨labels,hlabels,Outcome.bind_eq_ok.mpr ⟨_,hwarnings,?_⟩⟩
  rw [reduceOption_strayWarning?]
  rfl

/-- A jump that is told must have a place that can be written out. -/
def tellJump (labels : List String) (command : Command) : Except Failure (Option String) := do
  let warning ← jumpWarning? unit labels command
  if warning.isSome && !Position.isPrintable command.position then throw (.numeral .tooLongToPrint)
  return warning

theorem tellJump_eq (hl : AreLabels commands labels) (h : ∀ command ∈ commands, HasArguments command)
    {command : Command} (hm : command ∈ commands.filter isJump) : tellJump unit labels command =
      if IsStray commands command ∧ ¬Position.isPrintable command.position = true then
        .error (.numeral .tooLongToPrint)
      else .ok (strayWarning? unit commands command) := by
  rw [tellJump, jumpWarning?_eq unit hl h hm, strayWarning?]
  by_cases hs : IsStray commands command
  · rw [if_pos hs]
    cases Position.isPrintable command.position with
    | false =>
      rw [if_pos ⟨hs,Bool.false_ne_true⟩]
      rfl
    | true =>
      rw [if_neg fun hn => hn.2 rfl]
      rfl
  · rw [if_neg hs, if_neg fun hn => hs hn.1]
    rfl

theorem tellLabels_eq (h : ∀ command ∈ commands, HasArguments command) : tellLabels unit commands =
    if (strays commands).all fun command => Position.isPrintable command.position then checkLabels unit commands
    else .error (.numeral .tooLongToPrint) := by
  obtain ⟨labels,hlabels,hl⟩ := exists_labelNames h
  have hall : tellLabels unit commands = ((commands.filter isJump).mapM (tellJump unit labels)).map List.reduceOption := by
    rw [tellLabels, hlabels]
    rfl
  have hprintable : ((strays commands).all fun command => Position.isPrintable command.position) = true ↔
      ∀ command ∈ commands, IsStray commands command → Position.isPrintable command.position = true := by
    simp [strays, imp_iff_not_or]
  by_cases hp : ∀ command ∈ commands, IsStray commands command → Position.isPrintable command.position = true
  · rw [hall, if_pos (hprintable.mpr hp), checkLabels_eq unit h, ← reduceOption_strayWarning?, Outcome.map_eq_ok]
    refine ⟨_,Outcome.mapM_eq_ok.mpr ?_,rfl⟩
    rw [List.map_map]
    refine List.map_congr_left fun command hm => ?_
    rw [tellJump_eq unit hl h hm, if_neg fun hs => hs.2 (hp command (List.mem_filter.mp hm).1 hs.1)]
    rfl
  · rw [hall, if_neg (mt hprintable.mp hp), Outcome.map_eq_error, ← Outcome.failure?_eq_some, Outcome.failure?_mapM]
    simp only [not_forall] at hp
    obtain ⟨stray,hm,hs,hp⟩ := hp
    have hjump : stray ∈ commands.filter isJump := List.mem_filter.mpr ⟨hm,by simpa [isJump] using hs.1⟩
    -- Whichever jump is refused first, it is refused for the same reason.
    cases hfound : (commands.filter isJump).findSome? fun command => Outcome.failure? (tellJump unit labels command) with
    | none =>
      have hnone := List.findSome?_eq_none_iff.mp hfound stray hjump
      rw [tellJump_eq unit hl h hjump, if_pos ⟨hs,hp⟩] at hnone
      cases hnone
    | some failure =>
      obtain ⟨command,hm,hf⟩ := List.exists_of_findSome?_eq_some hfound
      rw [tellJump_eq unit hl h hm] at hf
      split at hf
      next =>
        cases hf
        rfl
      next => cases hf

end Labels

/-- What the checks tell of units whose commands have their arguments. -/
structure ChecksNames (units : List ParsedUnit) (registry : Registry) : Prop where
  /-- The calls that are told are the same as errors and as warnings. -/
  calls : ∃ told, (∀ other, Reports (registry.contains · = true) (callSites units) other ↔ other = told) ∧
    checkCalls units registry true = .ok (told.map Call.error, []) ∧
    checkCalls units registry false = .ok ([], told.map Call.warning)
  quiet : ∀ isStrict, checkCalls units registry isStrict = .ok ([], []) ↔
    ∀ call ∈ callSites units, registry.contains call.name = true
  unordered : ∀ entries others : List (String × String), entries.Perm others → ∃ filled other,
    Registry.ofEntries entries = .ok filled ∧ Registry.ofEntries others = .ok other ∧
      ∀ isStrict, checkCalls units filled isStrict = checkCalls units other isStrict
  labels : ∀ entry ∈ units, checkLabels entry.1 entry.2 = .ok ((strays entry.2).map (strayWarning entry.1))
  /-- Places that are too long to print cannot be told. -/
  toldCalls : ∀ told, Reports (registry.contains · = true) (callSites units) told → ∀ isStrict,
    tellCalls units registry isStrict =
      if told.all fun call => Position.isPrintable call.position then checkCalls units registry isStrict
      else .error (.numeral .tooLongToPrint)
  toldLabels : ∀ entry ∈ units, tellLabels entry.1 entry.2 =
    if (strays entry.2).all fun command => Position.isPrintable command.position then checkLabels entry.1 entry.2
    else .error (.numeral .tooLongToPrint)

theorem reports_missing (registry : Registry) (calls : List Call) :
    Reports (registry.contains · = true) calls (undefinedCalls registry [] calls) := by
  simpa using reports_undefinedCalls registry [] calls

theorem undefinedCalls_eq_nil {registry : Registry} {calls : List Call} : undefinedCalls registry [] calls = [] ↔
    ∀ call ∈ calls, registry.contains call.name = true := by
  have hnames := (reports_missing registry calls).names
  constructor
  · intro h call hm
    rw [h] at hnames
    simpa [List.mem_map_of_mem hm] using hnames call.name
  · intro h
    refine List.eq_nil_iff_forall_not_mem.mpr fun call hm => ?_
    obtain ⟨hcalled,hmissing⟩ := (hnames call.name).mp (List.mem_map_of_mem hm)
    obtain ⟨found,hf,he⟩ := List.mem_map.mp hcalled
    exact hmissing (he ▸ h found hf)

-- The number of the line has 4301 digits.
example : tellLabels "B" [{ kind := .goto, name := some "END", position := some ⟨"B.vm", 10 ^ 4300, 1⟩ }] =
    .error (.numeral .tooLongToPrint) := by
  decide +kernel

/-- Two units that call `g` and `h` around each other, and jump to labels of their own and of each other. -/
def crossedUnits : List ParsedUnit :=
  [("A", [{ kind := .goto, name := some "END" }, { kind := .call, name := some "g", index := some 0 },
      { kind := .label, name := some "END" }, { kind := .call, name := some "f", index := some 1 }]),
   ("B", [{ kind := .call, name := some "h", index := some 0, position := some ⟨"B.vm", 1, 1⟩ },
      { kind := .goto, name := some "END" }, { kind := .call, name := some "g", index := some 2 },
      { kind := .ifGoto, name := some "END", position := some ⟨"B.vm", 4, 1⟩ }])]

end HackToolchain.Link
