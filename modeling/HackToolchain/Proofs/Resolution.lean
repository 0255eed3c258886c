import Mathlib.Data.List.Nodup
import HackToolchain.Asm.Session
import HackToolchain.Proofs.Numerals
import HackToolchain.Proofs.Outcomes

/-! # Resolution of symbols

The two passes of the assembler build one symbol table: the predefined names, then the labels in the order of the
source, then the variables in the order of their first use.  No name is entered twice, so a name that has an address
keeps it, and every load is encoded by the final table.
-/
namespace HackToolchain.Asm

namespace SymbolTable

def names (table : SymbolTable) : List String := table.entries.map (·.1)

theorem addressIn?_eq_some_iff {name : String} {address : Nat} {entries : List (String × Nat)}
    (h : (entries.map (·.1)).Nodup) : addressIn? name entries = some address ↔ (name, address) ∈ entries := by
  induction entries with
  | nil => simp [addressIn?]
  | cons entry rest ih =>
    obtain ⟨key,value⟩ := entry
    rw [List.map_cons, List.nodup_cons] at h
    rw [addressIn?]
    split
    next he =>
      subst he
      constructor
      · intro hv
        cases hv
        exact List.mem_cons_self
      · intro hm
        rcases List.mem_cons.mp hm with hm | hm
        · cases hm
          rfl
        · exact absurd (List.mem_map_of_mem (f := Prod.fst) hm) h.1
    next he =>
      rw [ih h.2, List.mem_cons]
      constructor
      · exact Or.inr
      · rintro (hm | hm)
        · cases hm
          exact absurd rfl he
        · exact hm

theorem nodup_latest_iff {table : SymbolTable} : (table.latest.map (·.1)).Nodup ↔ table.names.Nodup := by
  rw [names, entries, List.map_reverse, List.nodup_reverse]

theorem get?_eq_some_iff {table : SymbolTable} (h : table.names.Nodup) {name : String} {address : Nat} :
    table.get? name = some address ↔ (name, address) ∈ table.entries := by
  rw [get?, addressIn?_eq_some_iff (nodup_latest_iff.mpr h), entries, List.mem_reverse]

theorem get?_eq_none_iff {table : SymbolTable} (h : table.names.Nodup) {name : String} :
    table.get? name = none ↔ name ∉ table.names := by
  rw [Option.eq_none_iff_forall_ne_some]
  constructor
  · intro hn hm
    obtain ⟨⟨_,address⟩,he,rfl⟩ := List.mem_map.mp hm
    exact hn address ((get?_eq_some_iff h).mpr he)
  · intro hn address ha
    exact hn (List.mem_map_of_mem (f := Prod.fst) ((get?_eq_some_iff h).mp ha))

theorem names_insert (table : SymbolTable) (name : String) (address : Nat) :
    (table.insert name address).names = table.names ++ [name] := by
  simp [names]

theorem nodup_insert {table : SymbolTable} (h : table.names.Nodup) {name : String} (hn : table.get? name = none)
    (address : Nat) : (table.insert name address).names.Nodup := by
  rw [names_insert]
  exact List.Nodup.append h (List.nodup_singleton name) (by simpa using (get?_eq_none_iff h).mp hn)

theorem nodup_predefined : predefined.names.Nodup := by decide

@[simp] theorem entries_predefined : predefined.entries = predefinedEntries := by
  simp [predefined, entries]

end SymbolTable

def instructionCount (lines : List SourceLine) : Nat := lines.countP (!·.isLabel)

@[simp] theorem instructionCount_nil : instructionCount [] = 0 := rfl

theorem instructionCount_append (xs ys : List SourceLine) :
    instructionCount (xs ++ ys) = instructionCount xs + instructionCount ys := List.countP_append

theorem instructionCount_singleton (line : SourceLine) :
    instructionCount [line] = if line.isLabel then 0 else 1 := by
  cases hl : line.isLabel <;> simp [instructionCount, hl]

theorem instructionCount_congr {xs ys : List SourceLine} (h : xs.map (·.text) = ys.map (·.text)) :
    instructionCount xs = instructionCount ys := by
  have hcount : ∀ lines : List SourceLine, instructionCount lines =
      (lines.map (·.text)).countP fun text => !(text.head? == some '(') := by
    intro lines
    rw [List.countP_map]
    rfl
  rw [hcount, hcount, h]

/-- The labels of some lines with their addresses, `address` being that of the first line. -/
def labelEntries (address : Nat) : List SourceLine → List (String × Nat)
  | [] => []
  | line :: rest =>
    if line.isLabel then (line.labelName.toOption.map (·, address)).toList ++ labelEntries address rest
    else labelEntries (address + 1) rest

theorem labelEntries_append (address : Nat) (xs ys : List SourceLine) :
    labelEntries address (xs ++ ys) = labelEntries address xs ++ labelEntries (address + instructionCount xs) ys := by
  induction xs generalizing address with
  | nil => simp [labelEntries]
  | cons line rest ih =>
    cases hl : line.isLabel with
    | true => simp [labelEntries, instructionCount, hl, ih]
    | false =>
      have ha : address + (rest.countP (!·.isLabel) + 1) = address + 1 + rest.countP (!·.isLabel) := by omega
      simp [labelEntries, instructionCount, hl, ih, ha]

theorem mem_labelEntries (before after : List SourceLine) {line : SourceLine} {name : String}
    (hl : line.isLabel = true) (hn : line.labelName = .ok name) :
    (name, instructionCount before) ∈ labelEntries 0 (before ++ line :: after) := by
  simp [labelEntries_append, labelEntries, hl, hn, Except.toOption]

theorem exists_of_mem_labelEntries {start address : Nat} {name : String} {lines : List SourceLine}
    (h : (name, address) ∈ labelEntries start lines) : ∃ before line after, lines = before ++ line :: after ∧
      line.isLabel = true ∧ line.labelName = .ok name ∧ address = start + instructionCount before := by
  induction lines generalizing start with
  | nil => simp [labelEntries] at h
  | cons line rest ih =>
    rw [labelEntries] at h
    split at h
    next hl =>
      rcases List.mem_append.mp h with h | h
      · cases hn : line.labelName with
        | error fault => simp [hn, Except.toOption] at h
        | ok found =>
          simp only [hn, Except.toOption, Option.map_some, Option.toList_some, List.mem_singleton,
            Prod.mk.injEq] at h
          obtain ⟨rfl,rfl⟩ := h
          exact ⟨[],line,rest,rfl,hl,hn,by simp⟩
      · obtain ⟨before,found,after,rfl,hf,hn,ha⟩ := ih h
        exact ⟨line :: before,found,after,rfl,hf,hn,by simpa [instructionCount, hl] using ha⟩
    next hl =>
      obtain ⟨before,found,after,rfl,hf,hn,ha⟩ := ih h
      refine ⟨line :: before,found,after,rfl,hf,hn,?_⟩
      simp only [instructionCount, List.countP_cons, hl] at ha ⊢
      simp only [Bool.not_false, ↓reduceIte]
      omega

/-- The first pass has gone through `lines`, starting at `first`. -/
structure Labels.Passed (first : Labels) (lines : List SourceLine) (labels : Labels) : Prop where
  nodup : labels.symbols.names.Nodup
  entries : labels.symbols.entries = first.symbols.entries ++ labelEntries first.address lines
  address : labels.address = first.address + instructionCount lines
  named : ∀ line ∈ lines, line.isLabel = true → ∃ name, line.labelName = .ok name

theorem Labels.Passed.add {first labels next : Labels} {lines : List SourceLine} {line : SourceLine}
    (hp : Passed first lines labels) (h : labels.add line = .ok next) : Passed first (lines ++ [line]) next := by
  unfold Labels.add at h
  split at h
  next hl =>
    split at h
    next => cases h
    next name hn =>
      split at h
      next => cases h
      next hg =>
        cases h
        refine ⟨SymbolTable.nodup_insert hp.nodup hg _,?_,?_,?_⟩
        · simp [labelEntries_append, labelEntries, hl, hn, Except.toOption, hp.entries, hp.address]
        · simp [instructionCount_append, instructionCount_singleton, hp.address, hl]
        · intro other ho _
          rcases List.mem_append.mp ho with ho | ho
          · exact hp.named other ho ‹_›
          · cases List.mem_singleton.mp ho
            exact ⟨name,hn⟩
  next hl =>
    cases h
    refine ⟨hp.nodup,?_,?_,?_⟩
    · simp [labelEntries_append, labelEntries, hl, hp.entries]
    · simp [instructionCount_append, instructionCount_singleton, hp.address, hl, Nat.add_assoc]
    · intro other ho hlabel
      rcases List.mem_append.mp ho with ho | ho
      · exact hp.named other ho hlabel
      · cases List.mem_singleton.mp ho
        exact absurd hlabel (by simp [hl])

theorem Labels.Passed.foldlM {first labels last : Labels} {lines rest : List SourceLine}
    (hp : Passed first lines labels) (h : rest.foldlM Labels.add labels = .ok last) :
    Passed first (lines ++ rest) last := by
  induction rest generalizing lines labels with
  | nil =>
    cases Outcome.pure_eq_ok.mp h
    simpa using hp
  | cons line rest ih =>
    obtain ⟨next,hn,h⟩ := Outcome.foldlM_cons_eq_ok.mp h
    simpa using ih (hp.add hn) h

/-- What the first pass yields: the predefined names and then the labels. -/
theorem placeLabels_spec {lines : List SourceLine} {placed : SymbolTable} (h : placeLabels lines = .ok placed) :
    placed.names.Nodup ∧ placed.entries = SymbolTable.predefinedEntries ++ labelEntries 0 lines ∧
      ∀ line ∈ lines, line.isLabel = true → ∃ name, line.labelName = .ok name := by
  obtain ⟨labels,hl,rfl⟩ := Outcome.map_eq_ok.mp h
  have hp : Labels.Passed ⟨.predefined,0⟩ [] ⟨.predefined,0⟩ :=
    ⟨SymbolTable.nodup_predefined,by simp [labelEntries],by simp,by simp⟩
  have hp := hp.foldlM hl
  exact ⟨hp.nodup,by simpa using hp.entries,by simpa using hp.named⟩

/-- The number that a load operand stands for once all symbols have addresses. -/
def loadValue? (table : SymbolTable) (operand : List Char) : Option Nat :=
  if !operand.isEmpty && operand.all Text.isDigit then
    (Text.decimal operand).toOption.filter fun value => value ≤ largestLoad
  else if isSymbol operand then table.get? (String.ofList operand)
  else none

/-- The word of an instruction once all symbols have addresses. -/
def wordOf? (table : SymbolTable) (text : List Char) : Option Nat :=
  if text.head? == some '@' then loadValue? table (text.drop 1)
  else (Compute.parse text).toOption.map Compute.code

def SymbolTable.Extends (table base : SymbolTable) : Prop :=
  ∀ name address, base.get? name = some address → table.get? name = some address

theorem wordOf?_of_extends {table base : SymbolTable} (he : table.Extends base) {text : List Char} {word : Nat}
    (h : wordOf? base text = some word) : wordOf? table text = some word := by
  unfold wordOf? at h ⊢
  split at h
  next hl =>
    rw [if_pos hl]
    unfold loadValue? at h ⊢
    split at h
    next hd => rwa [if_pos hd]
    next hd =>
      rw [if_neg hd]
      split at h
      next hs =>
        rw [if_pos hs]
        exact he _ _ h
      next => cases h
  next hl => rwa [if_neg hl]

def SourceLine.loads (line : SourceLine) (name : String) : Prop :=
  line.isLoad = true ∧ line.text.drop 1 = name.toList ∧ isSymbol name.toList = true

theorem SourceLine.isLabel_of_isLoad {line : SourceLine} (h : line.isLoad = true) : line.isLabel = false := by
  have hhead : line.text.head? = some '@' := by simpa [SourceLine.isLoad] using h
  simp [SourceLine.isLabel, hhead]

/-- The symbol that a line loads. -/
def SourceLine.symbol? (line : SourceLine) : Option String :=
  if line.isLoad && isSymbol (line.text.drop 1) then some (String.ofList (line.text.drop 1)) else none

theorem SourceLine.symbol?_eq_some {line : SourceLine} {name : String} :
    line.symbol? = some name ↔ line.loads name := by
  unfold SourceLine.symbol?
  constructor
  · intro h
    split at h
    next hs =>
      cases h
      rw [Bool.and_eq_true] at hs
      exact ⟨hs.1,by simp,by simpa using hs.2⟩
    next => cases h
  · rintro ⟨hl,ht,hs⟩
    rw [ht, if_pos (by simp [hl, hs]), String.ofList_toList]

/-- The symbols that some lines load, those `taken` aside, in the order of their first use. -/
def variablesIn (taken : List String) (lines : List SourceLine) : List String :=
  ((lines.filterMap SourceLine.symbol?).filter (· ∉ taken)).eraseDups

theorem mem_variablesIn {taken : List String} {lines : List SourceLine} {name : String} :
    name ∈ variablesIn taken lines ↔ (∃ line ∈ lines, line.loads name) ∧ name ∉ taken := by
  simp [variablesIn, SourceLine.symbol?_eq_some]

/-- What is used first in `xs` is no longer new in `ys`. -/
theorem variablesIn_append (taken : List String) (xs ys : List SourceLine) :
    variablesIn taken (xs ++ ys) = variablesIn taken xs ++ variablesIn (taken ++ variablesIn taken xs) ys := by
  unfold variablesIn
  rw [List.filterMap_append, List.filter_append, List.eraseDups_append]
  congr 2
  rw [List.removeAll, List.filter_filter]
  apply List.filter_congr
  intro name _
  rw [Bool.eq_iff_iff]
  by_cases hn : name ∈ taken
  · simp [hn]
  · simp [hn]

theorem variablesIn_singleton_of_loads {line : SourceLine} {name : String} (h : line.loads name)
    (taken : List String) : variablesIn taken [line] = if name ∈ taken then [] else [name] := by
  by_cases hn : name ∈ taken
  · simp [variablesIn, SourceLine.symbol?_eq_some.mpr h, hn]
  · simp [variablesIn, SourceLine.symbol?_eq_some.mpr h, hn, List.eraseDups_cons]

/-- The second pass has encoded `lines`, starting from the symbols `base`. -/
structure Encoding.Passed (base : SymbolTable) (lines : List SourceLine) (allocated : List String)
    (encoding : Encoding) : Prop where
  nodup : encoding.symbols.names.Nodup
  entries : encoding.symbols.entries = base.entries ++ allocated.zipIdx firstVariable
  next : encoding.nextVariable = firstVariable + allocated.length
  used : ∀ name ∈ allocated, ∃ line ∈ lines, line.loads name
  count : allocated.length ≤ lines.countP (·.isLoad)
  words : lines.map (fun line => wordOf? encoding.symbols line.text) = encoding.words.reverse.map some

/-- A line that needs no new symbol. -/
theorem Encoding.Passed.push {base : SymbolTable} {lines : List SourceLine} {allocated : List String}
    {encoding : Encoding} (hp : Passed base lines allocated encoding) {line : SourceLine} {word : Nat}
    (hw : wordOf? encoding.symbols line.text = some word) :
    Passed base (lines ++ [line]) allocated (encoding.push word) := by
  refine ⟨hp.nodup,hp.entries,hp.next,?_,?_,?_⟩
  · intro name hn
    obtain ⟨user,hu,hl⟩ := hp.used name hn
    exact ⟨user,List.mem_append_left _ hu,hl⟩
  · rw [List.countP_append]
    exact Nat.le_trans hp.count (Nat.le_add_right _ _)
  · simp only [Encoding.push, List.map_append, List.reverse_cons, hp.words]
    simp [hw]

theorem SymbolTable.extends_insert {table : SymbolTable} {name : String} (hn : table.get? name = none)
    (address : Nat) : (table.insert name address).Extends table := by
  intro other value ho
  rw [get?_insert, if_neg]
  · exact ho
  · rintro rfl
    rw [hn] at ho
    cases ho

theorem wordOf?_of_loads {line : SourceLine} {name : String} (h : line.loads name) (table : SymbolTable) :
    wordOf? table line.text = table.get? name := by
  obtain ⟨hl,ht,hs⟩ := h
  have hl : (line.text.head? == some '@') = true := hl
  rw [wordOf?, if_pos hl, loadValue?, ht, if_neg (by simp [all_isDigit_of_isSymbol hs]), if_pos hs,
    String.ofList_toList]

/-- A load of a symbol that the table does not hold yet. -/
theorem Encoding.Passed.allocate {base : SymbolTable} {lines : List SourceLine} {allocated : List String}
    {encoding : Encoding} (hp : Passed base lines allocated encoding) {line : SourceLine} {name : String}
    (hl : line.loads name) (hn : encoding.symbols.get? name = none) :
    Passed base (lines ++ [line]) (allocated ++ [name])
      ⟨encoding.symbols.insert name encoding.nextVariable,encoding.nextVariable + 1,
        encoding.nextVariable :: encoding.words⟩ := by
  refine ⟨SymbolTable.nodup_insert hp.nodup hn _,?_,?_,?_,?_,?_⟩
  · simp [hp.entries, hp.next, List.zipIdx_append]
  · simp [hp.next, Nat.add_assoc]
  · intro other ho
    rcases List.mem_append.mp ho with ho | ho
    · obtain ⟨user,hu,hu'⟩ := hp.used other ho
      exact ⟨user,List.mem_append_left _ hu,hu'⟩
    · cases List.mem_singleton.mp ho
      exact ⟨line,List.mem_append_right _ (List.mem_singleton_self line),hl⟩
  · rw [List.countP_append, List.countP_singleton, if_pos hl.1, List.length_append]
    exact Nat.add_le_add_right hp.count 1
  · -- The words encoded before keep their values, since the table only grows.
    have hkeep : lines.map (fun line => wordOf? (encoding.symbols.insert name encoding.nextVariable) line.text) =
        lines.map fun line => wordOf? encoding.symbols line.text := by
      apply List.map_congr_left
      intro other ho
      have hm : wordOf? encoding.symbols other.text ∈ encoding.words.reverse.map some :=
        hp.words ▸ List.mem_map_of_mem ho
      obtain ⟨word,_,hw⟩ := List.mem_map.mp hm
      rw [← hw]
      exact wordOf?_of_extends (SymbolTable.extends_insert hn _) hw.symm
    rw [List.map_append, hkeep, hp.words]
    simp [wordOf?_of_loads hl]

/-- What the second pass does with a line: it pushes the word that the table gives, or enters a new variable. -/
theorem Encoding.add_cases {encoding next : Encoding} {line : SourceLine} (h : encoding.add line = .ok next) :
    (∃ word, wordOf? encoding.symbols line.text = some word ∧ next = encoding.push word) ∨
      ∃ name, line.loads name ∧ encoding.symbols.get? name = none ∧ next =
        ⟨encoding.symbols.insert name encoding.nextVariable,encoding.nextVariable + 1,
          encoding.nextVariable :: encoding.words⟩ := by
  unfold Encoding.add at h
  split at h
  next hl =>
    have hl' : (line.text.head? == some '@') = true := hl
    unfold Encoding.load at h
    split at h
    next hd =>
      unfold Encoding.loadNumber at h
      split at h
      next => cases h
      next value hv =>
        split at h
        next => cases h
        next hr =>
          cases h
          refine .inl ⟨value,?_,rfl⟩
          rw [wordOf?, if_pos hl', loadValue?, if_pos hd, hv]
          simp [Except.toOption, Nat.le_of_not_lt hr]
    next hd =>
      split at h
      next hs =>
        cases h
        have ho : line.loads (String.ofList (line.text.drop 1)) := ⟨hl,by simp,by simpa using hs⟩
        unfold Encoding.loadSymbol
        split
        next address hg => exact .inl ⟨address,(wordOf?_of_loads ho _).trans hg,rfl⟩
        next hg => exact .inr ⟨_,ho,hg,rfl⟩
      next => cases h
  next hl =>
    have hl' : (line.text.head? == some '@') = false := by simpa [SourceLine.isLoad] using hl
    unfold Encoding.compute at h
    split at h
    next instruction hi =>
      cases h
      exact .inl ⟨_,by simp [wordOf?, hl', hi, Except.toOption],rfl⟩
    next => cases h

theorem Encoding.Passed.names {base : SymbolTable} {lines : List SourceLine} {allocated : List String}
    {encoding : Encoding} (hp : Passed base lines allocated encoding) :
    encoding.symbols.names = base.names ++ allocated := by
  rw [SymbolTable.names, hp.entries, List.map_append, List.zipIdx_map_fst]
  rfl

theorem Encoding.Passed.add {base : SymbolTable} {lines : List SourceLine} {allocated : List String}
    {encoding next : Encoding} (hp : Passed base lines allocated encoding) {line : SourceLine}
    (h : encoding.add line = .ok next) :
    Passed base (lines ++ [line]) (allocated ++ variablesIn (base.names ++ allocated) [line]) next := by
  rw [← hp.names]
  obtain ⟨word,hw,rfl⟩ | ⟨name,hl,hn,rfl⟩ := Encoding.add_cases h
  · have hold : variablesIn encoding.symbols.names [line] = [] := by
      cases hs : line.symbol? with
      | none => simp [variablesIn, hs]
      | some name =>
        have hl := SourceLine.symbol?_eq_some.mp hs
        have hm : name ∈ encoding.symbols.names := by
          by_contra hm
          rw [wordOf?_of_loads hl, (SymbolTable.get?_eq_none_iff hp.nodup).mpr hm] at hw
          cases hw
        rw [variablesIn_singleton_of_loads hl, if_pos hm]
    rw [hold, List.append_nil]
    exact hp.push hw
  · have hm := (SymbolTable.get?_eq_none_iff hp.nodup).mp hn
    rw [variablesIn_singleton_of_loads hl, if_neg hm]
    exact hp.allocate hl hn

theorem Encoding.Passed.foldlM {base : SymbolTable} {lines rest : List SourceLine} {allocated : List String}
    {encoding last : Encoding} (hp : Passed base lines allocated encoding)
    (h : rest.foldlM Encoding.add encoding = .ok last) :
    Passed base (lines ++ rest) (allocated ++ variablesIn (base.names ++ allocated) rest) last := by
  induction rest generalizing lines allocated encoding with
  | nil =>
    cases Outcome.pure_eq_ok.mp h
    simpa [variablesIn] using hp
  | cons line rest ih =>
    obtain ⟨next,hn,h⟩ := Outcome.foldlM_cons_eq_ok.mp h
    have hlast := ih (hp.add hn) h
    rw [← List.append_assoc base.names, List.append_assoc allocated, ← variablesIn_append] at hlast
    simpa using hlast

/-- A source that was assembled: the table holds the predefined names, the labels and the variables, each once and in
this order, and the words are the instructions encoded by it. -/
structure Resolved (lines : List SourceLine) (allocated : List String) (table : SymbolTable) (words : List Nat) :
    Prop where
  nodup : table.names.Nodup
  entries : table.entries =
    SymbolTable.predefinedEntries ++ labelEntries 0 lines ++ allocated.zipIdx firstVariable
  named : ∀ line ∈ lines, line.isLabel = true → ∃ name, line.labelName = .ok name
  used : ∀ name ∈ allocated, ∃ line ∈ lines, line.loads name
  count : allocated.length ≤ lines.countP (·.isLoad)
  words : (lines.filter (!·.isLabel)).map (fun line => wordOf? table line.text) = words.map some

/-- The names that the first pass enters or finds: the predefined ones and the labels. -/
def takenNames (lines : List SourceLine) : List String :=
  (SymbolTable.predefinedEntries ++ labelEntries 0 lines).map (·.1)

theorem variablesIn_filter_isLabel (taken : List String) (lines : List SourceLine) :
    variablesIn taken (lines.filter (!·.isLabel)) = variablesIn taken lines := by
  unfold variablesIn
  congr 2
  rw [List.filterMap_filter]
  apply List.filterMap_congr
  intro line _
  split
  next => rfl
  next hl =>
    have hload : ¬line.isLoad = true := fun hload => hl (by simp [SourceLine.isLabel_of_isLoad hload])
    simp [SourceLine.symbol?, hload]

/-- The variables of a source that was assembled are the symbols it loads besides those taken, in the order of their
first use. -/
theorem resolved_variables {lines : List SourceLine} {table : SymbolTable} {words : List Nat}
    (h : assembleLines lines = .ok (table, words)) :
    Resolved lines (variablesIn (takenNames lines) lines) table words := by
  obtain ⟨placed,hp,h⟩ := Outcome.bind_eq_ok.mp h
  obtain ⟨last,hf,he⟩ := Outcome.map_eq_ok.mp h
  cases he
  obtain ⟨hn,hl,hnamed⟩ := placeLabels_spec hp
  have hstart : Encoding.Passed placed [] [] ⟨placed,firstVariable,[]⟩ :=
    ⟨hn,by simp,by simp,by simp,by simp,by simp⟩
  have hlast := hstart.foldlM hf
  have hnames : placed.names = takenNames lines := by rw [SymbolTable.names, hl, takenNames]
  rw [List.nil_append, List.nil_append, List.append_nil, hnames, variablesIn_filter_isLabel] at hlast
  refine ⟨hlast.nodup,by rw [hlast.entries, hl],hnamed,?_,?_,hlast.words⟩
  · intro name hname
    obtain ⟨line,hm,hu⟩ := hlast.used name hname
    exact ⟨line,(List.mem_filter.mp hm).1,hu⟩
  · exact Nat.le_trans hlast.count (List.Sublist.countP_le List.filter_sublist)

theorem resolved_of_assembleLines {lines : List SourceLine} {table : SymbolTable} {words : List Nat}
    (h : assembleLines lines = .ok (table, words)) : ∃ allocated, Resolved lines allocated table words :=
  ⟨_,resolved_variables h⟩

theorem Session.assemble_eq_ok {session assembled : Session} {source file : String} {words : List Nat} :
    session.assemble source file = (assembled, .ok words) ↔
      assembleLines (sourceLines source file) = .ok (assembled.symbols, words) ∧ assembled.words = words := by
  unfold Session.assemble
  cases assembleLines (sourceLines source file) with
  | error stopped => simp
  | ok result =>
    obtain ⟨symbols,found⟩ := result
    constructor
    · intro h
      cases h
      exact ⟨rfl,rfl⟩
    · rintro ⟨h,rfl⟩
      cases h
      rfl

namespace Resolved

variable {lines : List SourceLine} {allocated : List String} {table : SymbolTable} {words : List Nat}

theorem get?_predefined (h : Resolved lines allocated table words) {name : String} {address : Nat}
    (hp : (name, address) ∈ SymbolTable.predefinedEntries) : table.get? name = some address := by
  rw [SymbolTable.get?_eq_some_iff h.nodup, h.entries]
  simp [hp]

/-- A variable is neither predefined nor a label. -/
theorem not_mem_allocated (h : Resolved lines allocated table words) {name : String} {address : Nat}
    (hm : (name, address) ∈ SymbolTable.predefinedEntries ++ labelEntries 0 lines) : name ∉ allocated := by
  have hn := h.nodup
  rw [SymbolTable.names, h.entries, List.map_append, List.zipIdx_map_fst] at hn
  intro ha
  exact (List.nodup_append.mp hn).2.2 name (List.mem_map.mpr ⟨_,hm,rfl⟩) name ha rfl

theorem get?_label (h : Resolved lines allocated table words) {name : String} {address : Nat}
    (hm : (name, address) ∈ labelEntries 0 lines) : table.get? name = some address := by
  rw [SymbolTable.get?_eq_some_iff h.nodup, h.entries]
  simp [hm]

end Resolved

end HackToolchain.Asm
