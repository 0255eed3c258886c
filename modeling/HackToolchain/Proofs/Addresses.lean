import Mathlib.Data.Set.Card
import HackToolchain.Proofs.Loading

/-! # Addresses of symbols

In a source that is assembled a label has the number of instructions before it as its address, wherever it is used, and
a variable the number of variables that are used before it, counted from the first address for variables.  A load of a
symbol is encoded as the address in the final table, and the table holds nothing else.  A label that is there twice, or
that has a predefined name, is refused.
-/
namespace HackToolchain.Asm

/-- The line reads `(name)`. -/
def SourceLine.marks (line : SourceLine) (name : String) : Prop := line.text = '(' :: (name.toList ++ [')'])

theorem SourceLine.marks.isLabel {line : SourceLine} {name : String} (h : line.marks name) : line.isLabel = true := by
  rw [SourceLine.isLabel, h]
  rfl

theorem SourceLine.marks_of_labelName {line : SourceLine} {name : String} (hl : line.isLabel = true)
    (h : line.labelName = .ok name) : line.marks name := by
  unfold SourceLine.labelName at h
  split at h
  next => cases h
  next hshape =>
    simp only [Bool.or_eq_true, decide_eq_true_eq, not_or, bne_iff_ne, ne_eq, not_not] at hshape
    dsimp only at h
    split at h
    next =>
      cases h
      obtain ⟨c,rest,ht⟩ : ∃ c rest, line.text = c :: rest :=
        List.exists_cons_of_ne_nil fun he => by simp [he] at hshape
      have hc : c = '(' := by simpa [SourceLine.isLabel, ht] using hl
      have hne : rest ≠ [] := by
        rintro rfl
        simp [ht] at hshape
      have hlast : rest.getLast hne = ')' := by
        simpa [ht, List.getLast?_cons, List.getLast?_eq_some_getLast hne] using hshape.2
      rw [SourceLine.marks, ht, hc, String.toList_ofList, List.drop_one, List.tail_cons, ← hlast,
        List.dropLast_concat_getLast]
    next => cases h

def IsPredefined (name : String) : Prop := name ∈ SymbolTable.predefinedEntries.map (·.1)

/-- A symbol that is loaded and is neither predefined nor a label. -/
def IsVariable (lines : List SourceLine) (name : String) : Prop :=
  (∃ line ∈ lines, line.loads name) ∧ ¬IsPredefined name ∧ ∀ line ∈ lines, ¬line.marks name

/-- The labels of some lines, in their order. -/
def labelNames (lines : List SourceLine) : List String :=
  lines.filterMap fun line => if line.isLabel then line.labelName.toOption else none

theorem map_fst_labelEntries (address : Nat) (lines : List SourceLine) :
    (labelEntries address lines).map (·.1) = labelNames lines := by
  induction lines generalizing address with
  | nil => rfl
  | cons line rest ih =>
    cases hl : line.isLabel with
    | true => cases hn : line.labelName <;> simp [labelEntries, labelNames, hl, hn, ih, Except.toOption]
    | false => simp [labelEntries, labelNames, hl, ih]

theorem mem_labelNames {lines : List SourceLine}
    (hn : ∀ line ∈ lines, line.isLabel = true → ∃ name, line.labelName = .ok name) {name : String} :
    name ∈ labelNames lines ↔ ∃ line ∈ lines, line.marks name := by
  rw [labelNames, List.mem_filterMap]
  constructor
  · rintro ⟨line,hm,h⟩
    split at h
    next hl => exact ⟨line,hm,SourceLine.marks_of_labelName hl (Outcome.toOption_eq_some.mp h)⟩
    next => cases h
  · rintro ⟨line,hm,h⟩
    obtain ⟨other,ho⟩ := hn line hm h.isLabel
    obtain ⟨-,rfl⟩ := Resolved.labelName_of_text h ho
    exact ⟨line,hm,by simp [h.isLabel, ho, Except.toOption]⟩

/-- How symbols are resolved in a source that was assembled. -/
structure Addressed (lines : List SourceLine) (table : SymbolTable) (words : List Nat) : Prop where
  /-- There is one word for each line that is no label. -/
  length : words.length = instructionCount lines
  /-- The address of a label is the number of instructions before it. -/
  label : ∀ before line after, lines = before ++ line :: after → line.isLabel = true →
    ∃ name, line.marks name ∧ table.get? name = some (instructionCount before)
  predefined : ∀ entry ∈ SymbolTable.predefinedEntries, table.get? entry.1 = some entry.2
  /-- At its first use a variable has the first address that the variables used before have left. -/
  firstUse : ∀ before line after name, lines = before ++ line :: after → line.loads name →
    (∀ earlier ∈ before, ¬earlier.loads name) → IsVariable lines name → table.get? name =
      some (firstVariable + {other | IsVariable lines other ∧ ∃ earlier ∈ before, earlier.loads other}.ncard)
  apart : ∀ name other, IsVariable lines name → IsVariable lines other → table.get? name = table.get? other →
    name = other
  /-- A load is encoded as the address that its symbol has in the end. -/
  load : ∀ before line after name, lines = before ++ line :: after → line.loads name →
    ∃ address, table.get? name = some address ∧ words[instructionCount before]? = some address
  /-- The table holds the predefined symbols, then the labels, then the variables, and no name twice. -/
  entries : table.names.Nodup ∧ ∃ allocated : List String, (∀ name, name ∈ allocated ↔ IsVariable lines name) ∧
    table.entries = SymbolTable.predefinedEntries ++ labelEntries 0 lines ++ allocated.zipIdx firstVariable

namespace Resolved

variable {lines : List SourceLine} {table : SymbolTable} {words : List Nat}

theorem mem_takenNames {allocated : List String} (h : Resolved lines allocated table words) {name : String} :
    name ∈ takenNames lines ↔ IsPredefined name ∨ ∃ line ∈ lines, line.marks name := by
  rw [takenNames, List.map_append, List.mem_append, map_fst_labelEntries, mem_labelNames h.named]
  rfl

theorem isVariable_iff {allocated : List String} (h : Resolved lines allocated table words) {name : String} :
    name ∈ variablesIn (takenNames lines) lines ↔ IsVariable lines name := by
  rw [mem_variablesIn, h.mem_takenNames, IsVariable]
  push Not
  rfl

theorem nodup_allocated {allocated : List String} (h : Resolved lines allocated table words) : allocated.Nodup := by
  have hn := h.nodup
  rw [SymbolTable.names, h.entries, List.map_append, List.zipIdx_map_fst] at hn
  exact hn.of_append_right

/-- The place of a variable among the others is told by those that are used before it. -/
theorem get?_variable (h : Resolved lines (variablesIn (takenNames lines) lines) table words)
    {before after : List SourceLine} {line : SourceLine} {name : String} (he : lines = before ++ line :: after)
    (hl : line.loads name) (hfirst : ∀ earlier ∈ before, ¬earlier.loads name) (hn : name ∉ takenNames lines) :
    table.get? name = some (firstVariable + (variablesIn (takenNames lines) before).length) := by
  have hnew : name ∉ takenNames lines ++ variablesIn (takenNames lines) before := by
    rw [List.mem_append, mem_variablesIn]
    rintro (hm | ⟨⟨earlier,hm,hu⟩,-⟩)
    · exact hn hm
    · exact hfirst earlier hm hu
  obtain ⟨more,hmore⟩ : ∃ more, variablesIn (takenNames lines) lines =
      variablesIn (takenNames lines) before ++ name :: more := by
    have hsplit : lines = before ++ ([line] ++ after) := he
    nth_rewrite 2 [hsplit]
    rw [variablesIn_append, variablesIn_append, variablesIn_singleton_of_loads hl, if_neg hnew]
    exact ⟨_,rfl⟩
  rw [SymbolTable.get?_eq_some_iff h.nodup, h.entries, hmore, List.zipIdx_append, List.zipIdx_cons]
  simp

theorem ncard_variables (h : Resolved lines (variablesIn (takenNames lines) lines) table words)
    {before after : List SourceLine} (he : lines = before ++ after) :
    {other | IsVariable lines other ∧ ∃ earlier ∈ before, earlier.loads other}.ncard =
      (variablesIn (takenNames lines) before).length := by
  have hnodup : (variablesIn (takenNames lines) before).Nodup := by
    have hall := h.nodup_allocated
    nth_rewrite 2 [he] at hall
    rw [variablesIn_append] at hall
    exact hall.of_append_left
  have hset : {other | IsVariable lines other ∧ ∃ earlier ∈ before, earlier.loads other} =
      ((variablesIn (takenNames lines) before).toFinset : Set String) := by
    ext name
    simp only [Set.mem_ofPred_eq, List.coe_toFinset, mem_variablesIn, ← h.isVariable_iff]
    constructor
    · rintro ⟨⟨-,hn⟩,hu⟩
      exact ⟨hu,hn⟩
    · rintro ⟨⟨line,hm,hu⟩,hn⟩
      exact ⟨⟨⟨line,he ▸ List.mem_append_left _ hm,hu⟩,hn⟩,line,hm,hu⟩
  rw [hset, Set.ncard_coe_finset, List.toFinset_card_of_nodup hnodup]

/-- Two names of variables do not share an address. -/
theorem variables_apart {allocated : List String} (h : Resolved lines allocated table words) {name other : String}
    (hn : name ∈ allocated) (ho : other ∈ allocated) (he : table.get? name = table.get? other) : name = other := by
  have hplace : ∀ {x : String}, x ∈ allocated → ∃ i, allocated[i]? = some x ∧
      table.get? x = some (firstVariable + i) := by
    intro x hx
    obtain ⟨i,hi⟩ := List.mem_iff_getElem?.mp hx
    refine ⟨i,hi,?_⟩
    rw [SymbolTable.get?_eq_some_iff h.nodup, h.entries]
    refine List.mem_append_right _ ?_
    rw [List.mk_mem_zipIdx_iff_le_and_getElem?_sub]
    simp [hi]
  obtain ⟨i,hi,hx⟩ := hplace hn
  obtain ⟨j,hj,hy⟩ := hplace ho
  rw [hx, hy, Option.some.injEq, Nat.add_left_cancel_iff] at he
  subst he
  exact Option.some.inj (hi.symm.trans hj)

theorem addressed (h : Resolved lines (variablesIn (takenNames lines) lines) table words) :
    Addressed lines table words := by
  refine ⟨h.length_words,?_,fun entry hm => h.get?_predefined hm,?_,?_,?_,h.nodup,_,fun name => h.isVariable_iff,
    h.entries⟩
  · intro before line after he hl
    obtain ⟨name,hn⟩ := h.named line (by simp [he]) hl
    refine ⟨name,SourceLine.marks_of_labelName hl hn,h.get?_label ?_⟩
    rw [he]
    exact mem_labelEntries before after hl hn
  · intro before line after name he hl hfirst hv
    rw [h.ncard_variables he, h.get?_variable he hl hfirst]
    exact (mem_variablesIn.mp (h.isVariable_iff.mpr hv)).2
  · intro name other hn ho
    exact h.variables_apart (h.isVariable_iff.mpr hn) (h.isVariable_iff.mpr ho)
  · intro before line after name he hl
    obtain ⟨word,hword,hv⟩ := h.word_at he (SourceLine.isLabel_of_isLoad hl.1)
    exact ⟨word,(wordOf?_of_loads hl table).symm.trans hv,hword⟩

end Resolved

/-- Two lines of a source read `(name)`. -/
def IsMarkedTwice (lines : List SourceLine) (name : String) : Prop :=
  ∃ first second, [first, second].Sublist lines ∧ first.marks name ∧ second.marks name

/-- No name is marked twice or marked besides being predefined, if a source is assembled. -/
theorem Resolved.marked_once {lines : List SourceLine} {allocated : List String} {table : SymbolTable}
    {words : List Nat} (h : Resolved lines allocated table words) (name : String) :
    ¬(IsMarkedTwice lines name ∨ (IsPredefined name ∧ ∃ line ∈ lines, line.marks name)) := by
  have hn := h.nodup
  rw [SymbolTable.names, h.entries, List.map_append, List.map_append, map_fst_labelEntries] at hn
  have hn := hn.of_append_left
  rintro (⟨first,second,hs,hfirst,hsecond⟩ | ⟨hp,line,hm,hmark⟩)
  · -- both lines leave the name among the labels
    have hlabel : ∀ line ∈ lines, line.marks name →
        (if line.isLabel then line.labelName.toOption else none) = some name := by
      intro line hm hmark
      obtain ⟨other,ho⟩ := h.named line hm hmark.isLabel
      obtain ⟨-,rfl⟩ := labelName_of_text hmark ho
      simp [hmark.isLabel, ho, Except.toOption]
    have htwice : [name, name].Sublist (labelNames lines) := by
      have hsub := hs.filterMap fun line => if line.isLabel then line.labelName.toOption else none
      simp only [List.filterMap_cons, List.filterMap_nil, hlabel first (hs.subset (by simp)) hfirst,
        hlabel second (hs.subset (by simp)) hsecond] at hsub
      exact hsub
    simpa using hn.of_append_right.sublist htwice
  · exact (List.nodup_append.mp hn).2.2 name hp name ((mem_labelNames h.named).mpr ⟨line,hm,hmark⟩) rfl

/-- A source that is assembled has its symbols resolved as it says, and a source with a label that is there twice or
predefined is refused. -/
theorem symbols_are_resolved_exactly (session : Session) (source file : String) :
    (∀ assembled words, session.assemble source file = (assembled, .ok words) →
      assembled.words = words ∧ Addressed (sourceLines source file) assembled.symbols words) ∧
    ∀ name, IsMarkedTwice (sourceLines source file) name ∨
        (IsPredefined name ∧ ∃ line ∈ sourceLines source file, line.marks name) →
      ∃ failure, (session.assemble source file).2 = .error failure := by
  constructor
  · intro assembled words h
    obtain ⟨hlines,hwords⟩ := Session.assemble_eq_ok.mp h
    exact ⟨hwords,(resolved_variables hlines).addressed⟩
  · intro name hbad
    cases hresult : session.assemble source file with
    | mk assembled outcome =>
      cases outcome with
      | error failure => exact ⟨failure,rfl⟩
      | ok words => exact absurd hbad ((resolved_variables (Session.assemble_eq_ok.mp hresult).1).marked_once name)

/-- Labels that are used before and after they are defined, between variables that are used again. -/
def loopSource : String := "@LOOP\n@x\n(LOOP)\n@y // next\nD=M\n@x\n@SP\n(END)\n@END\n0;JMP"

theorem loopSource_assembled : ∃ assembled,
    Session.new.assemble loopSource "loop.asm" = (assembled, .ok [2, 16, 17, 64528, 16, 0, 6, 60039]) ∧
      assembled.symbols.user = [("LOOP", 2), ("END", 6), ("x", 16), ("y", 17)] := by
  have h : (assembleLines (sourceLines loopSource "loop.asm")).toOption.map
      (fun result => (result.1.user, result.2)) =
        some ([("LOOP", 2), ("END", 6), ("x", 16), ("y", 17)], [2, 16, 17, 64528, 16, 0, 6, 60039]) := by
    decide +kernel
  obtain ⟨⟨symbols,words⟩,hlines,he⟩ := Option.map_eq_some_iff.mp h
  cases congrArg Prod.snd he
  exact ⟨⟨symbols,_⟩,Session.assemble_eq_ok.mpr ⟨Outcome.toOption_eq_some.mp hlines,rfl⟩,congrArg Prod.fst he⟩

theorem loop_is_resolved :
    (∃ assembled words, Session.new.assemble loopSource "loop.asm" = (assembled, .ok words) ∧
      assembled.symbols.user = [("LOOP", 2), ("END", 6), ("x", 16), ("y", 17)] ∧ assembled.words = words ∧
      Addressed (sourceLines loopSource "loop.asm") assembled.symbols words) ∧
    IsMarkedTwice (sourceLines "(A)\n0\n( A )" "twice.asm") "A" ∧
      ∃ failure, (Session.new.assemble "(A)\n0\n( A )" "twice.asm").2 = .error failure := by
  have htwice : IsMarkedTwice (sourceLines "(A)\n0\n( A )" "twice.asm") "A" :=
    ⟨⟨"(A)".toList,⟨"twice.asm",1,1⟩,"(A)"⟩,⟨"(A)".toList,⟨"twice.asm",3,1⟩,"( A )"⟩,by decide,by rfl,by rfl⟩
  refine ⟨?_,htwice,(symbols_are_resolved_exactly .new _ "twice.asm").2 "A" (.inl htwice)⟩
  obtain ⟨assembled,h,huser⟩ := loopSource_assembled
  obtain ⟨hwords,haddressed⟩ := (symbols_are_resolved_exactly .new loopSource "loop.asm").1 _ _ h
  exact ⟨assembled,_,h,huser,hwords,haddressed⟩

end HackToolchain.Asm
