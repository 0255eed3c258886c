import HackToolchain.Proofs.Streaming

/-! # Carets

A failure on a line of VM code tells the column of a word and shows the line with a caret under it.  The column is
counted on the line as it stands in the source, but the line is shown without the blanks before its first word.  So the
caret stands under the word if and only if the line is not indented, and too far to the right by the indent otherwise.
-/
namespace HackToolchain.Text

/-- A word of a text lies between the blanks at both ends. -/
theorem prefix_drop_of_trimmed {left text right word : List Char} {start : Nat} (hl : ∀ c ∈ left, isBlank c = true)
    (hr : ∀ c ∈ right, isBlank c = true) (hne : word ≠ []) (hw : ∀ c ∈ word, isBlank c = false)
    (hp : word <+: (left ++ (text ++ right)).drop start) :
    left.length ≤ start ∧ word <+: text.drop (start - left.length) := by
  obtain ⟨first,others,rfl⟩ := List.exists_cons_of_ne_nil hne
  have hfirst : isBlank first = false := hw first List.mem_cons_self
  have hhead : (left ++ (text ++ right))[start]? = some first := by
    obtain ⟨rest,he⟩ := hp
    rw [← List.head?_drop, ← he]
    rfl
  have hleft : left.length ≤ start := by
    by_contra hlt
    rw [List.getElem?_append_left (by omega)] at hhead
    rw [hl first (List.mem_of_getElem? hhead)] at hfirst
    cases hfirst
  refine ⟨hleft,?_⟩
  rw [List.getElem?_append_right hleft] at hhead
  have hinside : start - left.length < text.length := by
    by_contra hle
    rw [List.getElem?_append_right (by omega)] at hhead
    rw [hr first (List.mem_of_getElem? hhead)] at hfirst
    cases hfirst
  rw [List.drop_append, List.drop_eq_nil_of_le hleft, List.nil_append, List.drop_append_of_le_length hinside.le] at hp
  rcases List.prefix_or_prefix_of_prefix hp (List.prefix_append _ right) with hshort | ⟨more,hmore⟩
  · exact hshort
  · -- a word that goes on behind the text would go on with blanks
    rw [← hmore, List.prefix_append_right_inj] at hp
    cases more with
    | nil => exact ⟨[],by rw [List.append_nil, ← hmore, List.append_nil]⟩
    | cons c more =>
      have hblank := hr c (hp.subset List.mem_cons_self)
      rw [hw c (by rw [← hmore]; simp)] at hblank
      cases hblank

end HackToolchain.Text

namespace HackToolchain.Vm

open Text (Token)

namespace Line

/-- The number of blanks before the first word. -/
def indent (line : Line) : Nat := (line.chars.takeWhile Text.isBlank).length

theorem isPrefix_code (line : Line) : line.code <+: line.chars := by
  rcases Text.isCut_beforeComment line.chars with ⟨he,-⟩ | ⟨comment,he,-⟩
  · exact ⟨[],(List.append_nil _).trans he⟩
  · exact ⟨_,he.symm⟩

/-- A line with words: the indent, the text that is shown, and what is left out behind it. -/
theorem exists_parts {line : Line} (hw : line.words ≠ []) : ∃ blanks right,
    line.code = blanks ++ (line.text.toList ++ right) ∧ (∀ c ∈ blanks, Text.isBlank c = true) ∧
      (∀ c ∈ right, Text.isBlank c = true) ∧ blanks.length = line.indent := by
  obtain ⟨blanks,right,he,hblanks,hright,hfirst,-⟩ := Text.isTrimmed_trim line.code
  have htext : line.text.toList = Text.trim line.code := String.toList_ofList
  refine ⟨blanks,right,by rw [htext]; exact he,hblanks,hright,?_⟩
  have hne : line.text.toList ≠ [] := by
    rw [Ne, String.toList_eq_nil_iff, text_eq_empty_iff]
    exact hw
  obtain ⟨c,more,hc⟩ := List.exists_cons_of_ne_nil hne
  rw [← htext, hc] at he hfirst
  obtain ⟨comment,hchars⟩ := line.isPrefix_code
  rw [indent, ← hchars, he, List.append_assoc, List.takeWhile_append_of_pos hblanks, List.cons_append, List.cons_append,
    List.takeWhile_cons_of_neg (by simp [hfirst c rfl]), List.append_nil]

theorem word_on_code {line : Line} {word : Token} (h : word ∈ line.words) :
    word.text ≠ [] ∧ (∀ c ∈ word.text, Text.isBlank c = false) ∧ word.text <+: line.code.drop word.start := by
  obtain ⟨hne,hb,k,hk,hp⟩ := Text.tokensFrom_spec 0 line.code h
  rw [Nat.zero_add] at hk
  exact ⟨hne,hb,hk ▸ hp⟩

end Line

/-- The failures that show a line of a source: those of reading it as a whole, those that a scanner answers whatever it
has been asked before, and those of the check of pushes and pops in what was read. -/
inductive IsRaised (source file : String) (error : VmError) : Prop
  | parsed (h : parse source file = .error (.vm error))
  | answered (calls : List Call) (call : Call)
    (h : (((Scanner.ofSource source file).run calls).answer call).2 = .failed (.vm error))
    (showsLine : error.sourceLine ≠ none)
  | refused {commands : List Command} (hp : parse source file = .ok commands)
    (h : checkAccesses commands = .error (.vm error))

section Places

/-- The failure tells the column of a word and shows the line of the word. -/
def Blames (line : Line) (word : Token) (error : VmError) : Prop :=
  error.position = some (line.positionOf word) ∧ error.sourceLine = some line.text

/-- The failure blames a word of a line of the source. -/
def BlamesWordOf (source file : String) (error : VmError) : Prop :=
  ∃ line ∈ sourceLines source file, ∃ word ∈ line.words, Blames line word error

/-- The failure has the place and the line of the command. -/
def Command.IsBlamed (command : Command) (error : VmError) : Prop :=
  error.position = command.position ∧ error.sourceLine = command.text

theorem Command.isBlamed_of_first {command : Command} {error : VmError} (h : command.first = .error (.vm error)) :
    command.IsBlamed error := by
  unfold Command.first at h
  split at h <;> cases h
  exact ⟨rfl,rfl⟩

theorem Command.isBlamed_of_second {command : Command} {error : VmError} (h : command.second = .error (.vm error)) :
    command.IsBlamed error := by
  unfold Command.second at h
  split at h <;> cases h
  exact ⟨rfl,rfl⟩

theorem Command.isBlamed_of_checkAccess {command : Command} {error : VmError}
    (h : command.checkAccess = .error (.vm error)) : command.IsBlamed error := by
  unfold Command.checkAccess at h
  split at h
  next hkind =>
    rcases Outcome.bind_eq_error.mp h with h | ⟨segment,-,h⟩
    · exact Command.isBlamed_of_first h
    rcases Outcome.bind_eq_error.mp h with h | ⟨index,-,h⟩
    · exact Command.isBlamed_of_second h
    rcases Outcome.bind_eq_error.mp h with h | ⟨_,-,h⟩
    · rw [access_eq hkind] at h
      rcases Outcome.bind_eq_error.mp h with h | ⟨found,-,h⟩
      · unfold Segment.parse at h
        split at h <;> cases h
        exact ⟨rfl,rfl⟩
      rcases Outcome.bind_eq_error.mp h with h | ⟨_,-,h⟩
      · unfold checkEntry at h
        split_ifs at h <;> cases h <;> exact ⟨rfl,rfl⟩
      · cases h
    · cases h
  next => cases h

theorem Reply.of_eq_failed {α : Type} {reply : α → Reply} {result : Except Failure α} {failure : Failure}
    (hr : ∀ a, reply a ≠ .failed failure) (h : Reply.of reply result = .failed failure) : result = .error failure := by
  cases result with
  | ok a => exact absurd h (hr a)
  | error other => exact congrArg _ (Reply.failed.inj h)

variable {source file : String} {error : VmError}

theorem blames_of_outcome (h : .error (.vm error) ∈ outcomes source file) : BlamesWordOf source file error := by
  obtain ⟨line,hline,hc⟩ := List.mem_filterMap.mp h
  obtain ⟨head,arguments,hw,hfrom⟩ := Line.exists_of_command? hc
  rcases Line.commandFrom_eq_error hw hfrom with ⟨word,hword,fault,he⟩ | ⟨_,_,fault,-,-,-,he⟩
  · cases he
    exact ⟨line,hline,word,hword,rfl,rfl⟩
  · cases he

theorem blames_of_mapM {read : List (Except Failure Command)} (hr : read ⊆ outcomes source file)
    (h : read.mapM id = .error (.vm error)) : BlamesWordOf source file error := by
  rw [← Outcome.failure?_eq_some, Outcome.failure?_mapM] at h
  obtain ⟨outcome,hm,ho⟩ := List.exists_of_findSome?_eq_some h
  rw [id, Outcome.failure?_eq_some] at ho
  exact blames_of_outcome (ho ▸ hr hm)

/-- A failure at the place of a command blames the first word of its line. -/
theorem blames_of_command {command : Command} (hc : .ok command ∈ outcomes source file)
    (h : command.IsBlamed error) : BlamesWordOf source file error := by
  obtain ⟨line,hline,hl⟩ := List.mem_filterMap.mp hc
  obtain ⟨head,arguments,hw,hfrom⟩ := Line.exists_of_command? hl
  obtain ⟨-,hplace,hshown,-⟩ := Line.commandFrom_eq_ok hfrom
  exact ⟨line,hline,head,hw ▸ List.mem_cons_self,h.1.trans hplace,h.2.trans hshown⟩

theorem currentAmong_cases (file : String) (read : List (Except Failure Command)) :
    (∃ command, .ok command ∈ read ∧ currentAmong file read = .ok command) ∨
      ∃ cause position, currentAmong file read = .error (.vm ⟨cause,position,none⟩) := by
  cases hl : lastCommand? read with
  | none => exact .inr ⟨_,_,by rw [currentAmong, hl]; rfl⟩
  | some command =>
    obtain ⟨outcome,hm,ho⟩ := List.mem_filterMap.mp (List.mem_of_getLast? hl)
    exact .inl ⟨command,Outcome.toOption_eq_some.mp ho ▸ hm,by rw [currentAmong, hl]; rfl⟩

/-- What is asked of the command last read fails at the place of the command. -/
theorem blames_of_current {α : Type} (ask : Except Failure Command → Except Failure α)
    (hnone : ∀ failure, ask (.error failure) = .error failure)
    (hask : ∀ command error, ask (.ok command) = .error (.vm error) → command.IsBlamed error)
    {used : Nat} (h : ask (currentAmong file ((outcomes source file).take used)) = .error (.vm error))
    (hs : error.sourceLine ≠ none) : BlamesWordOf source file error := by
  rcases currentAmong_cases file ((outcomes source file).take used) with ⟨command,hm,hc⟩ | ⟨cause,position,hc⟩
  · rw [hc] at h
    exact blames_of_command (List.mem_of_mem_take hm) (hask command error h)
  · rw [hc, hnone] at h
    cases h
    exact absurd rfl hs

theorem blames_of_due {lineCount used : Nat} {call : Call}
    (h : call.due file lineCount (outcomes source file) used = .failed (.vm error)) (hs : error.sourceLine ≠ none) :
    BlamesWordOf source file error := by
  cases call with
  | more => cases h
  | advance | next =>
    rw [Call.due] at h
    cases ho : (outcomes source file)[used]? with
    | none =>
      rw [ho] at h
      cases h <;> exact absurd rfl hs
    | some outcome =>
      rw [ho] at h
      have hfailed := Reply.of_eq_failed (fun _ => Reply.noConfusion) h
      exact blames_of_outcome (hfailed ▸ List.mem_of_getElem? ho)
  | parse => exact blames_of_mapM (List.drop_subset _ _) (Reply.of_eq_failed (fun _ => Reply.noConfusion) h)
  | kind =>
    have hfailed := Reply.of_eq_failed (fun _ => Reply.noConfusion) h
    exact blames_of_current (Except.map _) (fun _ => rfl) (by rintro _ _ ⟨⟩) hfailed hs
  | current =>
    have hfailed := Reply.of_eq_failed (fun _ => Reply.noConfusion) h
    exact blames_of_current id (fun _ => rfl) (by rintro _ _ ⟨⟩) hfailed hs
  | first =>
    have hfailed := Reply.of_eq_failed (fun _ => Reply.noConfusion) h
    exact blames_of_current (·.bind Command.first) (fun _ => rfl) (fun _ _ => Command.isBlamed_of_first) hfailed hs
  | second =>
    have hfailed := Reply.of_eq_failed (fun _ => Reply.noConfusion) h
    exact blames_of_current (·.bind Command.second) (fun _ => rfl) (fun _ _ => Command.isBlamed_of_second) hfailed hs

theorem IsRaised.exists_blames (h : IsRaised source file error) : BlamesWordOf source file error := by
  cases h with
  | parsed h => exact blames_of_mapM (List.Subset.refl _) h
  | answered calls call h showsLine =>
    rw [(Scanner.reads_run source file calls).reply call] at h
    exact blames_of_due h showsLine
  | refused hp h =>
    rw [checkAccesses, ← Outcome.failure?_eq_some, Outcome.failure?_forM] at h
    obtain ⟨command,hm,hc⟩ := List.exists_of_findSome?_eq_some h
    obtain ⟨outcome,ho,he⟩ := Outcome.exists_of_mem_mapM hp hm
    exact blames_of_command (he ▸ ho) (Command.isBlamed_of_checkAccess (Outcome.failure?_eq_some.mp hc))

end Places

/-- The line as it is shown, indented by four. -/
def Line.shown (line : Line) : List Char := List.replicate 4 ' ' ++ line.text.toList

/-- How far the caret of a failure at a word is from the left. -/
def caretPlace (word : Token) : Nat := 4 + word.start

/-- How a failure at a word of a line is shown. -/
structure ShowsWord (line : Line) (word : Token) (error : VmError) : Prop where
  place : error.position = some ⟨line.file,line.number,word.start + 1⟩
  onLine : word.text ≠ [] ∧ word.text <+: line.chars.drop word.start
  message : (Failure.vm error).message = "\n".intercalate (error.diagnostic.headline ::
    String.ofList line.shown :: String.ofList (List.replicate (caretPlace word) ' ' ++ ['^']) :: error.diagnostic.advice)
  /-- Where the word stands in the line that is shown. -/
  onShown : line.indent ≤ word.start ∧ word.text <+: line.shown.drop (4 + (word.start - line.indent))
  underneath : caretPlace word = 4 + (word.start - line.indent) ↔ line.indent = 0
  /-- The caret points at what stands behind the word by the indent. -/
  pointedAt : line.shown[caretPlace word]? =
    (line.chars.take (line.indent + line.text.toList.length))[line.indent + word.start]?
  agreement : line.indent = 0 → line.shown[caretPlace word]? = line.chars[word.start]?

theorem indented_eq (text : String) : s!"    {text}" = String.ofList (List.replicate 4 ' ' ++ text.toList) := by
  apply String.toList_injective
  simp only [String.toList_ofList]
  change ("    " ++ text).toList = _
  rw [String.toList_append]
  rfl

theorem caret_eq (start : Nat) :
    Diagnostic.caret (start + 1) = String.ofList (List.replicate (4 + start) ' ' ++ ['^']) := by
  have hplace : 3 + ((start : Int) + 1).toNat = 4 + start := by omega
  rw [Diagnostic.caret, hplace]

theorem text_of_place {diagnostic : Diagnostic} {position : Position} {text : String}
    (hp : diagnostic.position = some position) (hs : diagnostic.sourceLine = some text) (hc : 0 < position.column) :
    diagnostic.text = "\n".intercalate (diagnostic.headline :: s!"    {text}" :: Diagnostic.caret position.column ::
      diagnostic.advice) := by
  simp only [Diagnostic.text, Diagnostic.excerpt, hp, hs, if_pos hc, List.cons_append, List.nil_append]

section Shown

variable {line : Line} {word : Token} {error : VmError}

theorem Blames.message_eq (h : Blames line word error) :
    (Failure.vm error).message = "\n".intercalate (error.diagnostic.headline :: String.ofList line.shown ::
      String.ofList (List.replicate (caretPlace word) ' ' ++ ['^']) :: error.diagnostic.advice) := by
  have hp : error.diagnostic.position = some ⟨line.file,line.number,word.start + 1⟩ := h.1
  have hs : error.diagnostic.sourceLine = some line.text := h.2
  have hc : 0 < (word.start : Int) + 1 := by omega
  have htext := text_of_place hp hs hc
  rw [indented_eq, caret_eq] at htext
  exact htext

theorem getElem?_shown (line : Line) (word : Token) :
    line.shown[caretPlace word]? = line.text.toList[word.start]? := by
  rw [Line.shown, caretPlace, List.getElem?_append_right (by simp)]
  simp

theorem Blames.showsWord (h : Blames line word error) (hm : word ∈ line.words) : ShowsWord line word error := by
  obtain ⟨hne,hblank,hcode⟩ := Line.word_on_code hm
  obtain ⟨comment,hchars⟩ := line.isPrefix_code
  have honLine : word.text <+: line.chars.drop word.start := by
    rw [← hchars, List.drop_append]
    exact hcode.trans (List.prefix_append _ _)
  obtain ⟨blanks,right,hparts,hblanks,hright,hindent⟩ := Line.exists_parts (List.ne_nil_of_mem hm)
  rw [hparts] at hcode hchars
  obtain ⟨hle,hshown⟩ := Text.prefix_drop_of_trimmed hblanks hright hne hblank hcode
  rw [hindent] at hle hshown
  have hdrop : line.shown.drop (4 + (word.start - line.indent)) = line.text.toList.drop (word.start - line.indent) := by
    rw [Line.shown, List.drop_append]
    simp
  have htake : line.chars.take (line.indent + line.text.toList.length) = blanks ++ line.text.toList := by
    rw [← hchars, ← hindent, ← List.length_append, ← List.append_assoc, List.append_assoc (blanks ++ _), List.take_left]
  have hpointed : line.shown[caretPlace word]? =
      (line.chars.take (line.indent + line.text.toList.length))[line.indent + word.start]? := by
    rw [htake, ← hindent, List.getElem?_append_right (by omega), getElem?_shown]
    simp
  refine ⟨h.1,⟨hne,honLine⟩,h.message_eq,⟨hle,hdrop ▸ hshown⟩,?_,hpointed,?_⟩
  · unfold caretPlace
    omega
  · intro hzero
    have hlt : word.start < line.text.toList.length := by
      have hlength := hshown.length_le
      have hpos := List.length_pos_of_ne_nil hne
      rw [List.length_drop] at hlength
      omega
    rw [hpointed, hzero, Nat.zero_add, Nat.zero_add, List.getElem?_take_of_lt hlt]

end Shown

/-- A failure on a line of a source tells the column of a word of the line and shows the line.  The caret stands under
the word if and only if the line is not indented. -/
theorem caret_is_under_word_iff {source file : String} {error : VmError} (h : IsRaised source file error) :
    ∃ line ∈ sourceLines source file, ∃ word ∈ line.words, ShowsWord line word error := by
  obtain ⟨line,hline,word,hword,hblames⟩ := h.exists_blames
  exact ⟨line,hline,word,hword,hblames.showsWord hword⟩

/-- A word in the place of an index, behind a tab and two spaces. -/
def strayIndex : VmError :=
  ⟨.malformed (.badNumeral .pop "x"),some ⟨"Main.vm",2,13⟩,some "pop  local x"⟩

theorem stray_index_is_shown : parse "push local 1 // one\n\tpop  local x" "Main.vm" = .error (.vm strayIndex) ∧
    ∃ line ∈ sourceLines "push local 1 // one\n\tpop  local x" "Main.vm", ∃ word ∈ line.words,
      ShowsWord line word strayIndex := by
  have hparse : parse "push local 1 // one\n\tpop  local x" "Main.vm" = .error (.vm strayIndex) :=
    Outcome.failure?_eq_some.mp (by decide +kernel)
  exact ⟨hparse,caret_is_under_word_iff (.parsed hparse)⟩

/-- An unknown command behind two spaces. -/
def indentedTypo : VmError :=
  ⟨.malformed (.unknownCommand "psh"),some ⟨"Main.vm",1,3⟩,some "psh constant 1"⟩

/-- The caret of an indented line stands under the third character of the word. -/
theorem indented_word_is_missed :
    parse "  psh constant 1" "Main.vm" = .error (.vm indentedTypo) ∧ "  psh constant 1".toList[2]? = some 'p' ∧
      "    psh constant 1".toList[4 + 2]? = some 'h' ∧
      (Failure.vm indentedTypo).message = "Main.vm:1:3: error: unknown command 'psh'\n    psh constant 1\n      ^\n" ++
        "hint: expected an arithmetic operator or one of: push, pop, label, goto, if-goto, function, call, return" := by
  refine ⟨?_,by decide,by decide,by decide +kernel⟩
  exact Outcome.failure?_eq_some.mp (by decide +kernel)

end HackToolchain.Vm
