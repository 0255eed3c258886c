import HackToolchain.Proofs.Emission
import HackToolchain.Proofs.Numerals

/-! # Writing to the end

A command that was read from a line and has passed the check of its access stands for an instruction, although the check
finds its segment by the text and the instruction by the command.  The numbers in the template of that instruction can
be printed, with one exception: a call also writes the number of words from its arguments up to its frame, which may
have a digit more than the longest numeral.  Such a call alone keeps a checked program from being written.
-/
namespace HackToolchain.Vm

open Text (IsShort)

/-- The third of three words on a line is shorter than the longest numeral if it is a row of digits. -/
def Line.hasShortIndex (line : Line) : Bool :=
  match line.words with
  | [_, _, index] => !index.text.all Text.isAsciiDigit || index.text.length < Text.maxNumeralDigits
  | _ => true

theorem Line.length_of_hasShortIndex {line : Line} {head name index : Text.Token} (hs : line.hasShortIndex = true)
    (hw : line.words = [head, name, index]) (hd : index.text.all Text.isAsciiDigit = true) :
    index.text.length < Text.maxNumeralDigits := by
  simpa [Line.hasShortIndex, hw, hd] using hs

/-- A command with all that its kind asks for. -/
structure Command.IsFormed (command : Command) : Prop where
  name : command.kind ≠ .ret → ∃ name, command.first = .ok name
  index : command.kind.hasSecond = true →
    ∃ index : Nat, command.second = .ok index ∧ Text.isPrintableInteger index = true
  operator : command.kind = .arithmetic → ∃ operator, command.operator = .ok operator

theorem Command.first_of_name {command : Command} {name : String} (hk : command.kind ≠ .ret)
    (hn : command.name = some name) : command.first = .ok name := by
  have hfirst : command.kind.hasFirst = true := by simp [Kind.hasFirst, hk]
  rw [Command.first, hfirst, hn]

theorem Command.second_of_index {command : Command} {index : Int} (hk : command.kind.hasSecond = true)
    (hi : command.index = some index) : command.second = .ok index := by
  rw [Command.second, hk, hi]

/-- The first word of a command is a keyword or an operator. -/
theorem kindOf?_eq_some {word : String} {kind : Kind} (h : kindOf? word = some kind) :
    (word, kind) ∈ Kind.keywords ∨ kind = .arithmetic ∧ ∃ operator, Operator.ofKeyword? word = some operator := by
  unfold kindOf? at h
  split at h
  next other hk =>
    cases h
    obtain ⟨before,after,hs,-⟩ := List.lookup_eq_some_iff.mp hk
    exact .inl (hs ▸ List.mem_append_right before List.mem_cons_self)
  next =>
    obtain ⟨operator,ho,rfl⟩ := Option.map_eq_some_iff.mp h
    exact .inr ⟨rfl,operator,ho⟩

/-- Only an operator announces an arithmetic command. -/
theorem exists_operator {word : String} (h : kindOf? word = some .arithmetic) :
    ∃ operator, Operator.ofKeyword? word = some operator := by
  have hnone : ∀ entry ∈ Kind.keywords, entry.2 ≠ .arithmetic := by decide
  obtain hk | ⟨-,ho⟩ := kindOf?_eq_some h
  · exact absurd rfl (hnone _ hk)
  · exact ho

theorem Line.numeral_lt {line : Line} {kind : Kind} {index : Text.Token} {value : Int}
    (h : line.numeral kind index = .ok value) : ∃ number : Nat, value = number ∧
      index.text.all Text.isAsciiDigit = true ∧ index.text.length ≤ Text.maxNumeralDigits ∧
      number < 10 ^ index.text.length := by
  unfold Line.numeral at h
  split at h
  next hd =>
    split at h
    next number hn =>
      cases h
      obtain ⟨hmax,hdenotes⟩ := Text.decimal_eq_ok.mp hn
      exact ⟨number,rfl,hd,hmax,hdenotes.lt_pow⟩
    next => cases h
  next => cases h

/-- What has been read is complete, and its number can be printed again. -/
theorem Line.isFormed_of_commandFrom {line : Line} {head : Text.Token} {arguments : List Text.Token}
    {command : Command} (h : line.commandFrom head arguments = .ok command) : command.IsFormed := by
  obtain ⟨hk,-,-,⟨ha,-,hn,-⟩ | ⟨ha,name,-,hn,-⟩ | ⟨ha,name,index,value,rfl,hn,hv,hi⟩⟩ := Line.commandFrom_eq_ok h
  · -- an operator is its own first argument
    have hfirst : command.kind = .arithmetic → command.first = .ok (String.ofList head.text) := by
      intro he
      exact Command.first_of_name (by simp [he]) (hn.trans (if_pos he))
    refine ⟨fun hr => ⟨_,hfirst ?_⟩,fun hsecond => ?_,fun he => ?_⟩
    · cases hkind : command.kind <;> simp_all [Kind.arity]
    · cases hkind : command.kind <;> simp_all [Kind.arity, Kind.hasSecond]
    · obtain ⟨operator,ho⟩ := exists_operator (he ▸ hk)
      exact ⟨operator,by simp [Command.operator, hfirst he, Operator.parse, ho, bind, Except.bind]⟩
  · refine ⟨fun hr => ⟨_,Command.first_of_name hr hn⟩,fun hsecond => ?_,fun he => ?_⟩
    · cases hkind : command.kind <;> simp_all [Kind.arity, Kind.hasSecond]
    · simp [he, Kind.arity] at ha
  · refine ⟨fun hr => ⟨_,Command.first_of_name hr hn⟩,fun hsecond => ?_,fun he => ?_⟩
    · obtain ⟨number,rfl,-,hmax,hlt⟩ := Line.numeral_lt hv
      exact ⟨number,Command.second_of_index hsecond hi,Text.isPrintableInteger_of_lt hmax hlt⟩
    · simp [he, Kind.arity] at ha

theorem Line.isShort_of_commandFrom {line : Line} (hs : line.hasShortIndex = true) {head : Text.Token}
    {arguments : List Text.Token} (hw : line.words = head :: arguments) {command : Command}
    (h : line.commandFrom head arguments = .ok command) {index : Int} (hi : command.second = .ok index) :
    ∃ number : Nat, index = number ∧ IsShort number := by
  have hindex := Command.index_of_second hi
  obtain ⟨-,-,-,⟨-,-,-,hnone⟩ | ⟨-,_,-,-,hnone⟩ | ⟨-,name,word,value,rfl,-,hv,hsome⟩⟩ := Line.commandFrom_eq_ok h
  · cases hnone.symm.trans hindex
  · cases hnone.symm.trans hindex
  · cases hsome.symm.trans hindex
    obtain ⟨number,rfl,hd,-,hlt⟩ := Line.numeral_lt hv
    exact ⟨number,rfl,_,length_of_hasShortIndex hs hw hd,hlt⟩

/-- A line that cannot be read is malformed, and the failure tells where, or its index is too long for a numeral. -/
theorem Line.commandFrom_eq_error {line : Line} {head : Text.Token} {arguments : List Text.Token}
    (hw : line.words = head :: arguments) {failure : Failure}
    (h : line.commandFrom head arguments = .error failure) :
    (∃ word ∈ line.words, ∃ fault, failure = line.fail word fault) ∨
      ∃ name index fault, arguments = [name,index] ∧ index.text.all Text.isAsciiDigit = true ∧
        Text.decimal index.text = .error fault ∧ failure = .numeral fault := by
  have hhead : head ∈ line.words := hw ▸ List.mem_cons_self
  unfold Line.commandFrom at h
  dsimp only at h
  split at h
  next =>
    cases h
    exact .inl ⟨head,hhead,_,rfl⟩
  next kind hk =>
    split at h
    next => cases h
    next => cases h
    next name index ha =>
      rcases Outcome.bind_eq_error.mp h with hv | ⟨value,-,hv⟩
      · unfold Line.numeral at hv
        split at hv
        next hd =>
          split at hv
          next => cases hv
          next fault hf =>
            cases hv
            exact .inr ⟨name,index,fault,rfl,hd,hf,rfl⟩
        next =>
          cases hv
          exact .inl ⟨index,by simp [hw],_,rfl⟩
      · cases hv
    next =>
      cases h
      exact .inl ⟨head,hhead,_,rfl⟩

theorem Line.exists_fault_of_commandFrom {line : Line} {head : Text.Token} {arguments : List Text.Token}
    (hs : line.hasShortIndex = true) (hw : line.words = head :: arguments) {failure : Failure}
    (h : line.commandFrom head arguments = .error failure) :
    ∃ word ∈ line.words, ∃ fault, failure = line.fail word fault := by
  rcases Line.commandFrom_eq_error hw h with hfault | ⟨name,index,fault,rfl,hd,hf,-⟩
  · exact hfault
  · have hm : index ∈ line.words := by simp [hw]
    rw [Text.decimal_of_isAsciiDigit (Text.isToken_of_mem_tokens hm).1 hd (length_of_hasShortIndex hs hw hd).le] at hf
    cases hf

/-- The numbers of an instruction can be printed, and a segment has the entry that is asked for. -/
def Instruction.IsPrintable : Instruction → Prop
  | .push segment index | .pop segment index => segment.admits index = true ∧ Text.isPrintableInteger index = true
  | .function _ count | .call _ count => Text.isPrintableInteger count = true
  | .operate _ | .label _ | .goto _ | .ifGoto _ | .ret => True

theorem access_eq {kind : Kind} (hk : kind = .push ∨ kind = .pop) (word : String) (index : Int)
    (position : Option Position) (line : Option String) : access kind word index position line = (do
      let segment ← Segment.parse word position line
      checkEntry kind segment index position line
      return segment) := if_pos hk

/-- What the check of a push or pop has found out. -/
theorem Command.entry_of_checkAccess {command : Command} (hk : command.kind = .push ∨ command.kind = .pop)
    {index : Int} (hi : command.second = .ok index) (h : command.checkAccess = .ok ()) :
    ∃ segment, command.segment = .ok segment ∧
      checkEntry command.kind segment index command.position command.text = .ok () := by
  rw [Command.checkAccess, if_pos hk] at h
  obtain ⟨word,hw,h⟩ := Outcome.bind_eq_ok.mp h
  obtain ⟨found,hf,h⟩ := Outcome.bind_eq_ok.mp h
  obtain ⟨_,ha,-⟩ := Outcome.bind_eq_ok.mp h
  cases hf.symm.trans hi
  rw [access_eq hk] at ha
  obtain ⟨segment,hs,ha⟩ := Outcome.bind_eq_ok.mp ha
  obtain ⟨_,hc,-⟩ := Outcome.bind_eq_ok.mp ha
  exact ⟨segment,Outcome.bind_eq_ok.mpr ⟨word,hw,hs⟩,hc⟩

/-- A command that is complete and has passed the check stands for an instruction. -/
theorem Command.IsFormed.exists_instruction {command : Command} (hf : command.IsFormed)
    (ha : command.checkAccess = .ok ()) :
    ∃ instruction, command.instruction = .ok instruction ∧ instruction.IsPrintable := by
  unfold Command.instruction
  cases hk : command.kind with
  | arithmetic =>
    obtain ⟨operator,ho⟩ := hf.operator hk
    exact ⟨.operate operator,Outcome.bind_eq_ok.mpr ⟨operator,ho,rfl⟩,trivial⟩
  | push =>
    obtain ⟨index,hi,hs⟩ := hf.index (by rw [hk]; rfl)
    obtain ⟨segment,hseg,hc⟩ := Command.entry_of_checkAccess (.inl hk) hi ha
    rw [hk] at hc
    refine ⟨.push segment index,Outcome.bind_eq_ok.mpr ⟨segment,hseg,?_⟩,(admits_of_checkEntry hc).2,hs⟩
    exact Outcome.bind_eq_ok.mpr ⟨index,hi,Outcome.bind_eq_ok.mpr ⟨(),hc,rfl⟩⟩
  | pop =>
    obtain ⟨index,hi,hs⟩ := hf.index (by rw [hk]; rfl)
    obtain ⟨segment,hseg,hc⟩ := Command.entry_of_checkAccess (.inr hk) hi ha
    rw [hk] at hc
    refine ⟨.pop segment index,Outcome.bind_eq_ok.mpr ⟨segment,hseg,?_⟩,(admits_of_checkEntry hc).2,hs⟩
    exact Outcome.bind_eq_ok.mpr ⟨index,hi,Outcome.bind_eq_ok.mpr ⟨(),hc,rfl⟩⟩
  | label | goto | ifGoto =>
    obtain ⟨name,hn⟩ := hf.name (by simp [hk])
    exact ⟨_,Outcome.bind_eq_ok.mpr ⟨name,hn,rfl⟩,trivial⟩
  | function | call =>
    obtain ⟨name,hn⟩ := hf.name (by simp [hk])
    obtain ⟨index,hi,hs⟩ := hf.index (by rw [hk]; rfl)
    exact ⟨_,Outcome.bind_eq_ok.mpr ⟨name,hn,Outcome.bind_eq_ok.mpr ⟨index,hi,rfl⟩⟩,hs⟩
  | ret => exact ⟨.ret,rfl,trivial⟩

theorem Command.second_of_call {command : Command} {name : String} {count : Int}
    (h : command.instruction = .ok (.call name count)) : command.second = .ok count := by
  unfold Command.instruction at h
  split at h
  case h_2 | h_3 =>
    obtain ⟨_,_,h⟩ := Outcome.bind_eq_ok.mp h
    obtain ⟨_,_,h⟩ := Outcome.bind_eq_ok.mp h
    obtain ⟨_,_,h⟩ := Outcome.bind_eq_ok.mp h
    cases h
  case h_7 =>
    obtain ⟨_,_,h⟩ := Outcome.bind_eq_ok.mp h
    obtain ⟨_,_,h⟩ := Outcome.bind_eq_ok.mp h
    cases h
  case h_8 =>
    obtain ⟨_,_,h⟩ := Outcome.bind_eq_ok.mp h
    obtain ⟨_,hi,h⟩ := Outcome.bind_eq_ok.mp h
    cases h
    exact hi
  case h_9 => cases h
  all_goals
    obtain ⟨_,_,h⟩ := Outcome.bind_eq_ok.mp h
    cases h

end HackToolchain.Vm

namespace HackToolchain.Compile

open Asm (Line)
open Vm (Command Instruction)

/-- Nothing is in the way of writing a piece. -/
def Piece.isWritable : Piece → Bool
  | .remark _ value => value.all Text.isPrintableInteger
  | .number => true
  | .code lines => lines.all Line.isPrintable
  | .refuse _ => false

/-- The lines that a piece leaves if it can be written. -/
def Piece.shown (comments : Bool) : Piece → List Line
  | .remark text none => if comments then [.comment text] else []
  | .remark text (some value) => if comments then [.comment s!"{text} {value}"] else []
  | .code lines => lines
  | .number | .refuse _ => []

/-- What is told where a piece cannot be written. -/
def Piece.obstacle : Piece → Failure
  | .refuse failure => failure
  | .remark _ _ | .number | .code _ => .numeral .tooLongToPrint

/-- A call is written to its end if both of its numbers can be printed. -/
theorem all_isWritable_callPieces (name : String) (arguments : Int) (number : Nat) :
    (callPieces name arguments number).all Piece.isWritable =
      (Text.isPrintableInteger arguments && Text.isPrintableInteger (arguments + frameWords)) := by
  simp [callPieces, Piece.isWritable, Line.isPrintable, callerRegisters, pushD, atSymbol, atNumber, setA, setD, setM,
    leapAlways, leap]

theorem all_isWritable_function (unit : Option String) (number : Nat) (name : String) (locals : Int) :
    (pieces unit number (.function name locals)).all Piece.isWritable = Text.isPrintableInteger locals := by
  have hlabel : (Line.label name).isPrintable = true := rfl
  have hzero : pushZero.all Line.isPrintable = true := rfl
  have hzeros : (List.replicate locals.toNat pushZero).all (fun block => block.all Line.isPrintable) = true :=
    List.all_eq_true.mpr fun block hm => (List.eq_of_mem_replicate hm).symm ▸ hzero
  simp only [pieces, Piece.isWritable, List.all_cons, List.all_nil, Option.all_some, hlabel, List.all_flatten, hzeros,
    Bool.and_true]

/-- Bounded entries have small addresses; constants are popped to none, but have the same code. -/
theorem isPrintable_fixed {segment : Vm.Segment} (hs : segment = .temp ∨ segment = .constant) {index : Nat}
    (h : segment.admits index = true) : Text.isPrintableInteger (Vm.Segment.tempStart + index) = true := by
  have hlt : index < 10 ^ 5 := by
    rcases hs with rfl | rfl
    · have hlast : (index : Int) ≤ 7 := of_decide_eq_true (Bool.and_eq_true_iff.mp h).2
      omega
    · have hlast : (index : Int) ≤ 32767 := of_decide_eq_true (Bool.and_eq_true_iff.mp h).2
      omega
  rw [Int.add_comm]
  exact Text.IsShort.isPrintableInteger_add ⟨5,by decide,hlt⟩ (by decide)

/-- A call for which the number of words from its arguments up to its frame is too long to print. -/
def isOverlong : Instruction → Bool
  | .call _ arguments => !Text.isPrintableInteger (arguments + frameWords)
  | .operate _ | .push _ _ | .pop _ _ | .label _ | .goto _ | .ifGoto _ | .function _ _ | .ret => false

/-- Inside a unit the template of an instruction can be written, but for such a call. -/
theorem all_isWritable_pieces (unit : String) (number : Nat) {instruction : Instruction} (h : instruction.IsPrintable) :
    (pieces (some unit) number instruction).all Piece.isWritable = !isOverlong instruction := by
  cases instruction with
  | operate operator => cases operator <;> rfl
  | push segment index =>
    obtain ⟨hentry,hindex⟩ := h
    cases segment with
    | temp => simp [pieces, pushPieces, Vm.Segment.base?, fixedPlace, Piece.isWritable, hindex,
        isPrintable_fixed (.inl rfl) hentry, isOverlong, Line.isPrintable, pushD, atSymbol, atNumber, setA, setD, setM]
    | _ => simp [pieces, pushPieces, Vm.Segment.base?, fixedPlace, Piece.isWritable, hindex, isOverlong, Line.isPrintable,
        pushD, atSymbol, atNumber, setA, setD, setM]
  | pop segment index =>
    obtain ⟨hentry,hindex⟩ := h
    cases segment with
    | temp => simp [pieces, popPieces, Vm.Segment.base?, fixedPlace, Piece.isWritable, hindex,
        isPrintable_fixed (.inl rfl) hentry, isOverlong, Line.isPrintable, popD, atSymbol, atNumber, setD, setM, setAM]
    | constant => simp [pieces, popPieces, Vm.Segment.base?, fixedPlace, Piece.isWritable, hindex,
        isPrintable_fixed (.inr rfl) hentry, isOverlong, Line.isPrintable, popD, atSymbol, atNumber, setD, setM, setAM]
    | _ => simp [pieces, popPieces, Vm.Segment.base?, fixedPlace, Piece.isWritable, hindex, isOverlong, Line.isPrintable,
        popD, atSymbol, atNumber, setA, setD, setM, setAM]
  | label name | goto name | ifGoto name => rfl
  | function name count => exact (all_isWritable_function (some unit) number name count).trans h
  | call name count =>
    have hcount : Text.isPrintableInteger count = true := h
    rw [pieces, all_isWritable_callPieces, hcount, isOverlong, Bool.true_and, Bool.not_not]
  | ret =>
    have hframe : Text.isPrintableInteger frameWords = true := by
      simpa using Text.isShort_zero.isPrintableInteger_add (by decide : frameWords < 10)
    simp [pieces, Piece.isWritable, returnCode, hframe, Line.isPrintable, callerRegisters, popD, atSymbol, atNumber,
      setA, setD, setM, setAM, leapAlways, leap, isOverlong]

/-- Inside a unit nothing is refused. -/
theorem refuse_notMem_pieces (unit : String) (number : Nat) (instruction : Instruction) (failure : Failure) :
    .refuse failure ∉ pieces (some unit) number instruction := by
  cases instruction with
  | operate operator => cases operator <;> simp [pieces, Vm.Operator.isComparison]
  | push segment index => cases segment <;> simp [pieces, pushPieces, Vm.Segment.base?, fixedPlace]
  | pop segment index => cases segment <;> simp [pieces, popPieces, Vm.Segment.base?, fixedPlace]
  | call name count => simp [pieces, callPieces]
  | _ => simp [pieces]

/-- Of a bootstrap only the stack base may be too long to print. -/
theorem all_isWritable_bootstrapPieces (stackBase : Int) (entry : String) (number : Nat) :
    (bootstrapPieces stackBase entry number).all Piece.isWritable = Text.isPrintableInteger stackBase := by
  have hzero : Text.isPrintableInteger 0 = true := Text.isShort_zero.isPrintableInteger
  have hframe : Text.isPrintableInteger (0 + frameWords) = true :=
    Text.isShort_zero.isPrintableInteger_add (by decide : frameWords < 10)
  have hcall : (callPieces entry 0 number).all Piece.isWritable = true := by
    rw [all_isWritable_callPieces, hzero, hframe]
    rfl
  simp only [bootstrapPieces, List.all_cons, hcall]
  simp [Piece.isWritable, Line.isPrintable, atSymbol, atNumber, setD, setM]

theorem refuse_notMem_bootstrapPieces (stackBase : Int) (entry : String) (number : Nat) (failure : Failure) :
    .refuse failure ∉ bootstrapPieces stackBase entry number := by
  simp [bootstrapPieces, callPieces]

namespace Writer

/-- A writer has gone on to write `lines` and has taken `taken` label numbers. -/
structure Added (before after : Writer) (lines : List Line) (taken : Nat) : Prop where
  lines : after.lines = before.lines ++ lines
  nextLabel : after.nextLabel = before.nextLabel + taken
  unit : after.unit = before.unit
  stackBase : after.stackBase = before.stackBase
  comments : after.comments = before.comments
  isOpen : after.isOpen = before.isOpen

theorem Added.refl (writer : Writer) : Added writer writer [] 0 := ⟨by simp,rfl,rfl,rfl,rfl,rfl⟩

theorem Added.trans {first second third : Writer} {xs ys : List Line} {m n : Nat} (hx : Added first second xs m)
    (hy : Added second third ys n) : Added first third (xs ++ ys) (m + n) := by
  refine ⟨?_,?_,hy.unit.trans hx.unit,hy.stackBase.trans hx.stackBase,hy.comments.trans hx.comments,
    hy.isOpen.trans hx.isOpen⟩
  · rw [hy.lines, hx.lines, List.append_assoc]
  · rw [hy.nextLabel, hx.nextLabel, Nat.add_assoc]

theorem emit_added {writer : Writer} (ho : writer.isOpen = true) (lines : List Line) :
    ∃ written, writer.emit lines = .ok written ∧ Added writer written lines 0 :=
  ⟨_,emit_of_isOpen ho lines,lines_emit (emit_of_isOpen ho lines),rfl,rfl,rfl,rfl,rfl⟩

/-- A writer that is open goes on from a piece that can be written. -/
theorem perform_added {writer : Writer} (ho : writer.isOpen = true) {piece : Piece} (hp : piece.isWritable = true) :
    ∃ written, writer.perform piece = .ok written ∧ Added writer written (piece.shown writer.comments) piece.taken := by
  cases piece with
  | remark text number =>
    have hr : ∃ remark, remarkText text number = .ok remark ∧
        (Piece.remark text number).shown writer.comments = if writer.comments then [.comment remark] else [] := by
      cases number with
      | none => exact ⟨text,rfl,rfl⟩
      | some value =>
        simp only [Piece.isWritable, Option.all_some] at hp
        rw [remarkText, if_pos hp]
        exact ⟨_,rfl,rfl⟩
    obtain ⟨remark,hr,hshown⟩ := hr
    simp only [perform]
    rw [hr, hshown]
    change ∃ written, (if writer.comments then writer.emit [.comment remark] else pure writer) = .ok written ∧ _
    split
    · exact emit_added ho _
    · exact ⟨writer,rfl,Added.refl writer⟩
  | number => exact ⟨_,rfl,(List.append_nil _).symm,rfl,rfl,rfl,rfl,rfl⟩
  | code lines =>
    simp only [Piece.isWritable] at hp
    simp only [perform, hp, if_true]
    exact emit_added ho lines
  | refuse failure => cases hp

theorem perform_of_not_isWritable (writer : Writer) {piece : Piece} (hp : piece.isWritable = false) :
    writer.perform piece = .error piece.obstacle := by
  cases piece with
  | remark text number =>
    cases number with
    | none => cases hp
    | some value =>
      simp only [Piece.isWritable, Option.all_some] at hp
      simp only [perform, remarkText, hp, Bool.false_eq_true, ↓reduceIte]
      rfl
  | number => cases hp
  | code lines =>
    simp only [Piece.isWritable] at hp
    simp only [perform, hp, Bool.false_eq_true, ↓reduceIte]
    rfl
  | refuse failure => rfl

/-- A writer that is open performs pieces up to the first that cannot be written, and fails for that one. -/
theorem performAll_added {writer : Writer} (ho : writer.isOpen = true) (pieces : List Piece) :
    Added writer (writer.performAll pieces).1 ((pieces.takeWhile Piece.isWritable).flatMap (Piece.shown writer.comments))
        ((pieces.takeWhile Piece.isWritable).map Piece.taken).sum ∧
      (writer.performAll pieces).2 =
        (pieces.find? (!·.isWritable)).elim (.ok ()) fun piece => .error piece.obstacle := by
  induction pieces generalizing writer with
  | nil => exact ⟨Added.refl writer,rfl⟩
  | cons piece rest ih =>
    cases hp : piece.isWritable with
    | false =>
      have hall : writer.performAll (piece :: rest) = (writer, .error piece.obstacle) := by
        rw [performAll, perform_of_not_isWritable writer hp]
      rw [hall, List.takeWhile_cons_of_neg (by simp [hp]), List.find?_cons_of_pos (by simp [hp])]
      exact ⟨Added.refl writer,rfl⟩
    | true =>
      obtain ⟨next,hn,hadded⟩ := perform_added ho hp
      have hall : writer.performAll (piece :: rest) = next.performAll rest := by rw [performAll, hn]
      obtain ⟨hrest,hok⟩ := ih (hadded.isOpen.trans ho)
      rw [hall, List.takeWhile_cons_of_pos hp, List.find?_cons_of_neg (by simp [hp])]
      rw [hadded.comments] at hrest
      exact ⟨hadded.trans hrest,hok⟩

theorem performAll_eq_ok {writer : Writer} (ho : writer.isOpen = true) (pieces : List Piece) :
    (writer.performAll pieces).2 = .ok () ↔ pieces.all Piece.isWritable = true := by
  rw [(performAll_added ho pieces).2]
  cases hf : pieces.find? (!·.isWritable) with
  | none => simpa using hf
  | some piece =>
    have hm := List.mem_of_find?_eq_some hf
    have hp : piece.isWritable = false := by simpa using List.find?_some hf
    simp only [Option.elim_some, reduceCtorEq, List.all_eq_true, false_iff]
    exact fun hall => by simp [hall piece hm] at hp

/-- Pieces of which none is refused are written to the end, unless a number is too long to print. -/
theorem performAll_outcome {writer : Writer} (ho : writer.isOpen = true) {pieces : List Piece}
    (hr : ∀ failure, .refuse failure ∉ pieces) : (writer.performAll pieces).2 =
      if pieces.all Piece.isWritable then .ok () else .error (.numeral .tooLongToPrint) := by
  cases hall : pieces.all Piece.isWritable with
  | true => exact (performAll_eq_ok ho pieces).mpr hall
  | false =>
    rw [(performAll_added ho pieces).2]
    cases hf : pieces.find? (!·.isWritable) with
    | none =>
      have hnone : pieces.all Piece.isWritable = true := by simpa using hf
      rw [hall] at hnone
      cases hnone
    | some piece =>
      have hm := List.mem_of_find?_eq_some hf
      cases piece with
      | refuse failure => exact absurd hm (hr failure)
      | remark text number | number | code lines => rfl

/-- Writing an instruction inside a unit fails for an overlong call only. -/
theorem write_outcome {writer : Writer} (ho : writer.isOpen = true) {unit : String} (hn : writer.unit = some unit)
    {instruction : Instruction} (h : instruction.IsPrintable) :
    (writer.write instruction).1.isOpen = true ∧ (writer.write instruction).1.unit = some unit ∧
      (writer.write instruction).2 = if isOverlong instruction then .error (.numeral .tooLongToPrint) else .ok () := by
  rw [write, hn]
  obtain ⟨hadded,-⟩ := performAll_added ho (pieces (some unit) writer.nextLabel instruction)
  refine ⟨hadded.isOpen.trans ho,hadded.unit.trans hn,?_⟩
  rw [performAll_outcome ho (refuse_notMem_pieces unit writer.nextLabel instruction),
    all_isWritable_pieces unit writer.nextLabel h]
  cases isOverlong instruction <;> rfl

end Writer

/-- A command that stands for an overlong call. -/
def isOverlongCommand (command : Command) : Bool := command.instruction.toOption.any isOverlong

namespace Emission

/-- Writing has come to its end with the writer still open, or to a number that is too long to print. -/
structure Ends (x : Emission × Except Failure Unit) (isCut : Bool) : Prop where
  isOpen : x.1.writer.isOpen = true
  outcome : x.2 = if isCut then .error (.numeral .tooLongToPrint) else .ok ()

theorem Ends.andThen {x : Emission × Except Failure Unit} {isCut isCutAfter : Bool} (hx : Ends x isCut)
    {f : Emission → Emission × Except Failure Unit} (hf : x.1.writer.isOpen = true → Ends (f x.1) isCutAfter) :
    Ends (andThen x f) (isCut || isCutAfter) := by
  obtain ⟨emission,outcome⟩ := x
  obtain ⟨ho,rfl⟩ : emission.writer.isOpen = true ∧
    outcome = if isCut then .error (.numeral .tooLongToPrint) else .ok () := ⟨hx.isOpen,hx.outcome⟩
  cases isCut with
  | true => exact ⟨ho,rfl⟩
  | false => exact hf ho

theorem command_ends {emission : Emission} (ho : emission.writer.isOpen = true) {unit : String}
    (hn : emission.writer.unit = some unit) {command : Command} (hf : command.IsFormed)
    (ha : command.checkAccess = .ok ()) :
    Ends (emission.command command) (isOverlongCommand command) ∧
      (emission.command command).1.writer.unit = some unit := by
  obtain ⟨instruction,hi,hp⟩ := hf.exists_instruction ha
  obtain ⟨hopen,hunit,houtcome⟩ := Writer.write_outcome ho hn hp
  have hlong : isOverlongCommand command = isOverlong instruction := by
    rw [isOverlongCommand, hi]
    rfl
  have hcommand : emission.writer.writeCommand command = emission.writer.write instruction := by
    rw [Writer.writeCommand, hi]
    rfl
  unfold Emission.command
  rw [hcommand, hlong]
  cases hw : emission.writer.write instruction with
  | mk written outcome =>
    rw [hw] at hopen hunit houtcome
    obtain rfl : outcome = _ := houtcome
    cases isOverlong instruction with
    | true => exact ⟨⟨hopen,rfl⟩,hunit⟩
    | false => exact ⟨⟨by simpa using hopen,rfl⟩,by simpa using hunit⟩

theorem commands_ends {emission : Emission} (ho : emission.writer.isOpen = true) {unit : String}
    (hn : emission.writer.unit = some unit) {commands : List Command}
    (hc : ∀ command ∈ commands, command.IsFormed ∧ command.checkAccess = .ok ()) :
    Ends (emission.commands commands) (commands.any isOverlongCommand) := by
  induction commands generalizing emission with
  | nil => exact ⟨ho,rfl⟩
  | cons command rest ih =>
    obtain ⟨⟨hf,ha⟩,hrest⟩ := List.forall_mem_cons.mp hc
    obtain ⟨he,hu⟩ := command_ends ho hn hf ha
    rw [commands_cons]
    exact he.andThen fun hopen => ih hopen hu hrest

theorem units_ends {emission : Emission} (ho : emission.writer.isOpen = true)
    {units : List (CompilationUnit × List Command)}
    (hc : ∀ entry ∈ units, ∀ command ∈ entry.2, command.IsFormed ∧ command.checkAccess = .ok ()) :
    Ends (emission.units units) (units.any fun entry => entry.2.any isOverlongCommand) := by
  induction units generalizing emission with
  | nil => exact ⟨ho,rfl⟩
  | cons entry rest ih =>
    obtain ⟨unit,body⟩ := entry
    obtain ⟨hfirst,hrest⟩ := List.forall_mem_cons.mp hc
    have hunit : Ends (emission.unit unit body) (body.any isOverlongCommand) := by
      refine commands_ends ?_ rfl hfirst
      exact ho
    rw [units_cons]
    exact hunit.andThen fun hopen => ih hopen hrest

theorem bootstrap_ends {emission : Emission} (ho : emission.writer.isOpen = true) (entry : String) :
    Ends (emission.bootstrap entry) (!Text.isPrintableInteger emission.writer.stackBase) := by
  obtain ⟨hadded,-⟩ :=
    Writer.performAll_added ho (bootstrapPieces emission.writer.stackBase entry emission.writer.nextLabel)
  have houtcome := Writer.performAll_outcome ho
    (refuse_notMem_bootstrapPieces emission.writer.stackBase entry emission.writer.nextLabel)
  have hopen := hadded.isOpen.trans ho
  rw [all_isWritable_bootstrapPieces] at houtcome
  unfold Emission.bootstrap Writer.writeBootstrap
  cases hw : emission.writer.performAll
      (bootstrapPieces emission.writer.stackBase entry emission.writer.nextLabel) with
  | mk written outcome =>
    rw [hw] at hopen houtcome
    generalize Text.isPrintableInteger emission.writer.stackBase = fits at houtcome
    obtain rfl : outcome = _ := houtcome
    cases fits with
    | true => exact ⟨by simpa using hopen,rfl⟩
    | false => exact ⟨hopen,rfl⟩

end Emission

/-- Some call of a program is overlong. -/
def Plan.isOverlong (plan : Plan) : Bool := plan.units.any fun entry => entry.2.any isOverlongCommand

/-- The bootstrap is to write a stack base that is too long to print. -/
def hasLongBase (options : Options) (units : List CompilationUnit) : Bool :=
  wantsBootstrap options units && !Text.isPrintableInteger options.stackBase

theorem hasLongBase_eq_false {options : Options} (h : Text.isPrintableInteger options.stackBase = true)
    (units : List CompilationUnit) : hasLongBase options units = false := by
  rw [hasLongBase, h, Bool.not_true, Bool.and_false]

/-- The code of a checked program is written to its end, unless the stack base is too long to print or one of the calls
is overlong. -/
theorem emit_ends {plan : Plan} {options : Options}
    (hc : ∀ entry ∈ plan.units, ∀ command ∈ entry.2, command.IsFormed ∧ command.checkAccess = .ok ()) :
    Emission.Ends (plan.emit options)
      (plan.bootstrap && !Text.isPrintableInteger options.stackBase || plan.isOverlong) := by
  rw [Emission.emit_eq]
  dsimp only
  cases plan.bootstrap with
  | true =>
    have hstart := @Emission.bootstrap_ends { writer := { comments := options.comments, stackBase := options.stackBase } }
      rfl options.entry
    rw [Bool.true_and]
    exact hstart.andThen fun hopen => Emission.units_ends hopen hc
  | false =>
    rw [Bool.false_and, Bool.false_or]
    refine Emission.units_ends ?_ hc
    rfl

theorem isFormed_of_mem_outcomes {unit : CompilationUnit} {command : Command} (h : .ok command ∈ unit.outcomes) :
    command.IsFormed := by
  obtain ⟨line,-,hl⟩ := List.mem_filterMap.mp h
  obtain ⟨head,arguments,-,hc⟩ := Vm.Line.exists_of_command? hl
  exact Vm.Line.isFormed_of_commandFrom hc

theorem isFormed_of_commands {unit : CompilationUnit} {commands : List Command} (h : unit.commands = .ok commands) :
    ∀ command ∈ commands, command.IsFormed :=
  fun _ hm => isFormed_of_mem_outcomes (mem_outcomes h hm)

theorem emit_ends_of_prepare {options : Options} {units : List CompilationUnit} {plan : Plan}
    (h : prepare options units = .ok plan) :
    Emission.Ends (plan.emit options) (hasLongBase options units || plan.isOverlong) := by
  obtain ⟨-,hc,hboot⟩ := units_of_prepare h
  rw [hasLongBase, ← hboot]
  apply emit_ends
  intro entry he command hm
  exact ⟨isFormed_of_commands (hc entry he) command hm,checkAccess_of_prepare h entry he command hm⟩

end HackToolchain.Compile
