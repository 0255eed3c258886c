import HackToolchain.Proofs.WriterRuns

/-! # Writes that fail

Most of what can be wrong with a request is found before anything is written, and then the writer is as it was.  Three
faults are found too late: an entry of a static segment outside every unit, a call with a number that is too long to
print, and a stack base that is too long.
-/
namespace HackToolchain.Vm

/-- A push or pop stays inside its segment. -/
def Instruction.HasEntry : Instruction → Prop
  | .push segment index | .pop segment index => segment.admits index = true
  | .operate _ | .label _ | .goto _ | .ifGoto _ | .function _ _ | .call _ _ | .ret => True

theorem Instruction.hasEntry_of_ofAccess {kind : Kind} {word : String} {index : Int} {position : Option Position}
    {line : Option String} {instruction : Instruction}
    (h : Instruction.ofAccess kind word index position line = .ok instruction) : instruction.HasEntry := by
  obtain ⟨segment,ha,h⟩ := Outcome.bind_eq_ok.mp h
  have hk : kind = .push ∨ kind = .pop := by
    by_contra hk
    cases (if_neg hk).symm.trans ha
  rw [access_eq hk] at ha
  obtain ⟨found,-,ha⟩ := Outcome.bind_eq_ok.mp ha
  obtain ⟨_,hc,ha⟩ := Outcome.bind_eq_ok.mp ha
  cases ha
  have hentry := (admits_of_checkEntry hc).2
  cases h
  split
  · exact hentry
  · exact hentry

theorem Command.hasEntry_of_instruction {command : Command} {instruction : Instruction}
    (h : command.instruction = .ok instruction) : instruction.HasEntry := by
  unfold Command.instruction at h
  split at h
  case h_2 | h_3 =>
    obtain ⟨segment,_,h⟩ := Outcome.bind_eq_ok.mp h
    obtain ⟨index,_,h⟩ := Outcome.bind_eq_ok.mp h
    obtain ⟨_,hc,h⟩ := Outcome.bind_eq_ok.mp h
    cases h
    exact (admits_of_checkEntry hc).2
  case h_7 | h_8 =>
    obtain ⟨_,_,h⟩ := Outcome.bind_eq_ok.mp h
    obtain ⟨_,_,h⟩ := Outcome.bind_eq_ok.mp h
    cases h
    trivial
  case h_9 =>
    cases h
    trivial
  all_goals
    obtain ⟨_,_,h⟩ := Outcome.bind_eq_ok.mp h
    cases h
    trivial

end HackToolchain.Vm

namespace HackToolchain.Compile

open Asm (Line)
open Vm (Instruction)

/-- An entry that is asked for has been checked. -/
theorem Order.hasEntry {order : Order} {instruction : Instruction} (h : order.instruction = .ok instruction) :
    instruction.HasEntry := by
  cases order with
  | command source => exact Vm.Command.hasEntry_of_instruction h
  | operator word =>
    obtain ⟨_,-,rfl⟩ := Outcome.map_eq_ok.mp h
    trivial
  | access kind segment index position line => exact Vm.Instruction.hasEntry_of_ofAccess h
  | operate _ | label _ | goto _ | ifGoto _ | function _ _ | call _ _ | ret =>
    cases h
    trivial

/-- An instruction that is begun and cannot be written to its end. -/
def isTorn (comments : Bool) (unit : Option String) : Instruction → Bool
  | .push .static index => comments && unit.isNone && Text.isPrintableInteger index
  | .pop .static index => unit.isNone && Text.isPrintableInteger index
  | .call _ arguments => !(Text.isPrintableInteger arguments && Text.isPrintableInteger (arguments + frameWords))
  | _ => false

def isStatic : Instruction → Bool
  | .push .static _ | .pop .static _ => true
  | _ => false

/-- A request that is begun and cannot be fulfilled. -/
def Request.isTorn (comments : Bool) (stackBase : Int) (unit : Option String) : Request → Bool
  | .enter _ => false
  | .bootstrap _ => comments && !Text.isPrintableInteger stackBase
  | .write order => order.instruction.toOption.any (Compile.isTorn comments unit)

/-- The lines that some pieces leave before the first that cannot be written. -/
def leftBy (comments : Bool) (pieces : List Piece) : List Line :=
  (pieces.takeWhile Piece.isWritable).flatMap (Piece.shown comments)

section Torn

variable {comments : Bool} {unit : Option String} {number : Nat}

theorem leftBy_of_unprintable {value : Int} (h : Text.isPrintableInteger value = false) (text : String)
    (rest : List Piece) : leftBy comments (.remark text (some value) :: rest) = [] := by
  rw [leftBy, List.takeWhile_cons_of_neg (by simp [Piece.isWritable, h])]
  rfl

/-- Outside every unit, only static entries have no place. -/
theorem all_isWritable_of_placed {instruction : Instruction} (hp : instruction.IsPrintable)
    (hu : unit = none → isStatic instruction = false) :
    (pieces unit number instruction).all Piece.isWritable = !isOverlong instruction := by
  cases unit with
  | some name => exact all_isWritable_pieces name number hp
  | none =>
    rw [← all_isWritable_pieces "" number hp]
    cases instruction with
    | push segment index | pop segment index =>
      cases segment with
      | static => cases hu rfl
      | _ => rfl
    | _ => rfl

/-- A request for an entry fails if its index is too long to print, and otherwise only outside every unit. -/
theorem isStatic_of_not_isWritable {instruction : Instruction}
    (hf : (pieces unit number instruction).all Piece.isWritable = false) (hp : instruction.IsPrintable)
    (hl : isOverlong instruction = false) : unit = none ∧ isStatic instruction = true := by
  by_contra h
  have hall : (pieces unit number instruction).all Piece.isWritable = !isOverlong instruction :=
    all_isWritable_of_placed hp fun hu => Bool.eq_false_iff.mpr fun hs => h ⟨hu,hs⟩
  rw [hf, hl] at hall
  cases hall

/-- An instruction that fails has left no line and taken no number, unless it was begun. -/
theorem leftBy_eq_nil_iff {instruction : Instruction} (he : instruction.HasEntry)
    (hf : (pieces unit number instruction).all Piece.isWritable = false) :
    leftBy comments (pieces unit number instruction) = [] ∧ labelsTaken instruction = 0 ↔
      isTorn comments unit instruction = false := by
  cases instruction with
  | push segment index =>
    cases hi : Text.isPrintableInteger index with
    | false =>
      refine iff_of_true ⟨leftBy_of_unprintable hi _ _,rfl⟩ ?_
      cases segment <;> simp [isTorn, hi]
    | true =>
      -- The name of a static entry is asked for after the comment has been written.
      obtain ⟨rfl,hs⟩ := isStatic_of_not_isWritable hf ⟨he,hi⟩ rfl
      cases segment <;> cases hs
      cases comments <;> simp [isTorn, hi, leftBy, pieces, pushPieces, Piece.isWritable, Piece.shown, labelsTaken,
        Vm.Segment.base?, fixedPlace]
  | pop segment index =>
    cases hi : Text.isPrintableInteger index with
    | false =>
      refine iff_of_true ⟨leftBy_of_unprintable hi _ _,rfl⟩ ?_
      cases segment <;> simp [isTorn, hi]
    | true =>
      obtain ⟨rfl,hs⟩ := isStatic_of_not_isWritable hf ⟨he,hi⟩ rfl
      cases segment <;> cases hs
      cases comments <;> simp [isTorn, hi, leftBy, pieces, popPieces, Piece.isWritable, Piece.shown, labelsTaken,
        Vm.Segment.base?, fixedPlace, popD, Line.isPrintable, atSymbol, setD, setAM]
  | function name locals =>
    rw [all_isWritable_function] at hf
    exact iff_of_true ⟨leftBy_of_unprintable hf _ _,rfl⟩ rfl
  | call name arguments =>
    -- A call takes a number before anything else.
    rw [pieces, all_isWritable_callPieces] at hf
    simp [isTorn, hf, labelsTaken]
  | operate _ | label _ | goto _ | ifGoto _ | ret =>
    cases (isStatic_of_not_isWritable hf trivial rfl).2

theorem not_isWritable_of_isTorn {instruction : Instruction} (h : isTorn comments unit instruction = true) :
    (pieces unit number instruction).all Piece.isWritable = false := by
  unfold isTorn at h
  split at h
  case h_1 index =>
    have hu : unit = none := by simp_all
    simp [hu, pieces, pushPieces, Piece.isWritable, Vm.Segment.base?, fixedPlace]
  case h_2 index =>
    have hu : unit = none := by simp_all
    simp [hu, pieces, popPieces, Piece.isWritable, Vm.Segment.base?, fixedPlace]
  case h_3 name arguments =>
    rw [pieces, all_isWritable_callPieces]
    exact (Bool.not_eq_true' _).mp h
  case h_4 => cases h

end Torn

namespace Request

variable {comments : Bool} {stackBase : Int} {unit : Option String} {number : Nat} {request : Request}

theorem isTorn_of_ok {order : Order} {instruction : Instruction} (h : order.instruction = .ok instruction) :
    (Request.write order).isTorn comments stackBase unit = Compile.isTorn comments unit instruction := by
  rw [isTorn, h]
  rfl

theorem isTorn_of_error {order : Order} {failure : Failure} (h : order.instruction = .error failure) :
    (Request.write order).isTorn comments stackBase unit = false := by
  rw [isTorn, h]
  rfl

/-- A request that fails has written nothing and taken no number, unless it was begun. -/
theorem written_eq_nil_iff (hf : request.isFulfilled stackBase unit number = false) :
    request.written comments stackBase unit number = [] ∧ request.begins stackBase = 0 ↔
      request.isTorn comments stackBase unit = false := by
  cases request with
  | enter name => cases hf
  | bootstrap entry =>
    rw [isFulfilled_bootstrap] at hf
    rw [written, pieces, bootstrapPieces, List.takeWhile_cons_of_pos rfl,
      List.takeWhile_cons_of_neg (by simp [Piece.isWritable, Line.isPrintable, atNumber, hf])]
    cases comments <;> simp [begins, instruction?, isTorn, hf, Piece.shown]
  | write order =>
    cases ho : order.instruction with
    | error failure =>
      rw [written, pieces_of_error ho, begins, instruction?_of_error ho, isTorn_of_error ho]
      exact iff_of_true ⟨rfl,rfl⟩ rfl
    | ok instruction =>
      rw [isFulfilled, pieces_of_ok ho] at hf
      rw [written, pieces_of_ok ho, begins, instruction?_of_ok ho, isTorn_of_ok ho]
      exact leftBy_eq_nil_iff (Order.hasEntry ho) hf

theorem not_isFulfilled_of_isTorn (h : request.isTorn comments stackBase unit = true) :
    request.isFulfilled stackBase unit number = false := by
  cases request with
  | enter name => cases h
  | bootstrap entry =>
    rw [isFulfilled_bootstrap]
    exact (Bool.not_eq_true' _).mp (Bool.and_eq_true_iff.mp h).2
  | write order =>
    cases ho : order.instruction with
    | error failure => cases (isTorn_of_error ho).symm.trans h
    | ok instruction =>
      rw [isFulfilled, pieces_of_ok ho]
      exact not_isWritable_of_isTorn ((isTorn_of_ok ho).symm.trans h)

end Request

/-- Everything a writer shows of itself is as it was. -/
structure Writer.Intact (before after : Writer) : Prop where
  text : after.text = before.text
  count : after.lines.length = before.lines.length
  nextLabel : after.nextLabel = before.nextLabel
  unit : after.unit = before.unit

theorem Writer.intact_iff {before after : Writer} {lines : List Line} {taken : Nat}
    (h : Added before after lines taken) : Intact before after ↔ lines = [] ∧ taken = 0 := by
  constructor
  · intro hintact
    have hcount := hintact.count
    have hlabel := hintact.nextLabel
    rw [h.lines, List.length_append] at hcount
    rw [h.nextLabel] at hlabel
    exact ⟨List.eq_nil_of_length_eq_zero (by omega),by omega⟩
  · rintro ⟨rfl,rfl⟩
    have hlines : after.lines = before.lines := by rw [h.lines, List.append_nil]
    exact ⟨congrArg Asm.render hlines,congrArg List.length hlines,h.nextLabel,h.unit⟩

/-- A request that fails is performed up to its first obstacle. -/
theorem Writer.answer_added {writer : Writer} (ho : writer.isOpen = true) {request : Request}
    (hf : (writer.answer request).2 ≠ .ok ()) :
    Added writer (writer.answer request).1
      (request.written writer.comments writer.stackBase writer.unit writer.nextLabel)
      (request.begins writer.stackBase) := by
  rcases writer.answer_cases request with ⟨name,rfl⟩ | ⟨-,ha⟩
  · exact absurd rfl hf
  · rw [ha, ← Request.sum_taken writer.stackBase writer.unit writer.nextLabel]
    exact (performAll_added ho _).1

/-- A request that fails leaves an open writer as it was, unless it is one of those that are found out too late.  Even
then nothing that was written before is lost, and the unit stays. -/
theorem failed_request_is_harmless_iff {writer : Writer} (ho : writer.isOpen = true) (request : Request) :
    (request.isTorn writer.comments writer.stackBase writer.unit = true → (writer.answer request).2 ≠ .ok ()) ∧
      ((writer.answer request).2 ≠ .ok () →
        (Writer.Intact writer (writer.answer request).1 ↔
          request.isTorn writer.comments writer.stackBase writer.unit = false) ∧
        (writer.answer request).1.unit = writer.unit ∧ writer.lines <+: (writer.answer request).1.lines) := by
  have hok := (Writer.answer_answered ho request).2
  refine ⟨?_,fun hf => ?_⟩
  · intro ht hanswer
    cases (Request.not_isFulfilled_of_isTorn ht).symm.trans (hok.mp hanswer)
  · have hadded := Writer.answer_added ho hf
    refine ⟨(Writer.intact_iff hadded).trans ?_,hadded.unit,_,hadded.lines.symm⟩
    exact Request.written_eq_nil_iff (Bool.eq_false_iff.mpr (mt hok.mpr hf))

/-- A run that ends outside every unit. -/
def unnamedRequests : List Request := [.bootstrap "Sys.init", .write (.operate .lt), .write (.label "END")]

/-- A constant cannot be popped, and this is known before anything is written. -/
theorem refused_pop_is_harmless :
    Writer.Intact ((Writer.starting true 256 none 1).run unnamedRequests)
      (((Writer.starting true 256 none 1).run unnamedRequests).answer
        (.write (.access .pop "constant" 0 none none))).1 := by
  have hrun := Writer.starting_answered true 256 none 1 unnamedRequests
  obtain ⟨-,hfailed⟩ := failed_request_is_harmless_iff hrun.isOpen (.write (.access .pop "constant" 0 none none))
  exact (hfailed (by decide +kernel)).1.mpr rfl

/-- A static variable has no name outside every unit, but half of the code that pops to it has been written when this is
found out. -/
theorem unnamed_pop_leaves_code :
    ((Writer.starting true 256 none 1).answer (.write (.access .pop "static" 0 none none))).2 ≠ .ok () ∧
      ((Writer.starting true 256 none 1).answer (.write (.access .pop "static" 0 none none))).1.text =
        "// pop static 0\n@SP\nAM=M-1\nD=M\n" := by
  decide +kernel

end HackToolchain.Compile
