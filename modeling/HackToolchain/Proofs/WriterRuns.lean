import Mathlib.Algebra.Ring.Int.Defs
import HackToolchain.Proofs.Assembling
import HackToolchain.Proofs.Writing

/-! # Runs of a writer

A writer is asked for one thing after the other and goes on after what fails.  What it writes depends on the past only
through its unit and the number of the next label.  Comparisons and calls take a number when they are begun, so the
labels that are made never meet again, although labels of the same spelling may be written because they were asked for.
-/
namespace HackToolchain.Compile

open Asm (Line)
open Vm (Command Instruction Kind Operator)

/-- What a writer can be asked to write. -/
inductive Order where
  | command (source : Command)
  | operator (word : String)
  | operate (sign : Operator)
  | access (kind : Kind) (segment : String) (index : Int) (position : Option Position) (line : Option String)
  | label (name : String)
  | goto (name : String)
  | ifGoto (name : String)
  | function (name : String) (locals : Int)
  | call (name : String) (arguments : Int)
  | ret

def Order.instruction : Order → Except Failure Instruction
  | .command source => source.instruction
  | .operator word => (Operator.parse word none none).map .operate
  | .operate sign => .ok (.operate sign)
  | .access kind segment index position line => Instruction.ofAccess kind segment index position line
  | .label name => .ok (.label name)
  | .goto name => .ok (.goto name)
  | .ifGoto name => .ok (.ifGoto name)
  | .function name locals => .ok (.function name locals)
  | .call name arguments => .ok (.call name arguments)
  | .ret => .ok .ret

/-- What a writer can be asked for while it is open. -/
inductive Request where
  | enter (unit : String)
  | bootstrap (entry : String)
  | write (order : Order)

namespace Writer

/-- A writer that has written nothing. -/
def starting (comments : Bool) (stackBase : Int) (unit : Option String) (number : Nat) : Writer :=
  { comments, stackBase, unit, nextLabel := number }

def obey (writer : Writer) : Order → Writer × Except Failure Unit
  | .command source => writer.writeCommand source
  | .operator word => writer.writeOperator word
  | .operate sign => writer.write (.operate sign)
  | .access kind segment index position line => writer.writeIfOk (Instruction.ofAccess kind segment index position line)
  | .label name => writer.write (.label name)
  | .goto name => writer.write (.goto name)
  | .ifGoto name => writer.write (.ifGoto name)
  | .function name locals => writer.write (.function name locals)
  | .call name arguments => writer.write (.call name arguments)
  | .ret => writer.write .ret

def answer (writer : Writer) : Request → Writer × Except Failure Unit
  | .enter unit => (writer.enterUnit unit, .ok ())
  | .bootstrap entry => writer.writeBootstrap entry
  | .write order => writer.obey order

def run (writer : Writer) (requests : List Request) : Writer :=
  requests.foldl (fun writer request => (writer.answer request).1) writer

theorem obey_eq (writer : Writer) (order : Order) : writer.obey order = writer.writeIfOk order.instruction := by
  cases order <;> simp only [obey, Order.instruction, writeIfOk, writeCommand, writeOperator]

theorem run_append (writer : Writer) (xs ys : List Request) : writer.run (xs ++ ys) = (writer.run xs).run ys :=
  List.foldl_append

end Writer

/-- The name that an instruction gives to its position, unless it cannot be written. -/
def spelledBy? : Instruction → Option String
  | .label name => some name
  | .function name locals => if Text.isPrintableInteger locals then some name else none
  | .operate _ | .push _ _ | .pop _ _ | .goto _ | .ifGoto _ | .call _ _ | .ret => none

namespace Request

def unitAfter (unit : Option String) : Request → Option String
  | .enter name => some name
  | .bootstrap _ | .write _ => unit

def pieces (stackBase : Int) (unit : Option String) (number : Nat) : Request → List Piece
  | .enter _ => []
  | .bootstrap entry => bootstrapPieces stackBase entry number
  | .write order =>
    match order.instruction with
    | .ok instruction => Compile.pieces unit number instruction
    | .error failure => [.refuse failure]

/-- The instruction that a request begins to write, if it gets that far.  The bootstrap is a call once the stack base
has been written. -/
def instruction? (stackBase : Int) : Request → Option Instruction
  | .enter _ => none
  | .bootstrap entry => if Text.isPrintableInteger stackBase then some (.call entry 0) else none
  | .write order => order.instruction.toOption

/-- The number of comparisons and calls that a request begins. -/
def begins (stackBase : Int) (request : Request) : Nat := (request.instruction? stackBase).elim 0 labelsTaken

/-- The labels that a request makes from a number. -/
def makes (stackBase : Int) (number : Nat) (request : Request) : List String :=
  (request.instruction? stackBase).elim [] (madeLabels number)

/-- The name of a label that is written because it was asked for. -/
def spells? (stackBase : Int) (request : Request) : Option String :=
  (request.instruction? stackBase).bind spelledBy?

/-- Nothing is in the way of a request. -/
def isFulfilled (stackBase : Int) (unit : Option String) (number : Nat) (request : Request) : Bool :=
  (request.pieces stackBase unit number).all Piece.isWritable

def written (comments : Bool) (stackBase : Int) (unit : Option String) (number : Nat) (request : Request) : List Line :=
  ((request.pieces stackBase unit number).takeWhile Piece.isWritable).flatMap (Piece.shown comments)

end Request

section Requests

variable {stackBase : Int} {unit : Option String} {number : Nat}

theorem sum_taken_of_notMem {pieces : List Piece} (h : .number ∉ pieces) : (pieces.map Piece.taken).sum = 0 := by
  induction pieces with
  | nil => rfl
  | cons piece rest ih =>
    obtain ⟨hpiece,hrest⟩ := not_or.mp (mt List.mem_cons.mpr h)
    have htaken : piece.taken = 0 := by
      cases piece with
      | number => exact absurd rfl hpiece
      | remark _ _ | code _ | refuse _ => rfl
    rw [List.map_cons, List.sum_cons, htaken, ih hrest]

theorem sum_taken_takeWhile {pieces : List Piece} (h : .number ∉ pieces) :
    ((pieces.takeWhile Piece.isWritable).map Piece.taken).sum = 0 :=
  sum_taken_of_notMem fun hm => h ((List.takeWhile_sublist _).subset hm)

/-- A call takes its number before anything else. -/
theorem sum_taken_callPieces (name : String) (arguments : Int) (number : Nat) :
    (((callPieces name arguments number).takeWhile Piece.isWritable).map Piece.taken).sum = 1 := by
  rw [callPieces, List.takeWhile_cons_of_pos rfl, List.map_cons, List.sum_cons, sum_taken_takeWhile (by simp)]
  rfl

theorem sum_taken_bootstrapPieces (stackBase : Int) (entry : String) (number : Nat) :
    (((bootstrapPieces stackBase entry number).takeWhile Piece.isWritable).map Piece.taken).sum =
      if Text.isPrintableInteger stackBase then 1 else 0 := by
  have hbase : (Piece.code [atNumber stackBase, setD (.copy .a), atSymbol "SP", setM (.copy .d)]).isWritable =
      Text.isPrintableInteger stackBase := by
    simp [Piece.isWritable, Line.isPrintable, atNumber, atSymbol, setD, setM]
  rw [bootstrapPieces, List.takeWhile_cons_of_pos rfl, List.map_cons, List.sum_cons]
  split
  next hp =>
    rw [List.takeWhile_cons_of_pos (hbase.trans hp), List.map_cons, List.sum_cons, sum_taken_callPieces]
    rfl
  next hp =>
    rw [List.takeWhile_cons_of_neg (by rwa [hbase])]
    rfl

/-- Comparisons and calls take a number in any case, and nothing else does. -/
theorem sum_taken_writable (unit : Option String) (number : Nat) (instruction : Instruction) :
    (((pieces unit number instruction).takeWhile Piece.isWritable).map Piece.taken).sum = labelsTaken instruction := by
  cases instruction with
  | operate operator => cases operator <;> rfl
  | push segment index =>
    apply sum_taken_takeWhile
    cases segment <;> cases unit <;> simp [pieces, pushPieces, Vm.Segment.base?, fixedPlace]
  | pop segment index =>
    apply sum_taken_takeWhile
    cases segment <;> cases unit <;> simp [pieces, popPieces, Vm.Segment.base?, fixedPlace]
  | call name arguments => exact sum_taken_callPieces name arguments number
  | label name | goto name | ifGoto name | function name locals | ret =>
    exact sum_taken_takeWhile (by simp [pieces])

theorem Request.sum_taken (stackBase : Int) (unit : Option String) (number : Nat) (request : Request) :
    (((request.pieces stackBase unit number).takeWhile Piece.isWritable).map Piece.taken).sum =
      request.begins stackBase := by
  cases request with
  | enter name => rfl
  | bootstrap entry =>
    refine (sum_taken_bootstrapPieces stackBase entry number).trans ?_
    unfold begins instruction?
    split <;> rfl
  | write order =>
    simp only [pieces, begins, instruction?]
    cases order.instruction with
    | error failure => rfl
    | ok instruction => exact sum_taken_writable unit number instruction

end Requests

section Labels

theorem linesOf_append (xs ys : List Piece) : linesOf (xs ++ ys) = linesOf xs ++ linesOf ys := List.flatMap_append

theorem count_labelsIn (name : String) (lines : List Line) :
    (labelsIn lines).count name = lines.count (.label name) := by
  induction lines with
  | nil => rfl
  | cons line rest ih =>
    rw [List.count_cons, ← ih]
    cases line with
    | label other => simp [labelsIn, List.count_cons]
    | comment text | load operand | compute instruction => simp [labelsIn]

/-- The comments between the pieces of code define nothing. -/
theorem labelsIn_shown (comments : Bool) (pieces : List Piece) :
    labelsIn (pieces.flatMap (Piece.shown comments)) = labelsIn (linesOf pieces) := by
  induction pieces with
  | nil => rfl
  | cons piece rest ih =>
    have hpiece : labelsIn (piece.shown comments) = labelsIn piece.lines := by
      cases piece with
      | remark text value => cases value <;> cases comments <;> rfl
      | number | code lines | refuse failure => rfl
    rw [linesOf, List.flatMap_cons, List.flatMap_cons, labelsIn_append, labelsIn_append, hpiece, ih]
    rfl

theorem takeWhile_prefix_dropLast {α : Type} {p : α → Bool} {xs : List α} (h : xs.all p = false) :
    xs.takeWhile p <+: xs.dropLast := by
  induction xs with
  | nil => cases h
  | cons x rest ih =>
    by_cases hx : p x = true
    · have hrest : rest.all p = false := by simpa [hx] using h
      have hne : rest ≠ [] := by
        rintro rfl
        cases hrest
      rw [List.takeWhile_cons_of_pos hx, List.dropLast_cons_of_ne_nil hne, List.prefix_cons_inj]
      exact ih hrest
    · rw [List.takeWhile_cons_of_neg hx]
      exact List.nil_prefix

/-- Labels stand in the last piece of a template, so what was not written to its end has none. -/
theorem labelsIn_unfinished {pieces : List Piece} (hl : labelsIn (linesOf pieces.dropLast) = [])
    (h : pieces.all Piece.isWritable = false) : labelsIn (linesOf (pieces.takeWhile Piece.isWritable)) = [] := by
  obtain ⟨rest,hrest⟩ := takeWhile_prefix_dropLast h
  rw [← hrest, linesOf_append, labelsIn_append] at hl
  exact (List.append_eq_nil_iff.mp hl).1

theorem labelsIn_dropLast (unit : Option String) (number : Nat) (instruction : Instruction) :
    labelsIn (linesOf (pieces unit number instruction).dropLast) = [] := by
  cases instruction with
  | operate operator => cases operator <;> rfl
  | push segment index => cases segment <;> cases unit <;> rfl
  | pop segment index => cases segment <;> cases unit <;> rfl
  | label name | goto name | ifGoto name | function name locals | call name arguments | ret => rfl

/-- The labels that an instruction writes: the one that was asked for and, if it is written to its end, those it
makes. -/
theorem labelsIn_writable (unit : Option String) (number : Nat) (instruction : Instruction) :
    labelsIn (linesOf ((pieces unit number instruction).takeWhile Piece.isWritable)) =
      (spelledBy? instruction).toList ++
        if (pieces unit number instruction).all Piece.isWritable then madeLabels number instruction else [] := by
  split
  next hf =>
    rw [List.takeWhile_eq_self_iff.mpr (List.all_eq_true.mp hf), labelsIn_pieces]
    cases instruction with
    | function name locals =>
      rw [all_isWritable_function] at hf
      rw [spelledBy?, if_pos hf]
      rfl
    | _ => rfl
  next hf =>
    rw [labelsIn_unfinished (labelsIn_dropLast unit number instruction) (Bool.eq_false_iff.mpr hf)]
    cases instruction with
    | label name => exact absurd rfl hf
    | function name locals =>
      rw [all_isWritable_function] at hf
      rw [spelledBy?, if_neg hf]
      rfl
    | _ => rfl

end Labels

namespace Request

theorem pieces_of_ok {order : Order} {instruction : Instruction} (h : order.instruction = .ok instruction)
    (stackBase : Int) (unit : Option String) (number : Nat) :
    (Request.write order).pieces stackBase unit number = Compile.pieces unit number instruction := by
  simp only [pieces, h]

theorem pieces_of_error {order : Order} {failure : Failure} (h : order.instruction = .error failure)
    (stackBase : Int) (unit : Option String) (number : Nat) :
    (Request.write order).pieces stackBase unit number = [.refuse failure] := by
  simp only [pieces, h]

theorem instruction?_of_ok {order : Order} {instruction : Instruction} (h : order.instruction = .ok instruction)
    (stackBase : Int) : (Request.write order).instruction? stackBase = some instruction := by
  rw [instruction?, h]
  rfl

theorem instruction?_of_error {order : Order} {failure : Failure} (h : order.instruction = .error failure)
    (stackBase : Int) : (Request.write order).instruction? stackBase = none := by
  rw [instruction?, h]
  rfl

theorem instruction?_bootstrap {stackBase : Int} (hb : Text.isPrintableInteger stackBase = true) (entry : String) :
    (Request.bootstrap entry).instruction? stackBase = some (.call entry 0) := by
  rw [instruction?, if_pos hb]

variable {stackBase : Int} {unit : Option String} {number : Nat} {request : Request}

/-- A request that makes labels spells none. -/
theorem spells?_of_makes {name : String} (h : name ∈ request.makes stackBase number) :
    request.spells? stackBase = none := by
  unfold makes at h
  unfold spells?
  cases hi : request.instruction? stackBase with
  | none => rfl
  | some instruction =>
    rw [hi] at h
    cases instruction with
    | label name | function name locals => cases h
    | _ => rfl

/-- A bootstrap is written to its end once it has come to its call. -/
theorem isFulfilled_bootstrap (stackBase : Int) (unit : Option String) (number : Nat) (entry : String) :
    (Request.bootstrap entry).isFulfilled stackBase unit number = Text.isPrintableInteger stackBase :=
  all_isWritable_bootstrapPieces stackBase entry number

theorem labelsIn_written (comments : Bool) (stackBase : Int) (unit : Option String) (number : Nat)
    (request : Request) : labelsIn (request.written comments stackBase unit number) =
      (request.spells? stackBase).toList ++
        if request.isFulfilled stackBase unit number then request.makes stackBase number else [] := by
  rw [written, labelsIn_shown]
  cases request with
  | enter name => rfl
  | bootstrap entry =>
    have hfulfilled := isFulfilled_bootstrap stackBase unit number entry
    by_cases hb : Text.isPrintableInteger stackBase = true
    · rw [List.takeWhile_eq_self_iff.mpr (List.all_eq_true.mp (hfulfilled.trans hb)), if_pos (hfulfilled.trans hb),
        spells?, makes, instruction?_bootstrap hb]
      rfl
    · have hnone : (Request.bootstrap entry).instruction? stackBase = none := by rw [instruction?, if_neg hb]
      rw [if_neg (hfulfilled ▸ hb), spells?, hnone]
      exact labelsIn_unfinished rfl (hfulfilled.trans (Bool.eq_false_iff.mpr hb))
  | write order =>
    cases ho : order.instruction with
    | error failure =>
      rw [isFulfilled, spells?, pieces_of_error ho, instruction?_of_error ho]
      rfl
    | ok instruction =>
      rw [isFulfilled, spells?, makes, pieces_of_ok ho, instruction?_of_ok ho]
      exact labelsIn_writable unit number instruction

end Request

section Runs

/-- What requests in a row write, if the first finds the unit `unit` and the label number `number`. -/
def writtenFrom (comments : Bool) (stackBase : Int) : Option String → Nat → List Request → List Line
  | _, _, [] => []
  | unit, number, request :: rest =>
    request.written comments stackBase unit number ++
      writtenFrom comments stackBase (request.unitAfter unit) (number + request.begins stackBase) rest

/-- The comparisons and calls that requests begin. -/
def begun (stackBase : Int) (requests : List Request) : Nat := (requests.map (Request.begins stackBase)).sum

def unitAfterAll (unit : Option String) (requests : List Request) : Option String :=
  requests.foldl Request.unitAfter unit

/-- The labels that requests make. -/
def madeBy (stackBase : Int) : Nat → List Request → List String
  | _, [] => []
  | number, request :: rest =>
    request.makes stackBase number ++ madeBy stackBase (number + request.begins stackBase) rest

/-- The labels made by those requests that are written to their end. -/
def finished (stackBase : Int) : Option String → Nat → List Request → List String
  | _, _, [] => []
  | unit, number, request :: rest =>
    (if request.isFulfilled stackBase unit number then request.makes stackBase number else []) ++
      finished stackBase (request.unitAfter unit) (number + request.begins stackBase) rest

variable {stackBase : Int} {unit : Option String} {number : Nat}

theorem begun_append (stackBase : Int) (xs ys : List Request) :
    begun stackBase (xs ++ ys) = begun stackBase xs + begun stackBase ys := by
  rw [begun, List.map_append, List.sum_append]
  rfl

theorem begun_cons (stackBase : Int) (request : Request) (rest : List Request) :
    begun stackBase (request :: rest) = request.begins stackBase + begun stackBase rest := by
  rw [begun, List.map_cons, List.sum_cons]
  rfl

theorem writtenFrom_append (comments : Bool) (stackBase : Int) (unit : Option String) (number : Nat)
    (xs ys : List Request) : writtenFrom comments stackBase unit number (xs ++ ys) =
      writtenFrom comments stackBase unit number xs ++
        writtenFrom comments stackBase (unitAfterAll unit xs) (number + begun stackBase xs) ys := by
  induction xs generalizing unit number with
  | nil => simp [writtenFrom, begun, unitAfterAll]
  | cons request rest ih =>
    rw [List.cons_append, writtenFrom, writtenFrom, ih, begun_cons, List.append_assoc, Nat.add_assoc]
    rfl

theorem finished_append (stackBase : Int) (unit : Option String) (number : Nat) (xs ys : List Request) :
    finished stackBase unit number (xs ++ ys) =
      finished stackBase unit number xs ++ finished stackBase (unitAfterAll unit xs) (number + begun stackBase xs) ys := by
  induction xs generalizing unit number with
  | nil => simp [finished, begun, unitAfterAll]
  | cons request rest ih =>
    rw [List.cons_append, finished, finished, ih, begun_cons, List.append_assoc, Nat.add_assoc]
    rfl

theorem finished_sublist (stackBase : Int) (unit : Option String) (number : Nat) (requests : List Request) :
    (finished stackBase unit number requests).Sublist (madeBy stackBase number requests) := by
  induction requests generalizing unit number with
  | nil => exact List.Sublist.refl _
  | cons request rest ih =>
    refine List.Sublist.append ?_ (ih _ _)
    split
    · exact List.Sublist.refl _
    · exact List.nil_sublist _

/-- The labels of a run are those that were asked for and those of what was written to its end. -/
theorem labelsIn_writtenFrom (comments : Bool) (stackBase : Int) (unit : Option String) (number : Nat)
    (requests : List Request) : (labelsIn (writtenFrom comments stackBase unit number requests)).Perm
      (requests.filterMap (Request.spells? stackBase) ++ finished stackBase unit number requests) := by
  induction requests generalizing unit number with
  | nil => exact List.Perm.refl _
  | cons request rest ih =>
    have hspells : (request :: rest).filterMap (Request.spells? stackBase) =
        (request.spells? stackBase).toList ++ rest.filterMap (Request.spells? stackBase) := by
      cases h : request.spells? stackBase <;> simp [h]
    rw [writtenFrom, labelsIn_append, Request.labelsIn_written, finished, hspells, List.append_assoc, List.append_assoc]
    refine List.Perm.append_left _ (((ih _ _).append_left _).trans ?_)
    rw [← List.append_assoc, ← List.append_assoc]
    exact List.perm_append_comm.append_right _

/-- The labels that requests make are those of the instructions that they begin. -/
theorem madeBy_eq (stackBase : Int) (number : Nat) (requests : List Request) : madeBy stackBase number requests =
    madeFrom number ((requests.filterMap (Request.instruction? stackBase)).map ("", ·)) := by
  induction requests generalizing number with
  | nil => rfl
  | cons request rest ih =>
    rw [madeBy, ih, Request.makes, Request.begins]
    cases h : request.instruction? stackBase with
    | none => simp [h]
    | some instruction => simp [h, madeFrom]

theorem begun_eq (stackBase : Int) (requests : List Request) : begun stackBase requests =
    allTaken ((requests.filterMap (Request.instruction? stackBase)).map ("", ·)) := by
  induction requests with
  | nil => rfl
  | cons request rest ih =>
    rw [begun_cons, ih, Request.begins]
    cases h : request.instruction? stackBase with
    | none => simp [h]
    | some instruction => simp [h, allTaken]

end Runs

namespace Writer

/-- A writer has answered requests in a row. -/
structure Answered (before after : Writer) (requests : List Request) : Prop where
  lines : after.lines = before.lines ++
    writtenFrom before.comments before.stackBase before.unit before.nextLabel requests
  nextLabel : after.nextLabel = before.nextLabel + begun before.stackBase requests
  unit : after.unit = unitAfterAll before.unit requests
  stackBase : after.stackBase = before.stackBase
  comments : after.comments = before.comments
  isOpen : after.isOpen = before.isOpen

theorem Answered.trans {first second third : Writer} {xs ys : List Request} (hx : Answered first second xs)
    (hy : Answered second third ys) : Answered first third (xs ++ ys) := by
  refine ⟨?_,?_,?_,hy.stackBase.trans hx.stackBase,hy.comments.trans hx.comments,hy.isOpen.trans hx.isOpen⟩
  · rw [hy.lines, hx.lines, hx.comments, hx.stackBase, hx.unit, hx.nextLabel, writtenFrom_append, List.append_assoc]
  · rw [hy.nextLabel, hx.nextLabel, hx.stackBase, begun_append, Nat.add_assoc]
  · rw [hy.unit, hx.unit, unitAfterAll, unitAfterAll, unitAfterAll, List.foldl_append]

/-- Apart from a change of the unit, a request is performed piece by piece. -/
theorem answer_cases (writer : Writer) (request : Request) :
    (∃ name, request = .enter name) ∨
      request.unitAfter = id ∧ writer.answer request =
        writer.performAll (request.pieces writer.stackBase writer.unit writer.nextLabel) := by
  cases request with
  | enter name => exact .inl ⟨name,rfl⟩
  | bootstrap entry => exact .inr ⟨rfl,rfl⟩
  | write order =>
    refine .inr ⟨rfl,?_⟩
    rw [answer, obey_eq]
    cases ho : order.instruction with
    | error failure => rw [Request.pieces_of_error ho]; rfl
    | ok instruction => rw [Request.pieces_of_ok ho]; rfl

theorem answer_answered {writer : Writer} (ho : writer.isOpen = true) (request : Request) :
    Answered writer (writer.answer request).1 [request] ∧ ((writer.answer request).2 = .ok () ↔
      request.isFulfilled writer.stackBase writer.unit writer.nextLabel = true) := by
  have hwritten : ∀ unit number, writtenFrom writer.comments writer.stackBase unit number [request] =
      request.written writer.comments writer.stackBase unit number := fun _ _ => List.append_nil _
  have hbegun : begun writer.stackBase [request] = request.begins writer.stackBase := by simp [begun]
  rcases writer.answer_cases request with ⟨name,rfl⟩ | ⟨hu,ha⟩
  · exact ⟨⟨(List.append_nil _).symm,rfl,rfl,rfl,rfl,rfl⟩,iff_of_true rfl rfl⟩
  · obtain ⟨hadded,-⟩ := performAll_added ho (request.pieces writer.stackBase writer.unit writer.nextLabel)
    rw [ha]
    refine ⟨⟨?_,?_,?_,hadded.stackBase,hadded.comments,hadded.isOpen⟩,performAll_eq_ok ho _⟩
    · rw [hwritten]
      exact hadded.lines
    · rw [hbegun, ← Request.sum_taken writer.stackBase writer.unit writer.nextLabel]
      exact hadded.nextLabel
    · exact hadded.unit.trans (congrFun hu writer.unit).symm

theorem run_answered {writer : Writer} (ho : writer.isOpen = true) (requests : List Request) :
    Answered writer (writer.run requests) requests := by
  induction requests generalizing writer with
  | nil => exact ⟨(List.append_nil _).symm,rfl,rfl,rfl,rfl,rfl⟩
  | cons request rest ih =>
    obtain ⟨hfirst,-⟩ := answer_answered ho request
    exact hfirst.trans (ih (hfirst.isOpen.trans ho))

end Writer

section Sites

variable {stackBase : Int} {unit : Option String} {number : Nat} {request : Request} {name : String}

theorem mem_shown {pieces : List Piece} {line : Line} (h : line ∈ linesOf pieces) (comments : Bool) :
    line ∈ pieces.flatMap (Piece.shown comments) := by
  obtain ⟨piece,hp,hl⟩ := List.mem_flatMap.mp h
  refine List.mem_flatMap.mpr ⟨piece,hp,?_⟩
  cases piece with
  | code lines => exact hl
  | remark _ _ | number | refuse _ => cases hl

/-- The code that makes a label goes to it. -/
theorem load_of_madeLabels {instruction : Instruction} (h : name ∈ madeLabels number instruction)
    (unit : Option String) : atSymbol name ∈ linesOf (pieces unit number instruction) := by
  cases instruction with
  | operate operator =>
    rw [madeLabels] at h
    split at h
    next hc =>
      obtain ⟨jump,hjump⟩ := operation_of_isComparison hc number
      have hmem : atSymbol name ∈ operation operator number := by
        rw [hjump, comparison]
        rcases List.mem_pair.mp h with rfl | rfl
        · simp
        · simp
      simpa [pieces, linesOf, Piece.lines, hc] using hmem
    next => cases h
  | call target arguments =>
    cases List.mem_singleton.mp h
    simp [pieces, callPieces, linesOf, Piece.lines]
  | _ => cases h

theorem Request.load_of_makes (h : name ∈ request.makes stackBase number)
    (hf : request.isFulfilled stackBase unit number = true) (comments : Bool) :
    atSymbol name ∈ request.written comments stackBase unit number := by
  rw [written, List.takeWhile_eq_self_iff.mpr (List.all_eq_true.mp hf)]
  apply mem_shown
  cases request with
  | enter other => cases h
  | bootstrap entry =>
    rw [makes, instruction?_bootstrap ((isFulfilled_bootstrap _ _ _ _).symm.trans hf), Option.elim_some] at h
    have hcall := load_of_madeLabels h unit
    rw [pieces, bootstrapPieces, linesOf, List.flatMap_cons, List.flatMap_cons]
    exact List.mem_append_right _ (List.mem_append_right _ hcall)
  | write order =>
    cases ho : order.instruction with
    | error failure =>
      rw [makes, instruction?_of_error ho] at h
      cases h
    | ok instruction =>
      rw [makes, instruction?_of_ok ho, Option.elim_some] at h
      rw [pieces_of_ok ho]
      exact load_of_madeLabels h unit

theorem Request.nodup_makes (stackBase : Int) (number : Nat) (request : Request) :
    (request.makes stackBase number).Nodup := by
  unfold makes
  cases request.instruction? stackBase with
  | none => exact List.nodup_nil
  | some instruction => exact nodup_madeLabels number instruction

/-- A label is defined once where it is made. -/
theorem Request.count_written (h : name ∈ request.makes stackBase number)
    (hf : request.isFulfilled stackBase unit number = true) (comments : Bool) :
    (request.written comments stackBase unit number).count (.label name) = 1 := by
  rw [← count_labelsIn, labelsIn_written, spells?_of_makes h, if_pos hf]
  exact List.count_eq_one_of_mem (nodup_makes stackBase number request) h

/-- What is begun is written to its end, but for a call with a number that is too long. -/
theorem Request.isFulfilled_of_begins (h : request.begins stackBase = 1) :
    request.isFulfilled stackBase unit number = true ∨ ∃ target arguments,
      request.instruction? stackBase = some (.call target arguments) ∧
        (Text.isPrintableInteger arguments && Text.isPrintableInteger (arguments + frameWords)) = false := by
  cases request with
  | enter other => cases h
  | bootstrap entry =>
    refine .inl ((isFulfilled_bootstrap stackBase unit number entry).trans ?_)
    by_contra hb
    rw [begins, instruction?, if_neg hb] at h
    cases h
  | write order =>
    cases ho : order.instruction with
    | error failure =>
      rw [begins, instruction?_of_error ho] at h
      cases h
    | ok instruction =>
      rw [begins, instruction?_of_ok ho] at h
      rw [isFulfilled, pieces_of_ok ho, instruction?_of_ok ho]
      cases instruction with
      | operate operator => exact .inl (by cases operator <;> rfl)
      | call target arguments =>
        rw [Compile.pieces, all_isWritable_callPieces]
        cases hp : Text.isPrintableInteger arguments && Text.isPrintableInteger (arguments + frameWords) with
        | true => exact .inl rfl
        | false => exact .inr ⟨target,arguments,rfl,hp⟩
      | _ => cases h

theorem nodup_madeBy (stackBase : Int) (number : Nat) (requests : List Request) :
    (madeBy stackBase number requests).Nodup := by
  rw [madeBy_eq]
  exact nodup_madeFrom number _

theorem apart_of_mem_madeBy {requests : List Request} (h : name ∈ madeBy stackBase number requests) :
    (∃ n < number + begun stackBase requests, IsNumbered n name) ∧ name ∉ Asm.SymbolTable.predefined.names ∧
      ∀ other index, name ≠ Vm.staticName other index := by
  rw [madeBy_eq] at h
  obtain ⟨n,instruction,-,hn,hm⟩ := exists_of_mem_madeFrom h
  obtain ⟨-,hnumbered⟩ := isNumbered_of_mem_madeLabels hm
  refine ⟨⟨n,by rwa [begun_eq],hnumbered⟩,hnumbered.not_predefined,?_⟩
  rintro other index rfl
  exact not_dot_of_mem_madeLabels hm (by simp [toList_staticName])

end Sites

/-- The labels that a run makes are told apart from all others, as far as the program does not spell them. -/
structure LabelsApart (comments : Bool) (stackBase : Int) (requests : List Request) : Prop where
  counter : ((Writer.starting comments stackBase none 1).run requests).nextLabel = 1 + begun stackBase requests
  distinct : (madeBy stackBase 1 requests).Nodup
  named : ∀ name ∈ madeBy stackBase 1 requests,
    (∃ number < ((Writer.starting comments stackBase none 1).run requests).nextLabel, IsNumbered number name) ∧
      name ∉ Asm.SymbolTable.predefined.names ∧ ∀ unit index, name ≠ Vm.staticName unit index
  /-- A comparison or call that is begun fails only if it is a call with a number that is too long. -/
  ended : ∀ xs request ys, requests = xs ++ request :: ys → request.begins stackBase = 1 →
    (((Writer.starting comments stackBase none 1).run xs).answer request).2 = .ok () ∨
      ∃ target arguments, request.instruction? stackBase = some (.call target arguments) ∧
        (Text.isPrintableInteger arguments && Text.isPrintableInteger (arguments + frameWords)) = false
  /-- A label is loaded and defined by the code that makes it, and defined elsewhere only where it is spelled. -/
  defined : ∀ xs request ys, requests = xs ++ request :: ys →
    (((Writer.starting comments stackBase none 1).run xs).answer request).2 = .ok () →
    ∀ name ∈ request.makes stackBase ((Writer.starting comments stackBase none 1).run xs).nextLabel,
      ∃ lines, (((Writer.starting comments stackBase none 1).run xs).answer request).1.lines =
          ((Writer.starting comments stackBase none 1).run xs).lines ++ lines ∧
        atSymbol name ∈ lines ∧ lines.count (.label name) = 1 ∧
        ((Writer.starting comments stackBase none 1).run requests).lines.count (.label name) =
          1 + (requests.filterMap (Request.spells? stackBase)).count name

namespace Writer

variable {comments : Bool} {stackBase : Int}

theorem starting_answered (comments : Bool) (stackBase : Int) (unit : Option String) (number : Nat)
    (requests : List Request) : Answered (starting comments stackBase unit number)
      ((starting comments stackBase unit number).run requests) requests := run_answered rfl requests

theorem lines_starting (unit : Option String) (number : Nat) (requests : List Request) :
    ((starting comments stackBase unit number).run requests).lines =
      writtenFrom comments stackBase unit number requests := (starting_answered _ _ _ _ requests).lines

theorem text_starting_append (unit : Option String) (number : Nat) (xs ys : List Request) :
    ((starting comments stackBase unit number).run (xs ++ ys)).text =
      ((starting comments stackBase unit number).run xs).text ++
        ((starting comments stackBase (unitAfterAll unit xs) (number + begun stackBase xs)).run ys).text := by
  rw [text, text, text, lines_starting, lines_starting, lines_starting, writtenFrom_append, Asm.render_append]

/-- What a request finds that comes after others. -/
theorem answer_run (xs : List Request) (request : Request) :
    ∃ unit, ((starting comments stackBase none 1).run xs).nextLabel = 1 + begun stackBase xs ∧
      unit = unitAfterAll none xs ∧
      (((starting comments stackBase none 1).run xs).answer request).1.lines =
        ((starting comments stackBase none 1).run xs).lines ++
          request.written comments stackBase unit (1 + begun stackBase xs) ∧
      ((((starting comments stackBase none 1).run xs).answer request).2 = .ok () ↔
        request.isFulfilled stackBase unit (1 + begun stackBase xs) = true) := by
  have hrun := starting_answered comments stackBase none 1 xs
  obtain ⟨hanswered,hok⟩ := answer_answered hrun.isOpen request
  rw [hrun.stackBase, hrun.unit, hrun.nextLabel] at hok
  refine ⟨_,hrun.nextLabel,rfl,?_,hok⟩
  have hlines := hanswered.lines
  rw [hrun.stackBase, hrun.unit, hrun.nextLabel, hrun.comments, writtenFrom, writtenFrom, List.append_nil] at hlines
  exact hlines

/-- A label that was written to its end is defined once besides the places where it is spelled. -/
theorem count_run {requests : List Request} {name : String} (h : name ∈ finished stackBase none 1 requests) :
    ((starting comments stackBase none 1).run requests).lines.count (.label name) =
      1 + (requests.filterMap (Request.spells? stackBase)).count name := by
  have hnodup := (nodup_madeBy stackBase 1 requests).sublist (finished_sublist stackBase none 1 requests)
  rw [lines_starting, ← count_labelsIn, (labelsIn_writtenFrom comments stackBase none 1 requests).count_eq,
    List.count_append, List.count_eq_one_of_mem hnodup h, Nat.add_comm]

end Writer

/-- In every run of a writer, comparisons and calls take numbers one after the other when they are begun.  So the labels
made from them are all different, and what is written depends on the past only through the unit and the number. -/
theorem made_labels_are_unique (comments : Bool) (stackBase : Int) (requests : List Request) :
    LabelsApart comments stackBase requests ∧
      ∀ unit number xs ys, ((Writer.starting comments stackBase unit number).run (xs ++ ys)).text =
        ((Writer.starting comments stackBase unit number).run xs).text ++
          ((Writer.starting comments stackBase (unitAfterAll unit xs) (number + begun stackBase xs)).run ys).text := by
  have hcounter : ((Writer.starting comments stackBase none 1).run requests).nextLabel = 1 + begun stackBase requests :=
    (Writer.starting_answered comments stackBase none 1 requests).nextLabel
  refine ⟨⟨hcounter,nodup_madeBy stackBase 1 requests,?_,?_,?_⟩,Writer.text_starting_append⟩
  · intro name hm
    rw [hcounter]
    exact apart_of_mem_madeBy hm
  · intro xs request ys _ hb
    obtain ⟨unit,-,-,-,hok⟩ := @Writer.answer_run comments stackBase xs request
    rw [hok]
    exact Request.isFulfilled_of_begins hb
  · intro xs request ys he ho name hm
    obtain ⟨unit,hnumber,hunit,hlines,hok⟩ := @Writer.answer_run comments stackBase xs request
    rw [hnumber] at hm
    have hf := hok.mp ho
    refine ⟨_,hlines,Request.load_of_makes hm hf comments,Request.count_written hm hf comments,Writer.count_run ?_⟩
    rw [he, finished_append, finished, ← hunit, if_pos hf]
    exact List.mem_append_right _ (List.mem_append_left _ hm)

/-- A run in which a label is spelled that was made before, and a call fails that has taken a number. -/
def mixedRequests : List Request :=
  [.enter "Main", .bootstrap "Sys.init", .write (.operator "eq"), .write (.label "EQ_TRUE_2"),
    .write (.call "f" (10 ^ 4300)), .write (.operate .gt)]

theorem mixed_labels_are_unique :
    ((Writer.starting true 256 none 1).run mixedRequests).nextLabel = 5 ∧
      ((Writer.starting true 256 none 1).run mixedRequests).lines.count (.label "EQ_TRUE_2") = 2 ∧
      ((Writer.starting true 256 none 1).run mixedRequests).lines.count (.label "GT_END_4") = 1 := by
  obtain ⟨⟨hcounter,-,-,-,hdefined⟩,-⟩ := made_labels_are_unique true 256 mixedRequests
  refine ⟨hcounter.trans (by decide +kernel),?_,?_⟩
  · obtain ⟨_,-,-,-,hcount⟩ := hdefined (mixedRequests.take 2) (.write (.operator "eq")) (mixedRequests.drop 3) rfl
      (by decide +kernel) "EQ_TRUE_2" (by decide +kernel)
    exact hcount.trans (by decide +kernel)
  · obtain ⟨_,-,-,-,hcount⟩ := hdefined (mixedRequests.take 5) (.write (.operate .gt)) [] rfl
      (by decide +kernel) "GT_END_4" (by decide +kernel)
    exact hcount.trans (by decide +kernel)

/-- A call whose last number is too long fails after it has taken a label number and loaded a label that it does not
come to define.  Another label may be spelled as one that is made. -/
theorem failed_call_takes_number :
    ((Writer.starting true 256 none 1).answer (.write (.call "f" (10 ^ 4300 - 1)))).2 ≠ .ok () ∧
      ((Writer.starting true 256 none 1).answer (.write (.call "f" (10 ^ 4300 - 1)))).1.nextLabel = 2 ∧
      atSymbol "RETURN_ADDRESS_1" ∈
        ((Writer.starting true 256 none 1).answer (.write (.call "f" (10 ^ 4300 - 1)))).1.lines ∧
      .label "RETURN_ADDRESS_1" ∉
        ((Writer.starting true 256 none 1).answer (.write (.call "f" (10 ^ 4300 - 1)))).1.lines ∧
      ((Writer.starting true 256 none 1).run [.write (.label "EQ_TRUE_1"), .write (.operate .eq)]).lines.count
        (.label "EQ_TRUE_1") = 2 := by
  decide +kernel

end HackToolchain.Compile
