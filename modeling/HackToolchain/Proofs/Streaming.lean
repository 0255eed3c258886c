import HackToolchain.Proofs.Grammar

/-! # Reading a source by calls

A scanner may be asked for its commands one by one or all at once, may be asked whether there are more, and may be asked
again for the command that it read last, in any order.  Whatever has been asked before, it goes on with the first line
that has not been read, and looking ahead makes no difference.  A failure uses up its line and nothing else.
-/
namespace HackToolchain.Vm

/-- What reading the lines of a source comes to, blank lines aside. -/
def outcomes (source file : String) : List (Except Failure Command) :=
  (sourceLines source file).filterMap Line.command?

/-- What a scanner can be asked. -/
inductive Call where
  | more | advance | next | parse | kind | first | second | current
  deriving DecidableEq, Repr

inductive Reply where
  | flag (value : Bool)
  | done
  | command (found : Command)
  | commands (found : List Command)
  | kind (found : Kind)
  | text (found : String)
  | number (found : Int)
  | ended
  | failed (failure : Failure)
  deriving DecidableEq, Repr

def Reply.of {α : Type} (reply : α → Reply) : Except Failure α → Reply
  | .ok a => reply a
  | .error failure => .failed failure

namespace Scanner

def answer (scanner : Scanner) : Call → Scanner × Reply
  | .more => (scanner.lookAhead, .flag scanner.hasMore)
  | .advance => (scanner.advance.1, .of (fun _ => .done) scanner.advance.2)
  | .next => (scanner.next.1, scanner.next.2.elim .ended (.of .command))
  | .parse => (scanner.rest.1, .of .commands scanner.rest.2)
  | .kind => (scanner, .of .kind (scanner.current.map (·.kind)))
  | .first => (scanner, .of .text (scanner.current.bind Command.first))
  | .second => (scanner, .of .number (scanner.current.bind Command.second))
  | .current => (scanner, .of .command scanner.current)

def run (scanner : Scanner) (calls : List Call) : Scanner :=
  calls.foldl (fun scanner call => (scanner.answer call).1) scanner

def replies (scanner : Scanner) : List Call → List Reply
  | [] => []
  | call :: rest => (scanner.answer call).2 :: (scanner.answer call).1.replies rest

end Scanner

section Consumption

/-- The number of outcomes up to and including the first failure. -/
def untilFailure : List (Except Failure Command) → Nat
  | [] => 0
  | .ok _ :: rest => untilFailure rest + 1
  | .error _ :: _ => 1

/-- How many of the outcomes that are left a call consumes. -/
def Call.taken (left : List (Except Failure Command)) : Call → Nat
  | .advance | .next => min 1 left.length
  | .parse => untilFailure left
  | .more | .kind | .first | .second | .current => 0

/-- How many outcomes have been consumed after some calls, `used` of them before. -/
def consumedFrom (all : List (Except Failure Command)) (used : Nat) (calls : List Call) : Nat :=
  calls.foldl (fun used call => used + call.taken (all.drop used)) used

def consumed (all : List (Except Failure Command)) (calls : List Call) : Nat := consumedFrom all 0 calls

/-- The last command among some outcomes. -/
def lastCommand? (read : List (Except Failure Command)) : Option Command := (read.filterMap Except.toOption).getLast?

/-- The command last read, when there is one. -/
def currentAmong (file : String) (read : List (Except Failure Command)) : Except Failure Command :=
  (lastCommand? read).elim (.error (.vm ⟨.missingArgument .noCurrentCommand, some ⟨file, 0, 0⟩, none⟩)) .ok

def noMore (file : String) (lineCount : Nat) : Failure :=
  .vm ⟨.malformed .noMoreCommands, some ⟨file, lineCount, 0⟩, none⟩

/-- What a call is to be answered once `used` of all outcomes have been consumed. -/
def Call.due (file : String) (lineCount : Nat) (all : List (Except Failure Command)) (used : Nat) : Call → Reply
  | .more => .flag (used < all.length)
  | .advance => all[used]?.elim (.failed (noMore file lineCount)) (.of fun _ => .done)
  | .next => all[used]?.elim .ended (.of .command)
  | .parse => .of .commands ((all.drop used).mapM id)
  | .kind => .of .kind ((currentAmong file (all.take used)).map (·.kind))
  | .first => .of .text ((currentAmong file (all.take used)).bind Command.first)
  | .second => .of .number ((currentAmong file (all.take used)).bind Command.second)
  | .current => .of .command (currentAmong file (all.take used))

theorem lastCommand?_append (xs ys : List (Except Failure Command)) :
    lastCommand? (xs ++ ys) = (lastCommand? ys).or (lastCommand? xs) := by
  rw [lastCommand?, List.filterMap_append, List.getLast?_append]
  rfl

theorem untilFailure_le (left : List (Except Failure Command)) : untilFailure left ≤ left.length := by
  induction left with
  | nil => exact Nat.le_refl _
  | cons outcome rest ih =>
    cases outcome with
    | ok command => exact Nat.succ_le_succ ih
    | error failure => exact Nat.succ_le_succ (Nat.zero_le _)

theorem Call.taken_le (call : Call) (left : List (Except Failure Command)) : call.taken left ≤ left.length := by
  cases call with
  | advance | next => exact Nat.min_le_right _ _
  | parse => exact untilFailure_le left
  | more | kind | first | second | current => exact Nat.zero_le _

theorem le_consumedFrom (all : List (Except Failure Command)) (used : Nat) (calls : List Call) :
    used ≤ consumedFrom all used calls := by
  induction calls generalizing used with
  | nil => exact Nat.le_refl _
  | cons call rest ih => exact Nat.le_trans (Nat.le_add_right _ _) (ih _)

theorem consumed_append (all : List (Except Failure Command)) (xs ys : List Call) :
    consumed all (xs ++ ys) = consumedFrom all (consumed all xs) ys := List.foldl_append

end Consumption

namespace Scanner

/-- What reading on comes to. -/
def toCome (scanner : Scanner) : List (Except Failure Command) :=
  scanner.pending.toList.map FullLine.outcome ++ scanner.upcoming.filterMap Line.command?

/-- A scanner has gone on and has consumed `read`. -/
structure Went (before after : Scanner) (read : List (Except Failure Command)) : Prop where
  toCome : before.toCome = read ++ after.toCome
  current? : after.current? = (lastCommand? read).or before.current?
  file : after.file = before.file
  lineCount : after.lineCount = before.lineCount

theorem Went.refl (scanner : Scanner) : Went scanner scanner [] := ⟨rfl,rfl,rfl,rfl⟩

theorem Went.trans {first second third : Scanner} {xs ys : List (Except Failure Command)} (hx : Went first second xs)
    (hy : Went second third ys) : Went first third (xs ++ ys) := by
  refine ⟨?_,?_,hy.file.trans hx.file,hy.lineCount.trans hx.lineCount⟩
  · rw [hx.toCome, hy.toCome, List.append_assoc]
  · rw [hy.current?, hx.current?, lastCommand?_append, Option.or_assoc]

theorem command?_of_full (line : FullLine) : line.val.command? = some line.outcome := by
  obtain ⟨head,arguments,hw⟩ := List.exists_cons_of_ne_nil line.property
  simp only [Line.command?, FullLine.outcome, hw, List.head_cons, List.tail_cons]

/-- Lines begin with blank ones, and go on with the first that is not, if there is one. -/
theorem filterMap_command? (lines : List Line) : lines.filterMap Line.command? =
    (firstFull? lines).elim [] fun found => found.1.outcome :: found.2.filterMap Line.command? := by
  induction lines with
  | nil => rfl
  | cons line rest ih =>
    unfold firstFull?
    split
    next hw =>
      have hblank : line.command? = none := by simp only [Line.command?, hw]
      rw [List.filterMap_cons_none hblank, ih]
    next hw => rw [List.filterMap_cons_some (command?_of_full ⟨line,hw⟩), Option.elim_some]

/-- Looking ahead consumes nothing. -/
theorem lookAhead_went (scanner : Scanner) : Went scanner scanner.lookAhead [] := by
  unfold lookAhead
  split
  next => exact .refl scanner
  next hp =>
    have hlines := filterMap_command? scanner.upcoming
    split
    next hf =>
      rw [hf] at hlines
      refine ⟨?_,rfl,rfl,rfl⟩
      simpa [toCome, hp] using hlines
    next hf =>
      rw [hf] at hlines
      refine ⟨?_,rfl,rfl,rfl⟩
      simpa [toCome, hp] using hlines

/-- A scanner that has looked ahead has found the next outcome, or nothing is left. -/
theorem toCome_lookAhead (scanner : Scanner) : scanner.lookAhead.toCome = scanner.lookAhead.pending.elim [] fun line =>
    line.outcome :: scanner.lookAhead.upcoming.filterMap Line.command? := by
  cases hp : scanner.lookAhead.pending with
  | some line => simp [toCome, hp]
  | none =>
    have hnone : scanner.lookAhead.upcoming = [] := by
      unfold lookAhead at hp ⊢
      split at hp
      next hs =>
        rw [hs] at hp
        cases hp
      next hs =>
        split at hp
        next => cases hp
        next => simp
    simp [toCome, hp, hnone]

theorem toCome_cases (scanner : Scanner) :
    (scanner.toCome = [] ∧ scanner.lookAhead.pending = none) ∨ ∃ line, scanner.lookAhead.pending = some line ∧
      scanner.toCome = line.outcome :: scanner.lookAhead.upcoming.filterMap Line.command? := by
  have hkept : scanner.toCome = scanner.lookAhead.toCome := scanner.lookAhead_went.toCome
  rw [hkept, toCome_lookAhead]
  cases scanner.lookAhead.pending with
  | none => exact .inl ⟨rfl,rfl⟩
  | some line => exact .inr ⟨line,rfl,rfl⟩

theorem hasMore_eq (scanner : Scanner) : scanner.hasMore = !scanner.toCome.isEmpty := by
  rcases scanner.toCome_cases with ⟨ht,hp⟩ | ⟨line,hp,ht⟩
  · rw [hasMore, hp, ht]
    rfl
  · rw [hasMore, hp, ht]
    rfl

theorem advance_of_nil {scanner : Scanner} (h : scanner.toCome = []) :
    scanner.advance = (scanner.lookAhead, .error (noMore scanner.file scanner.lineCount)) := by
  rcases scanner.toCome_cases with ⟨-,hp⟩ | ⟨line,-,ht⟩
  · simp only [advance, hp, noMore, scanner.lookAhead_went.file, scanner.lookAhead_went.lineCount]
  · rw [h] at ht
    cases ht

/-- Reading a command consumes one outcome, a failure too. -/
theorem advance_of_cons {scanner : Scanner} {outcome : Except Failure Command} {left : List (Except Failure Command)}
    (h : scanner.toCome = outcome :: left) : scanner.advance.2 = outcome ∧ Went scanner scanner.advance.1 [outcome] := by
  have hahead := scanner.lookAhead_went
  rcases scanner.toCome_cases with ⟨ht,-⟩ | ⟨line,hp,ht⟩
  · rw [h] at ht
    cases ht
  · obtain ⟨rfl,-⟩ := List.cons.inj (h.symm.trans ht)
    unfold advance
    simp only [hp]
    cases ho : line.outcome with
    | ok command => exact ⟨rfl,by rw [ht, ho]; rfl,rfl,hahead.file,hahead.lineCount⟩
    | error failure => exact ⟨rfl,by rw [ht, ho]; rfl,hahead.current?,hahead.file,hahead.lineCount⟩

theorem next_of_nil {scanner : Scanner} (h : scanner.toCome = []) : scanner.next = (scanner.lookAhead, none) := by
  rw [next, hasMore_eq, h]
  rfl

theorem next_of_cons {scanner : Scanner} {outcome : Except Failure Command} {left : List (Except Failure Command)}
    (h : scanner.toCome = outcome :: left) : scanner.next = (scanner.advance.1, some outcome) := by
  rw [next, hasMore_eq, h, ← (advance_of_cons h).1]
  rfl

/-- Reading all that remains stops at the first failure, which is consumed as well. -/
theorem restFrom_spec (scanner : Scanner) (found : List Command) :
    (scanner.restFrom found).2 = (scanner.toCome.mapM id).map (found.reverse ++ ·) ∧
      Went scanner (scanner.restFrom found).1 (scanner.toCome.take (untilFailure scanner.toCome)) := by
  fun_induction restFrom scanner found with
  | case1 scanner found after hn =>
    cases ht : scanner.toCome with
    | nil =>
      rw [next_of_nil ht] at hn
      cases hn
      exact ⟨by simp [Except.map, pure, Except.pure],scanner.lookAhead_went⟩
    | cons outcome left =>
      rw [next_of_cons ht] at hn
      cases hn
  | case2 scanner found after command hn _ ih =>
    cases ht : scanner.toCome with
    | nil =>
      rw [next_of_nil ht] at hn
      cases hn
    | cons outcome left =>
      have hwent := (advance_of_cons ht).2
      rw [next_of_cons ht] at hn
      cases hn
      have hleft : scanner.advance.1.toCome = left := by
        have htail := hwent.toCome
        rw [ht] at htail
        exact (List.cons.inj htail).2.symm
      rw [hleft] at ih
      refine ⟨?_,hwent.trans ih.2⟩
      rw [ih.1, List.mapM_cons]
      cases left.mapM id with
      | error failure => rfl
      | ok commands => simp [Except.map, bind, Except.bind, pure, Except.pure]
  | case3 scanner found after failure hn =>
    cases ht : scanner.toCome with
    | nil =>
      rw [next_of_nil ht] at hn
      cases hn
    | cons outcome left =>
      have hwent := (advance_of_cons ht).2
      rw [next_of_cons ht] at hn
      cases hn
      exact ⟨rfl,hwent⟩

/-- A call consumes what it is said to consume. -/
theorem answer_went (scanner : Scanner) (call : Call) :
    Went scanner (scanner.answer call).1 (scanner.toCome.take (call.taken scanner.toCome)) := by
  cases call with
  | more => exact scanner.lookAhead_went
  | advance =>
    simp only [answer]
    cases ht : scanner.toCome with
    | nil =>
      rw [advance_of_nil ht]
      exact scanner.lookAhead_went
    | cons outcome left => simpa [Call.taken] using (advance_of_cons ht).2
  | next =>
    simp only [answer]
    cases ht : scanner.toCome with
    | nil =>
      rw [next_of_nil ht]
      exact scanner.lookAhead_went
    | cons outcome left =>
      rw [next_of_cons ht]
      simpa [Call.taken] using (advance_of_cons ht).2
  | parse => exact (scanner.restFrom_spec []).2
  | kind | first | second | current => exact .refl scanner

/-- A scanner that has consumed the first `used` of all outcomes. -/
structure Reads (scanner : Scanner) (file : String) (lineCount : Nat) (all : List (Except Failure Command))
    (used : Nat) : Prop where
  within : used ≤ all.length
  toCome : scanner.toCome = all.drop used
  current? : scanner.current? = lastCommand? (all.take used)
  file : scanner.file = file
  lineCount : scanner.lineCount = lineCount

namespace Reads

variable {scanner other : Scanner} {file : String} {lineCount used : Nat} {all : List (Except Failure Command)}

theorem answer (h : Reads scanner file lineCount all used) (call : Call) :
    Reads (scanner.answer call).1 file lineCount all (used + call.taken (all.drop used)) := by
  have hwent := scanner.answer_went call
  have htaken := call.taken_le (all.drop used)
  rw [h.toCome] at hwent
  rw [List.length_drop] at htaken
  have hwithin := h.within
  refine ⟨by omega,?_,?_,hwent.file.trans h.file,hwent.lineCount.trans h.lineCount⟩
  · have hsplit := h.toCome.symm.trans hwent.toCome
    rw [← List.drop_drop]
    apply List.append_cancel_left
    rw [← hsplit]
    exact (List.take_append_drop _ _).symm
  · rw [hwent.current?, h.current?, ← lastCommand?_append, ← List.take_add]

theorem current (h : Reads scanner file lineCount all used) :
    scanner.current = currentAmong file (all.take used) := by
  rw [Scanner.current, currentAmong, h.current?, h.file]
  cases lastCommand? (all.take used) <;> rfl

/-- Every call is answered from the number of outcomes that have been consumed. -/
theorem reply (h : Reads scanner file lineCount all used) (call : Call) :
    (scanner.answer call).2 = call.due file lineCount all used := by
  have hhead : all[used]? = scanner.toCome.head? := by rw [h.toCome, List.head?_drop]
  cases call with
  | more =>
    simp only [Scanner.answer, Call.due, hasMore_eq, h.toCome, Reply.flag.injEq]
    rw [Bool.eq_iff_iff]
    simp
  | advance =>
    simp only [Scanner.answer, Call.due, hhead]
    cases ht : scanner.toCome with
    | nil =>
      rw [advance_of_nil ht, h.file, h.lineCount]
      rfl
    | cons outcome left =>
      rw [(advance_of_cons ht).1]
      rfl
  | next =>
    simp only [Scanner.answer, Call.due, hhead]
    cases ht : scanner.toCome with
    | nil =>
      rw [next_of_nil ht]
      rfl
    | cons outcome left =>
      rw [next_of_cons ht]
      rfl
  | parse =>
    simp only [Scanner.answer, Call.due, rest, (scanner.restFrom_spec []).1, h.toCome]
    cases (all.drop used).mapM id <;> rfl
  | kind | first | second | current => simp only [Scanner.answer, Call.due, h.current]

/-- Scanners that have consumed the same outcomes cannot be told apart. -/
theorem replies_eq (hs : Reads scanner file lineCount all used) (ho : Reads other file lineCount all used)
    (later : List Call) : scanner.replies later = other.replies later := by
  induction later generalizing scanner other used with
  | nil => rfl
  | cons call rest ih =>
    rw [replies, replies, hs.reply, ho.reply, ih (hs.answer call) (ho.answer call)]

theorem run (h : Reads scanner file lineCount all used) (calls : List Call) :
    Reads (scanner.run calls) file lineCount all (consumedFrom all used calls) := by
  induction calls generalizing scanner used with
  | nil => exact h
  | cons call rest ih => exact ih (h.answer call)

end Reads

theorem reads_ofSource (source file : String) :
    Reads (ofSource source file) file (sourceLines source file).length (outcomes source file) 0 :=
  ⟨Nat.zero_le _,rfl,rfl,rfl,rfl⟩

theorem reads_run (source file : String) (calls : List Call) :
    Reads ((ofSource source file).run calls) file (sourceLines source file).length (outcomes source file)
      (consumed (outcomes source file) calls) := (reads_ofSource source file).run calls

end Scanner

/-- The calls that ask for no further command. -/
def Call.isQuery (call : Call) : Bool := call ∉ [.advance, .next, .parse]

/-- How a scanner that has been asked `calls` answers what it is asked next. -/
structure Streamed (source file : String) (calls : List Call) : Prop where
  blank : ∀ line ∈ sourceLines source file, line.command? = none ↔ line.text = ""
  within : consumed (outcomes source file) calls ≤ (outcomes source file).length
  reply : ∀ call, (((Scanner.ofSource source file).run calls).answer call).2 =
    call.due file (sourceLines source file).length (outcomes source file) (consumed (outcomes source file) calls)
  /-- Looking ahead, and asking for the command last read, changes no later answer. -/
  quiet : ∀ call, call.isQuery = true → ∀ later,
    (((Scanner.ofSource source file).run calls).answer call).1.replies later =
      ((Scanner.ofSource source file).run calls).replies later
  /-- Once all is consumed, there is nothing more for ever. -/
  ended : consumed (outcomes source file) calls = (outcomes source file).length → ∀ later,
    (((Scanner.ofSource source file).run (calls ++ later)).answer .advance).2 =
        .failed (noMore file (sourceLines source file).length) ∧
      (((Scanner.ofSource source file).run (calls ++ later)).answer .next).2 = .ended

end HackToolchain.Vm
