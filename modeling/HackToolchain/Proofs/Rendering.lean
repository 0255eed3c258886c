import Mathlib.Data.List.TakeWhile
import HackToolchain.Asm.Line
import HackToolchain.Asm.Source
import HackToolchain.Proofs.Tokens

/-! # Printed code and its lines

Lines of code are printed one after another and read back by the assembler.  As long as no line holds a line end, the
assembler finds the lines that were printed, without the comments; of a line it keeps what is no blank.
-/
namespace HackToolchain.Text

theorem linesFrom_cons {c : Char} (hc : isLineEnd c = false) (line rest : List Char) :
    linesFrom line (c :: rest) = linesFrom (c :: line) rest := by
  rw [linesFrom, if_neg (by simp [hc])]
  rintro _ rfl _
  exact absurd hc (by decide)

theorem linesFrom_of_isUnbroken {cs : List Char} (h : IsUnbroken cs) (line rest : List Char) :
    linesFrom line (cs ++ rest) = linesFrom (cs.reverse ++ line) rest := by
  induction cs generalizing line with
  | nil => rfl
  | cons c cs ih =>
    obtain ⟨hc,hcs⟩ := isUnbroken_cons.mp h
    rw [List.cons_append, linesFrom_cons hc, ih hcs]
    simp

theorem linesFrom_of_isLineEnd {c : Char} (hc : isLineEnd c = true) {rest : List Char}
    (hn : c = '\r' → rest.head? ≠ some '\n') (line : List Char) :
    linesFrom line (c :: rest) = line.reverse :: linesFrom [] rest := by
  rw [linesFrom, if_pos hc]
  rintro other rfl rfl
  exact hn rfl rfl

theorem linesFrom_append {cs : List Char} (h : IsUnbroken cs) (line rest : List Char) :
    linesFrom line (cs ++ '\n' :: rest) = (line.reverse ++ cs) :: linesFrom [] rest := by
  rw [linesFrom_of_isUnbroken h, linesFrom_of_isLineEnd (by decide) (fun he => absurd he (by decide))]
  simp

/-- A line feed ends its line, whatever stands before it. -/
theorem linesFrom_append_feed (line cs rest : List Char) :
    linesFrom line (cs ++ '\n' :: rest) = linesFrom line (cs ++ ['\n']) ++ linesFrom [] rest := by
  have hfeed : ∀ line rest, linesFrom line ('\n' :: rest) = line.reverse :: linesFrom [] rest :=
    fun line rest => linesFrom_of_isLineEnd (by decide) (fun he => absurd he (by decide)) line
  fun_induction linesFrom line cs with
  | case1 line | case2 line =>
    rw [List.nil_append, List.nil_append, hfeed, hfeed]
    rfl
  | case3 line cs ih =>
    change line.reverse :: linesFrom [] (cs ++ '\n' :: rest) = line.reverse :: _
    rw [ih]
    rfl
  | case4 line c cs hx hc ih =>
    by_cases hr : c = '\r' ∧ cs = []
    · obtain ⟨rfl,rfl⟩ := hr
      rfl
    · have hn : ∀ more, c = '\r' → (cs ++ '\n' :: more).head? ≠ some '\n' := by
        intro more he hh
        cases cs with
        | nil => exact hr ⟨he,rfl⟩
        | cons d cs =>
          cases hh
          exact hx cs he rfl
      rw [List.cons_append, List.cons_append, linesFrom_of_isLineEnd hc (hn rest),
        linesFrom_of_isLineEnd hc (hn []), ih]
      rfl
  | case5 line c cs hx hc ih =>
    have hc : isLineEnd c = false := by simpa using hc
    rw [List.cons_append, List.cons_append, linesFrom_cons hc, linesFrom_cons hc, ih]

/-- What stands before the first line end. -/
def firstLine (cs : List Char) : List Char := cs.takeWhile fun c => !isLineEnd c

theorem firstLine_of_isUnbroken {cs : List Char} (h : IsUnbroken cs) : firstLine cs = cs := by
  rw [firstLine, List.takeWhile_eq_self_iff]
  intro c hc
  simp [h c hc]

theorem linesFrom_eq_cons (line cs rest : List Char) :
    ∃ more, linesFrom line (cs ++ '\n' :: rest) = (line.reverse ++ firstLine cs) :: more := by
  induction cs generalizing line with
  | nil =>
    refine ⟨linesFrom [] rest,?_⟩
    rw [List.nil_append, linesFrom_of_isLineEnd (by decide) (fun he => absurd he (by decide))]
    simp [firstLine]
  | cons c cs ih =>
    cases hc : isLineEnd c with
    | false =>
      obtain ⟨more,hm⟩ := ih (c :: line)
      refine ⟨more,?_⟩
      rw [List.cons_append, linesFrom_cons hc, hm]
      simp [firstLine, hc]
    | true =>
      have hfirst : line.reverse ++ firstLine (c :: cs) = line.reverse := by simp [firstLine, hc]
      rw [hfirst, List.cons_append, linesFrom.eq_def]
      split
      next he => cases he
      next he => exact ⟨_,rfl⟩
      next he =>
        cases he
        rw [if_pos hc]
        exact ⟨_,rfl⟩

theorem linesFrom_flatMap {texts : List (List Char)} (h : ∀ cs ∈ texts, IsUnbroken cs) :
    linesFrom [] (texts.flatMap fun cs => cs ++ ['\n']) = texts := by
  induction texts with
  | nil => rfl
  | cons cs rest ih =>
    obtain ⟨hc,hr⟩ := List.forall_mem_cons.mp h
    rw [List.flatMap_cons, List.append_assoc, List.singleton_append, linesFrom_append hc, ih hr]
    simp

end HackToolchain.Text

namespace HackToolchain.Asm

open Text (IsToken IsUnbroken kept)

def Line.chars (line : Line) : List Char := line.text.toList

def Line.isComment : Line → Bool
  | .comment _ => true
  | _ => false

theorem Line.chars_comment (remark : String) : (Line.comment remark).chars = '/' :: '/' :: ' ' :: remark.toList := by
  simp [chars, text]

theorem Line.chars_label (name : String) : (Line.label name).chars = '(' :: (name.toList ++ [')']) := by
  simp [chars, text]

theorem Line.chars_load (operand : Operand) : (Line.load operand).chars = '@' :: operand.text.toList := by
  simp [chars, text]

theorem Line.chars_compute (instruction : Compute) : (Line.compute instruction).chars = instruction.chars := by
  simp [chars, text]

theorem Compute.isToken_chars (instruction : Compute) : IsToken instruction.chars := by
  obtain ⟨dest,comp,jump⟩ := instruction
  have hd : IsToken (if dest = Dest.none then [] else dest.chars ++ ['=']) := by
    revert dest
    rintro ⟨_ | _,_ | _,_ | _⟩ <;> decide
  have hc : IsToken comp.chars ∧ comp.chars.head? ≠ some '/' := by
    cases comp with
    | zero => decide
    | one => decide
    | negOne => decide
    | copy r => cases r <;> decide
    | not r => cases r <;> decide
    | neg r => cases r <;> decide
    | succ r => cases r <;> decide
    | onePlus r => cases r <;> decide
    | pred r => cases r <;> decide
    | add x y => cases x <;> cases y <;> decide
    | sub x y => cases x <;> cases y <;> decide
    | and x y => cases x <;> cases y <;> decide
    | or x y => cases x <;> cases y <;> decide
  have hcode := hd.append hc.1 hc.2
  cases jump with
  | none => exact hcode.append Text.isToken_nil (by simp)
  | some jump =>
    have hj : IsToken (';' :: jump.chars) := by cases jump <;> decide
    exact hcode.append hj (by simp)

/-- A line that is printed in one piece, and read back as the line it is. -/
def Line.IsSound : Line → Prop
  | .comment remark => IsUnbroken remark.toList
  | .label name => IsToken name.toList
  | .load operand => IsUnbroken operand.text.toList
  | .compute _ => True

theorem Line.IsSound.isUnbroken {line : Line} (h : line.IsSound) : IsUnbroken line.chars := by
  cases line with
  | comment remark =>
    rw [chars_comment]
    simp only [Text.isUnbroken_cons]
    exact ⟨by decide,by decide,by decide,h⟩
  | label name =>
    rw [chars_label, Text.isUnbroken_cons, Text.isUnbroken_append]
    exact ⟨by decide,IsToken.isUnbroken h,by decide⟩
  | load operand =>
    rw [chars_load, Text.isUnbroken_cons]
    exact ⟨by decide,h⟩
  | compute instruction =>
    rw [chars_compute]
    exact instruction.isToken_chars.isUnbroken

theorem toList_render (lines : List Line) :
    (render lines).toList = (lines.map Line.chars).flatMap fun cs => cs ++ ['\n'] := by
  have hf : ∀ text : String, (lines.foldl (fun text line => text ++ line.text ++ "\n") text).toList =
      text.toList ++ (lines.map Line.chars).flatMap fun cs => cs ++ ['\n'] := by
    induction lines with
    | nil => simp
    | cons line rest ih =>
      intro text
      rw [List.foldl_cons, ih]
      simp [Line.chars]
  simpa [render] using hf ""

theorem render_append (xs ys : List Line) : render (xs ++ ys) = render xs ++ render ys := by
  apply String.toList_injective
  rw [String.toList_append, toList_render, toList_render, toList_render, List.map_append, List.flatMap_append]

theorem lines_render {lines : List Line} (h : ∀ line ∈ lines, line.IsSound) :
    Text.lines (render lines) = lines.map Line.chars := by
  rw [Text.lines, toList_render, Text.linesFrom_flatMap]
  intro cs hcs
  obtain ⟨line,hl,rfl⟩ := List.mem_map.mp hcs
  exact (h line hl).isUnbroken

theorem text_ofLine? (file : String) (number : Nat) (chars : List Char) :
    (SourceLine.ofLine? file number chars).map (·.text) = if (kept chars).isEmpty then none else some (kept chars) := by
  unfold SourceLine.ofLine? kept
  dsimp only
  split <;> rfl

/-- The assembler reads every line of a text that has more than blanks and a comment. -/
theorem texts_sourceLines (source file : String) :
    (sourceLines source file).map (·.text) = ((Text.lines source).map kept).filter (!·.isEmpty) := by
  rw [sourceLines, List.map_filterMap]
  generalize Text.lines source = lines
  have hz : ∀ first : Nat, ((lines.zipIdx first).filterMap fun entry =>
      (SourceLine.ofLine? file (entry.2 + 1) entry.1).map (·.text)) = (lines.map kept).filter (!·.isEmpty) := by
    induction lines with
    | nil => simp
    | cons line rest ih =>
      intro first
      simp only [List.zipIdx_cons, List.filterMap_cons, text_ofLine?, List.map_cons, List.filter_cons] at ih ⊢
      rw [ih]
      cases (kept line).isEmpty <;> rfl
  exact hz 0

theorem Comp.chars_ne_nil (comp : Comp) : comp.chars ≠ [] := by
  cases comp <;> simp [Comp.chars]

/-- What the assembler reads of a line. -/
def Line.readText (line : Line) : List Char := kept line.chars

theorem readText_label {name : String} (h : IsToken name.toList) :
    (Line.label name).readText = '(' :: (name.toList ++ [')']) := by
  have ht : IsToken (name.toList ++ [')']) := h.append (by decide) (by decide)
  rw [Line.readText, Line.chars_label, Text.kept_of_isToken (ht.cons (by decide) (by decide))]

theorem readText_load (operand : Operand) : (Line.load operand).readText = '@' :: kept operand.text.toList := by
  rw [Line.readText, Line.chars_load, Text.kept_cons (by decide) (by decide)]

theorem readText_compute (instruction : Compute) : (Line.compute instruction).readText = instruction.chars := by
  rw [Line.readText, Line.chars_compute, Text.kept_of_isToken instruction.isToken_chars]

theorem isEmpty_readText (line : Line) : line.readText.isEmpty = line.isComment := by
  cases line with
  | comment remark =>
    rw [Line.readText, Line.chars_comment]
    rfl
  | label name =>
    rw [Line.readText, Line.chars_label, Text.kept_cons (by decide) (by decide)]
    rfl
  | load operand =>
    rw [readText_load]
    rfl
  | compute instruction => simp [readText_compute, Line.isComment, Compute.chars, Comp.chars_ne_nil]

/-- Reading printed code gives back its lines without the comments. -/
theorem texts_sourceLines_render {lines : List Line} (h : ∀ line ∈ lines, line.IsSound) (file : String) :
    (sourceLines (render lines) file).map (·.text) = (lines.filter (!·.isComment)).map Line.readText := by
  have hc : (!·.isEmpty) ∘ kept ∘ Line.chars = (!·.isComment) := by
    funext line
    exact congrArg _ (isEmpty_readText line)
  rw [texts_sourceLines, lines_render h, List.map_map, List.filter_map, hc]
  rfl

theorem lines_render_append (xs ys : List Line) :
    Text.lines (render (xs ++ ys)) = Text.lines (render xs) ++ Text.lines (render ys) := by
  simp only [Text.lines, toList_render]
  induction xs with
  | nil => rfl
  | cons line rest ih =>
    simp only [List.cons_append, List.map_cons, List.flatMap_cons, List.append_assoc, List.nil_append]
    rw [Text.linesFrom_append_feed, ih, Text.linesFrom_append_feed [] line.chars ((rest.map Line.chars).flatMap _),
      List.append_assoc]

/-- Of a load the assembler reads the first line, wherever it stands. -/
theorem texts_sourceLines_load (before after : List Line) (operand : Operand) (file : String) :
    ∃ more, (sourceLines (render (before ++ .load operand :: after)) file).map (·.text) =
      (sourceLines (render before) file).map (·.text) ++
        ('@' :: kept (Text.firstLine operand.text.toList)) :: more := by
  have hload : ∃ more, Text.lines (render (.load operand :: after)) =
      ('@' :: Text.firstLine operand.text.toList) :: more := by
    rw [Text.lines, toList_render, List.map_cons, List.flatMap_cons, Line.chars_load, List.append_assoc]
    exact Text.linesFrom_eq_cons [] ('@' :: operand.text.toList) _
  obtain ⟨more,hm⟩ := hload
  refine ⟨(more.map kept).filter (!·.isEmpty),?_⟩
  rw [texts_sourceLines, texts_sourceLines, lines_render_append, hm, List.map_append, List.filter_append,
    List.map_cons, Text.kept_cons (by decide) (by decide)]
  rfl

end HackToolchain.Asm
