import Mathlib.Data.List.Chain
import Mathlib.Data.List.TakeWhile
import HackToolchain.Proofs.Rendering

/-! # Parts of a text

What a text holds is said here without the functions that take it apart: its lines stand between the line ends, the
code of a line is what stands before the first comment mark, the words are the longest runs without blanks, each with
the number of characters before it, and a trimmed text has no blank at either end.  The functions find these parts and
no others.
-/
namespace HackToolchain.Text

section Lines

/-- `mark` ends a line when `rest` follows it: a carriage return goes with the line feed after it. -/
def EndsLine (mark rest : List Char) : Prop :=
  mark = ['\r', '\n'] ∨ ∃ c, mark = [c] ∧ isLineEnd c = true ∧ (c = '\r' → rest.head? ≠ some '\n')

/-- The lines of a text.  Only the last one may be without a mark behind it, and then it is not empty. -/
inductive Broken : List Char → List (List Char) → Prop
  | nil : Broken [] []
  | last {line : List Char} (hne : line ≠ []) (hline : IsUnbroken line) : Broken line [line]
  | ended {line mark rest : List Char} {lines : List (List Char)} (hline : IsUnbroken line) (hmark : EndsLine mark rest)
      (hrest : Broken rest lines) : Broken (line ++ (mark ++ rest)) (line :: lines)

theorem linesFrom_of_endsLine {mark rest : List Char} (h : EndsLine mark rest) (line : List Char) :
    linesFrom line (mark ++ rest) = line.reverse :: linesFrom [] rest := by
  rcases h with rfl | ⟨c,rfl,hc,hn⟩
  · rfl
  · exact linesFrom_of_isLineEnd hc hn line

theorem Broken.linesFrom_eq {cs : List Char} {lines : List (List Char)} (h : Broken cs lines) :
    linesFrom [] cs = lines := by
  induction h with
  | nil => rfl
  | @last line hne hline =>
    have hall := linesFrom_of_isUnbroken hline [] []
    rw [List.append_nil, List.append_nil] at hall
    rw [hall, linesFrom, if_neg (by simpa using hne), List.reverse_reverse]
  | ended hline hmark _ ih =>
    rw [linesFrom_of_isUnbroken hline, linesFrom_of_endsLine hmark, ih, List.append_nil, List.reverse_reverse]

theorem broken_linesFrom {line : List Char} (hline : IsUnbroken line.reverse) (cs : List Char) :
    Broken (line.reverse ++ cs) (linesFrom line cs) := by
  fun_induction linesFrom line cs with
  | case1 line hempty =>
    cases List.isEmpty_iff.mp hempty
    exact .nil
  | case2 line hempty =>
    rw [List.append_nil]
    exact .last (by simpa using hempty) hline
  | case3 line rest ih => exact .ended hline (.inl rfl) (ih (by simp [IsUnbroken]))
  | case4 line c rest hx hc ih =>
    refine .ended hline (.inr ⟨c,rfl,hc,?_⟩) (ih (by simp [IsUnbroken]))
    -- a carriage return with a line feed behind it has been taken by the case before
    intro hr hh
    obtain ⟨more,rfl⟩ := List.head?_eq_some_iff.mp hh
    exact hx more hr rfl
  | case5 line c rest _ hc ih =>
    have hmore : IsUnbroken (c :: line).reverse := by
      rw [List.reverse_cons]
      exact isUnbroken_append.mpr ⟨hline,by simpa [IsUnbroken] using hc⟩
    simpa using ih hmore

theorem broken_iff {text : String} {parts : List (List Char)} : Broken text.toList parts ↔ lines text = parts := by
  constructor
  · exact Broken.linesFrom_eq
  · rintro rfl
    exact @broken_linesFrom [] (by simp [IsUnbroken]) text.toList

end Lines

section Comment

/-- `code` stands on `line` before the first comment mark, or is all of it if there is none. -/
def IsCut (line code : List Char) : Prop :=
  (code = line ∧ ¬['/', '/'] <:+: line) ∨
    ∃ comment, line = code ++ '/' :: '/' :: comment ∧ ¬['/', '/'] <:+: code ++ ['/']

theorem isChain_unmarked_iff {cs : List Char} : cs.IsChain Unmarked ↔ ¬['/', '/'] <:+: cs := by
  constructor
  · intro h hi
    have hmark : ['/', '/'].IsChain Unmarked := List.IsChain.infix h hi
    exact (List.isChain_cons_cons.mp hmark).1 ⟨rfl,rfl⟩
  · intro h
    induction cs with
    | nil => exact .nil
    | cons c rest ih =>
      have hrest := ih fun hi => h (hi.trans (List.suffix_cons c rest).isInfix)
      refine hrest.cons ?_
      rintro d hd ⟨rfl,rfl⟩
      obtain ⟨more,rfl⟩ := List.head?_eq_some_iff.mp hd
      exact h ⟨[],more,rfl⟩

theorem beforeComment_append {code : List Char} (h : (code ++ ['/']).IsChain Unmarked) (comment : List Char) :
    beforeComment (code ++ '/' :: '/' :: comment) = code := by
  induction code with
  | nil => rfl
  | cons c rest ih =>
    have hnext : ¬(c = '/' ∧ (rest ++ '/' :: '/' :: comment).head? = some '/') := by
      cases rest with
      | nil => simpa [Unmarked] using h
      | cons d more => simpa [Unmarked] using (List.isChain_cons_cons.mp h).1
    rw [List.cons_append, beforeComment, if_neg hnext, ih h.tail]

theorem isCut_beforeComment (line : List Char) : IsCut line (beforeComment line) := by
  induction line with
  | nil => exact .inl ⟨rfl,by simp⟩
  | cons c rest ih =>
    rw [beforeComment]
    split
    next hmark =>
      obtain ⟨rfl,hd⟩ := hmark
      obtain ⟨comment,rfl⟩ := List.head?_eq_some_iff.mp hd
      exact .inr ⟨comment,rfl,isChain_unmarked_iff.mp (by simp)⟩
    next hmark =>
      rcases ih with ⟨he,hn⟩ | ⟨comment,he,hn⟩
      · rw [he]
        refine .inl ⟨rfl,isChain_unmarked_iff.mp ((isChain_unmarked_iff.mpr hn).cons ?_)⟩
        intro d hd hm
        exact hmark ⟨hm.1,hm.2 ▸ hd⟩
      · refine .inr ⟨comment,by rw [List.cons_append, ← he],?_⟩
        refine isChain_unmarked_iff.mp ((isChain_unmarked_iff.mpr hn).cons ?_)
        -- the first character of the rest is the first of its code, or of the mark behind it
        intro d hd hm
        apply hmark
        refine ⟨hm.1,?_⟩
        rw [he]
        cases hcode : beforeComment rest with
        | nil => rfl
        | cons e more => simpa [hcode, hm.2] using hd

theorem isCut_iff {line code : List Char} : IsCut line code ↔ beforeComment line = code := by
  constructor
  · rintro (⟨rfl,hn⟩ | ⟨comment,rfl,hn⟩)
    · exact beforeComment_eq_self (isChain_unmarked_iff.mpr hn)
    · exact beforeComment_append (isChain_unmarked_iff.mpr hn) comment
  · rintro rfl
    exact isCut_beforeComment line

end Comment

section Words

/-- The words of a text with `start` characters before it: runs without blanks, as long as they can be, with nothing
but blanks between them. -/
inductive Spaced : Nat → List Char → List Token → Prop
  | blank {start : Nat} {gap : List Char} (hgap : ∀ c ∈ gap, isBlank c = true) : Spaced start gap []
  | word {start : Nat} {gap text rest : List Char} {words : List Token} (hgap : ∀ c ∈ gap, isBlank c = true)
      (hne : text ≠ []) (htext : ∀ c ∈ text, isBlank c = false) (hend : ∀ c ∈ rest.head?, isBlank c = true)
      (hrest : Spaced (start + gap.length + text.length) rest words) :
      Spaced start (gap ++ (text ++ rest)) (⟨start + gap.length,text⟩ :: words)

theorem tokensFrom_gap {gap : List Char} (hgap : ∀ c ∈ gap, isBlank c = true) (start : Nat) (rest : List Char) :
    tokensFrom start (gap ++ rest) = tokensFrom (start + gap.length) rest := by
  induction gap generalizing start with
  | nil => rfl
  | cons c gap ih =>
    obtain ⟨hc,hgap⟩ := List.forall_mem_cons.mp hgap
    rw [List.cons_append, tokensFrom, if_pos hc, ih hgap, List.length_cons, Nat.add_right_comm, Nat.add_assoc]

theorem le_start_of_mem_tokensFrom {start : Nat} {cs : List Char} {word : Token} (h : word ∈ tokensFrom start cs) :
    start ≤ word.start := by
  obtain ⟨-,-,k,hk,-⟩ := tokensFrom_spec start cs h
  omega

/-- No word starts where a blank stands. -/
theorem start_ne_of_tokensFrom {start : Nat} {rest : List Char} {next : Token} {more : List Token}
    (hend : ∀ c ∈ rest.head?, isBlank c = true) (h : tokensFrom start rest = next :: more) : next.start ≠ start := by
  cases rest with
  | nil => cases h
  | cons c rest =>
    rw [tokensFrom, if_pos (hend c rfl)] at h
    have hle := @le_start_of_mem_tokensFrom (start + 1) rest next (by simp [h])
    omega

theorem tokensFrom_word {text : List Char} (hne : text ≠ []) (htext : ∀ c ∈ text, isBlank c = false) (start : Nat)
    {rest : List Char} (hend : ∀ c ∈ rest.head?, isBlank c = true) :
    tokensFrom start (text ++ rest) = ⟨start,text⟩ :: tokensFrom (start + text.length) rest := by
  induction text generalizing start with
  | nil => exact absurd rfl hne
  | cons c text ih =>
    obtain ⟨hc,htext⟩ := List.forall_mem_cons.mp htext
    have hstep : ¬isBlank c = true := by simp [hc]
    rw [List.cons_append, tokensFrom, if_neg hstep]
    cases text with
    | nil =>
      rw [List.nil_append]
      cases hr : tokensFrom (start + 1) rest with
      | nil => rfl
      | cons next others =>
        dsimp only
        rw [if_neg (start_ne_of_tokensFrom hend hr)]
    | cons d more =>
      rw [ih (by simp) htext (start + 1)]
      simp [Nat.add_assoc, Nat.add_comm 1]

theorem Spaced.tokensFrom_eq {start : Nat} {cs : List Char} {words : List Token} (h : Spaced start cs words) :
    tokensFrom start cs = words := by
  induction h with
  | @blank start gap hgap =>
    have hall := tokensFrom_gap hgap start []
    rwa [List.append_nil] at hall
  | word hgap hne htext hend _ ih => rw [tokensFrom_gap hgap, tokensFrom_word hne htext _ hend, ih]

theorem Spaced.cons {start : Nat} {cs : List Char} {words : List Token} {c : Char} (hc : isBlank c = true)
    (h : Spaced (start + 1) cs words) : Spaced start (c :: cs) words := by
  cases h with
  | blank hgap => exact .blank (List.forall_mem_cons.mpr ⟨hc,hgap⟩)
  | @word _ gap text rest words hgap hne htext hend hrest =>
    have hstart : start + 1 + gap.length = start + (c :: gap).length := by
      rw [List.length_cons, Nat.add_assoc, Nat.add_comm 1]
    rw [hstart] at hrest ⊢
    rw [← List.cons_append]
    exact .word (List.forall_mem_cons.mpr ⟨hc,hgap⟩) hne htext hend hrest

theorem Spaced.of_word {start : Nat} {text rest : List Char} {words : List Token} (hne : text ≠ [])
    (htext : ∀ c ∈ text, isBlank c = false) (hend : ∀ c ∈ rest.head?, isBlank c = true)
    (hrest : Spaced (start + text.length) rest words) : Spaced start (text ++ rest) (⟨start,text⟩ :: words) :=
  @Spaced.word start [] text rest words (by simp) hne htext hend hrest

/-- Every text falls into words and the blanks between them. -/
theorem exists_spaced (start : Nat) (cs : List Char) : ∃ words, Spaced start cs words := by
  induction cs generalizing start with
  | nil => exact ⟨[],.blank (by simp)⟩
  | cons c cs ih =>
    obtain ⟨words,hwords⟩ := ih (start + 1)
    by_cases hc : isBlank c = true
    · exact ⟨words,hwords.cons hc⟩
    · have hc : ∀ d ∈ [c], isBlank d = false := by simpa using hc
      by_cases hcs : ∀ d ∈ cs.head?, isBlank d = true
      · exact ⟨⟨start,[c]⟩ :: words,.of_word (by simp) hc hcs hwords⟩
      · -- the next character is the first of a word, and `c` belongs to that word
        cases hwords with
        | blank hgap => exact absurd (fun d hd => hgap d (List.mem_of_mem_head? hd)) hcs
        | @word _ gap text rest words hgap hne htext hend hrest =>
          cases gap with
          | cons d gap =>
            obtain ⟨hd,-⟩ := List.forall_mem_cons.mp hgap
            exact absurd (by simpa using hd) hcs
          | nil =>
            have hlonger : start + (c :: text).length = start + 1 + text.length := by
              rw [List.length_cons, Nat.add_assoc, Nat.add_comm 1]
            have hlong : ∀ d ∈ c :: text, isBlank d = false := List.forall_mem_append.mpr ⟨hc,htext⟩
            exact ⟨⟨start,c :: text⟩ :: words,.of_word (by simp) hlong hend (hlonger ▸ hrest)⟩

theorem spaced_iff {start : Nat} {cs : List Char} {words : List Token} :
    Spaced start cs words ↔ tokensFrom start cs = words := by
  constructor
  · exact Spaced.tokensFrom_eq
  · rintro rfl
    obtain ⟨words,hwords⟩ := exists_spaced start cs
    rwa [hwords.tokensFrom_eq]

theorem Spaced.isBlank {start : Nat} {cs : List Char} (h : Spaced start cs []) : ∀ c ∈ cs, isBlank c = true := by
  cases h with
  | blank hgap => exact hgap

end Words

section Trimming

/-- `text` is what is left of `cs` without the blanks at both ends. -/
def IsTrimmed (cs text : List Char) : Prop :=
  ∃ left right, cs = left ++ (text ++ right) ∧ (∀ c ∈ left, isBlank c = true) ∧ (∀ c ∈ right, isBlank c = true) ∧
    (∀ c ∈ text.head?, isBlank c = false) ∧ ∀ c ∈ text.getLast?, isBlank c = false

theorem trimLeft_append {left text : List Char} (hleft : ∀ c ∈ left, isBlank c = true)
    (htext : ∀ c ∈ text.head?, isBlank c = false) : trimLeft (left ++ text) = text := by
  rw [trimLeft, List.dropWhile_append_of_pos hleft]
  cases text with
  | nil => rfl
  | cons c text => rw [List.dropWhile_cons_of_neg (by simp [htext c rfl])]

theorem trimRight_append {text right : List Char} (hright : ∀ c ∈ right, isBlank c = true)
    (htext : ∀ c ∈ text.getLast?, isBlank c = false) : trimRight (text ++ right) = text := by
  have hleft := @trimLeft_append right.reverse text.reverse (by simpa using hright) (by simpa using htext)
  rw [trimRight, List.reverse_append]
  rw [trimLeft] at hleft
  rw [hleft, List.reverse_reverse]

theorem isTrimmed_trim (cs : List Char) : IsTrimmed cs (trim cs) := by
  have hdropped : ∀ (ds : List Char), ∀ c ∈ (ds.dropWhile isBlank).head?, isBlank c = false := by
    intro ds c hc
    have hn := List.head?_dropWhile_not isBlank ds
    rw [hc] at hn
    simpa using hn
  have hsplit : trim cs ++ ((trimLeft cs).reverse.takeWhile isBlank).reverse = trimLeft cs := by
    rw [trim, trimRight, ← List.reverse_append, List.takeWhile_append_dropWhile, List.reverse_reverse]
  refine ⟨cs.takeWhile isBlank,((trimLeft cs).reverse.takeWhile isBlank).reverse,?_,?_,?_,?_,?_⟩
  · rw [hsplit, trimLeft, List.takeWhile_append_dropWhile]
  · exact fun c hc => List.mem_takeWhile_imp hc
  · exact fun c hc => List.mem_takeWhile_imp (List.mem_reverse.mp hc)
  · intro c hc
    obtain ⟨more,hmore⟩ := List.head?_eq_some_iff.mp hc
    apply hdropped cs
    rw [← trimLeft, ← hsplit, hmore]
    rfl
  · intro c hc
    apply hdropped (trimLeft cs).reverse
    rwa [trim, trimRight, List.getLast?_reverse] at hc

theorem isTrimmed_iff {cs text : List Char} : IsTrimmed cs text ↔ trim cs = text := by
  constructor
  · rintro ⟨left,right,rfl,hleft,hright,hfirst,hlast⟩
    by_cases htext : text = []
    · subst htext
      have hall := @trimLeft_append (left ++ right) [] (List.forall_mem_append.mpr ⟨hleft,hright⟩) (by simp)
      rw [List.append_nil] at hall
      rw [trim, List.nil_append, hall]
      rfl
    · have hhead : (text ++ right).head? = text.head? := by rw [List.head?_append_of_ne_nil _ htext]
      rw [trim, trimLeft_append hleft (by rwa [hhead]), trimRight_append hright hlast]
  · rintro rfl
    exact isTrimmed_trim cs

theorem IsTrimmed.isBlank {cs : List Char} (h : IsTrimmed cs []) : ∀ c ∈ cs, isBlank c = true := by
  obtain ⟨left,right,rfl,hleft,hright,-⟩ := h
  exact List.forall_mem_append.mpr ⟨hleft,hright⟩

end Trimming

section Joining

/-- Not empty, no blank and no comment mark. -/
def IsWord (cs : List Char) : Prop := cs ≠ [] ∧ (∀ c ∈ cs, isBlank c = false) ∧ ¬['/', '/'] <:+: cs

theorem isWord_iff {cs : List Char} : IsWord cs ↔ cs ≠ [] ∧ IsToken cs := by
  rw [IsToken, beforeComment_eq_self_iff, isChain_unmarked_iff]
  rfl

/-- Words with one blank between them are the words of the text that they make. -/
theorem spaced_intercalate {word : List Char} {words : List (List Char)} (h : ∀ part ∈ word :: words, IsWord part)
    (start : Nat) : ∃ arguments, Spaced start ([' '].intercalate (word :: words)) (⟨start,word⟩ :: arguments) ∧
      arguments.map (·.text) = words := by
  induction words generalizing word start with
  | nil =>
    obtain ⟨hne,hblank,-⟩ := h word List.mem_cons_self
    refine ⟨[],?_,rfl⟩
    have hone := Spaced.of_word hne hblank (by simp) (@Spaced.blank (start + word.length) [] (by simp))
    rw [List.append_nil] at hone
    rwa [List.intercalate_singleton]
  | cons next rest ih =>
    obtain ⟨⟨hne,hblank,-⟩,hrest⟩ := List.forall_mem_cons.mp h
    obtain ⟨arguments,hspaced,htexts⟩ := ih hrest (start + word.length + 1)
    refine ⟨⟨start + word.length + 1,next⟩ :: arguments,?_,by rw [List.map_cons, htexts]⟩
    rw [List.intercalate_cons_cons, List.append_assoc]
    exact .of_word hne hblank (by simp; decide) (hspaced.cons (by decide))

theorem isChain_intercalate {words : List (List Char)} (h : ∀ word ∈ words, IsWord word) :
    ([' '].intercalate words).IsChain Unmarked := by
  induction words with
  | nil => exact .nil
  | cons word rest ih =>
    obtain ⟨hword,hrest⟩ := List.forall_mem_cons.mp h
    have hchain := (isWord_iff.mp hword).2.isChain
    cases rest with
    | nil => rwa [List.intercalate_singleton]
    | cons next rest =>
      rw [List.intercalate_cons_cons, List.append_assoc]
      have hlater : (' ' :: [' '].intercalate (next :: rest)).IsChain Unmarked :=
        (ih hrest).cons fun d _ hm => absurd hm.1 (by decide)
      refine hchain.append hlater ?_
      rintro a _ b hb ⟨-,rfl⟩
      cases hb

theorem isCut_intercalate {words : List (List Char)} (h : ∀ word ∈ words, IsWord word) :
    IsCut ([' '].intercalate words) ([' '].intercalate words) :=
  .inl ⟨rfl,isChain_unmarked_iff.mp (isChain_intercalate h)⟩

theorem exists_intercalate_cons (word : List Char) (words : List (List Char)) :
    ∃ rest, [' '].intercalate (word :: words) = word ++ rest := by
  cases words with
  | nil => exact ⟨[],by rw [List.intercalate_singleton, List.append_nil]⟩
  | cons next words => exact ⟨_,by rw [List.intercalate_cons_cons, List.append_assoc]⟩

theorem getLast?_intercalate {words : List (List Char)} (h : ∀ word ∈ words, IsWord word) {c : Char}
    (hc : c ∈ ([' '].intercalate words).getLast?) : isBlank c = false := by
  induction words with
  | nil => cases hc
  | cons word rest ih =>
    obtain ⟨hword,hrest⟩ := List.forall_mem_cons.mp h
    cases rest with
    | nil =>
      rw [List.intercalate_singleton] at hc
      exact hword.2.1 c (List.mem_of_getLast? hc)
    | cons next rest =>
      apply ih hrest
      have hne : [' '].intercalate (next :: rest) ≠ [] := by
        obtain ⟨more,hmore⟩ := exists_intercalate_cons next rest
        simp [hmore, (hrest next List.mem_cons_self).1]
      obtain ⟨last,hlast⟩ := Option.isSome_iff_exists.mp (List.getLast?_isSome.mpr hne)
      rw [List.intercalate_cons_cons, List.getLast?_append, hlast, Option.some_or] at hc
      rwa [hlast]

theorem isTrimmed_intercalate {words : List (List Char)} (h : ∀ word ∈ words, IsWord word) :
    IsTrimmed ([' '].intercalate words) ([' '].intercalate words) := by
  refine ⟨[],[],by simp,by simp,by simp,?_,fun c => getLast?_intercalate h⟩
  intro c hc
  cases words with
  | nil => cases hc
  | cons word rest =>
    obtain ⟨hne,hblank,-⟩ := h word List.mem_cons_self
    obtain ⟨more,hmore⟩ := exists_intercalate_cons word rest
    rw [hmore, List.head?_append_of_ne_nil _ hne] at hc
    exact hblank c (List.mem_of_mem_head? hc)

theorem isUnbroken_intercalate {words : List (List Char)} (h : ∀ word ∈ words, IsWord word) :
    IsUnbroken ([' '].intercalate words) := by
  induction words with
  | nil => simp [IsUnbroken, List.intercalate_nil]
  | cons word rest ih =>
    obtain ⟨hword,hrest⟩ := List.forall_mem_cons.mp h
    have hunbroken := (isWord_iff.mp hword).2.isUnbroken
    cases rest with
    | nil => rwa [List.intercalate_singleton]
    | cons next rest =>
      rw [List.intercalate_cons_cons, isUnbroken_append, isUnbroken_append]
      exact ⟨⟨hunbroken,by decide⟩,ih hrest⟩

/-- Texts with a line feed between them are the lines of the text that they make. -/
theorem broken_intercalate {texts : List (List Char)} (h : ∀ text ∈ texts, text ≠ [] ∧ IsUnbroken text) :
    Broken (['\n'].intercalate texts) texts := by
  induction texts with
  | nil => exact .nil
  | cons text rest ih =>
    obtain ⟨⟨hne,hunbroken⟩,hrest⟩ := List.forall_mem_cons.mp h
    cases rest with
    | nil =>
      rw [List.intercalate_singleton]
      exact .last hne hunbroken
    | cons next rest =>
      rw [List.intercalate_cons_cons, List.append_assoc]
      exact .ended hunbroken (.inr ⟨'\n',rfl,by decide,fun he => absurd he (by decide)⟩) (ih hrest)

end Joining

end HackToolchain.Text
