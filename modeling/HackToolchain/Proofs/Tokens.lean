import Mathlib.Data.List.Chain
import HackToolchain.Text.Lines
import HackToolchain.Text.Blank

/-! # Tokens

A token holds no blank and no comment mark, so it goes through the cutting of lines and comments unchanged.  The words
that a scanner finds on a line are tokens of this kind, and they stand on the line where their columns say.
-/
namespace HackToolchain.Text

/-- No blank and no comment mark. -/
def IsToken (cs : List Char) : Prop := (∀ c ∈ cs, isBlank c = false) ∧ beforeComment cs = cs

instance (cs : List Char) : Decidable (IsToken cs) :=
  @instDecidableAnd _ _ (List.decidableBAll _ cs) (instDecidableEqList _ cs)

theorem isBlank_of_isLineEnd {c : Char} (h : isLineEnd c = true) : isBlank c = true := by
  simp only [isLineEnd, isBlank, Bool.or_eq_true, Bool.and_eq_true, decide_eq_true_eq, beq_iff_eq] at h ⊢
  omega

/-- No line end. -/
def IsUnbroken (cs : List Char) : Prop := ∀ c ∈ cs, isLineEnd c = false

instance (cs : List Char) : Decidable (IsUnbroken cs) := List.decidableBAll _ cs

theorem IsToken.isUnbroken {cs : List Char} (h : IsToken cs) : IsUnbroken cs := by
  intro c hc
  have hb := h.1 c hc
  by_contra he
  rw [isBlank_of_isLineEnd (by simpa using he)] at hb
  cases hb

theorem isUnbroken_cons {c : Char} {cs : List Char} :
    IsUnbroken (c :: cs) ↔ isLineEnd c = false ∧ IsUnbroken cs := List.forall_mem_cons

theorem isUnbroken_append {xs ys : List Char} : IsUnbroken (xs ++ ys) ↔ IsUnbroken xs ∧ IsUnbroken ys :=
  List.forall_mem_append

/-- What is left of a line without its comment and its blanks. -/
def kept (cs : List Char) : List Char := (beforeComment cs).filter fun c => !isBlank c

theorem kept_of_isToken {cs : List Char} (h : IsToken cs) : kept cs = cs := by
  rw [kept, h.2, List.filter_eq_self]
  intro c hc
  simp [h.1 c hc]

theorem kept_cons {c : Char} (hb : isBlank c = false) (hs : c ≠ '/') (cs : List Char) :
    kept (c :: cs) = c :: kept cs := by
  simp [kept, beforeComment, hb, hs]

/-- Two neighbours that do not open a comment. -/
def Unmarked (a b : Char) : Prop := ¬(a = '/' ∧ b = '/')

theorem isChain_beforeComment (cs : List Char) : (beforeComment cs).IsChain Unmarked := by
  induction cs with
  | nil => simp [beforeComment]
  | cons c rest ih =>
    unfold beforeComment
    split
    next => simp
    next h =>
      cases rest with
      | nil => simp [beforeComment]
      | cons d rest =>
        simp only [List.head?_cons, Option.some.injEq] at h
        by_cases hd : d = '/' ∧ rest.head? = some '/'
        · rw [beforeComment, if_pos hd]
          simp
        · rw [beforeComment, if_neg hd] at ih ⊢
          exact ih.cons_cons h

theorem beforeComment_eq_self {cs : List Char} (h : cs.IsChain Unmarked) : beforeComment cs = cs := by
  induction cs with
  | nil => rfl
  | cons c rest ih =>
    have hr := ih h.tail
    cases rest with
    | nil => simp [beforeComment]
    | cons d rest =>
      have hcd := (List.isChain_cons_cons.mp h).1
      rw [beforeComment, if_neg (by simpa [Unmarked] using hcd), hr]

/-- The cut at a comment changes exactly the texts that hold a comment mark. -/
theorem beforeComment_eq_self_iff {cs : List Char} : beforeComment cs = cs ↔ cs.IsChain Unmarked :=
  ⟨fun h => h ▸ isChain_beforeComment cs, beforeComment_eq_self⟩

theorem IsToken.isChain {cs : List Char} (h : IsToken cs) : cs.IsChain Unmarked := beforeComment_eq_self_iff.mp h.2

theorem IsToken.of_isInfix {cs part : List Char} (hb : ∀ c ∈ part, isBlank c = false)
    (hi : part <:+: beforeComment cs) : IsToken part := by
  obtain ⟨before,after,he⟩ := hi
  have hc := isChain_beforeComment cs
  rw [← he] at hc
  exact ⟨hb,beforeComment_eq_self hc.left_of_append.right_of_append⟩

theorem IsToken.cons {c : Char} {cs : List Char} (hb : isBlank c = false) (hs : c ≠ '/') (h : IsToken cs) :
    IsToken (c :: cs) := by
  refine ⟨?_,beforeComment_eq_self (h.isChain.cons ?_)⟩
  · intro x hx
    rcases List.mem_cons.mp hx with rfl | hx
    · exact hb
    · exact h.1 x hx
  · intro d hd hm
    exact hs hm.1

theorem IsToken.append {xs ys : List Char} (hx : IsToken xs) (hy : IsToken ys) (hs : ys.head? ≠ some '/') :
    IsToken (xs ++ ys) := by
  refine ⟨?_,beforeComment_eq_self (hx.isChain.append hy.isChain ?_)⟩
  · intro c hc
    rcases List.mem_append.mp hc with hc | hc
    · exact hx.1 c hc
    · exact hy.1 c hc
  · intro a _ b hb hm
    exact hs (hm.2 ▸ hb)

theorem isToken_nil : IsToken [] := ⟨by simp,rfl⟩

theorem isToken_of_forall {cs : List Char} (h : ∀ c ∈ cs, isBlank c = false ∧ c ≠ '/') : IsToken cs := by
  induction cs with
  | nil => exact isToken_nil
  | cons c rest ih =>
    obtain ⟨hc,hr⟩ := List.forall_mem_cons.mp h
    exact (ih hr).cons hc.1 hc.2

/-- Where a word of a line stands: its column counts the characters before it. -/
theorem tokensFrom_spec (start : Nat) (cs : List Char) {word : Token} (h : word ∈ tokensFrom start cs) :
    word.text ≠ [] ∧ (∀ c ∈ word.text, isBlank c = false) ∧
      ∃ k, word.start = start + k ∧ word.text <+: cs.drop k := by
  induction cs generalizing start word with
  | nil => simp [tokensFrom] at h
  | cons c rest ih =>
    -- A word of the rest stands one column further to the right.
    have hlater : ∀ {other : Token}, other ∈ tokensFrom (start + 1) rest → other.text ≠ [] ∧
        (∀ d ∈ other.text, isBlank d = false) ∧ ∃ k, other.start = start + k ∧ other.text <+: (c :: rest).drop k := by
      intro other ho
      obtain ⟨hne,hb,k,hk,hp⟩ := ih (start + 1) ho
      exact ⟨hne,hb,k + 1,by omega,by simpa using hp⟩
    rw [tokensFrom] at h
    by_cases hc : isBlank c = true
    · simp only [hc, ↓reduceIte] at h
      exact hlater h
    · have hc : isBlank c = false := by simpa using hc
      simp only [hc, Bool.false_eq_true, ↓reduceIte] at h
      have hsingle : [c] <+: (c :: rest).drop 0 := by simp
      cases ht : tokensFrom (start + 1) rest with
      | nil =>
        simp only [ht, List.mem_singleton] at h
        subst h
        exact ⟨by simp,by simpa using hc,0,rfl,hsingle⟩
      | cons next others =>
        simp only [ht] at h
        have hnext : next ∈ tokensFrom (start + 1) rest := by simp [ht]
        split at h
        next hs =>
          rcases List.mem_cons.mp h with rfl | h
          · obtain ⟨_,hb,k,hk,hp⟩ := ih (start + 1) hnext
            have hk : k = 0 := by omega
            subst hk
            refine ⟨by simp,?_,0,rfl,?_⟩
            · intro d hd
              rcases List.mem_cons.mp hd with rfl | hd
              · exact hc
              · exact hb d hd
            · simpa using hp
          · exact hlater (by simp [ht,h])
        next =>
          rcases List.mem_cons.mp h with rfl | h
          · exact ⟨by simp,by simpa using hc,0,rfl,hsingle⟩
          · exact hlater (by simpa [ht] using h)

theorem isToken_of_mem_tokens {cs : List Char} {word : Token} (h : word ∈ tokens (beforeComment cs)) :
    word.text ≠ [] ∧ IsToken word.text := by
  obtain ⟨hne,hb,k,_,hp⟩ := tokensFrom_spec 0 (beforeComment cs) h
  exact ⟨hne,IsToken.of_isInfix hb (hp.isInfix.trans (List.drop_suffix k _).isInfix)⟩

end HackToolchain.Text
