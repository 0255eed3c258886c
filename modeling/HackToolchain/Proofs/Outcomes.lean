import Mathlib.Data.List.Basic
import Mathlib.Data.List.Induction
import Mathlib.Tactic.Common

/-! # Outcomes of fallible steps

What a chain of steps that may fail has gone through once it has succeeded, and what a failure leaves of a state that
the steps change in place.  Proofs about such chains take them apart with these facts and never unfold the monad.
-/
namespace HackToolchain.Outcome

variable {ε α β : Type}

theorem bind_eq_ok {x : Except ε α} {f : α → Except ε β} {b : β} :
    (x >>= f) = .ok b ↔ ∃ a, x = .ok a ∧ f a = .ok b := by
  cases x with
  | error failure => simp [bind, Except.bind]
  | ok a => simp [bind, Except.bind]

theorem map_eq_ok {x : Except ε α} {f : α → β} {b : β} : x.map f = .ok b ↔ ∃ a, x = .ok a ∧ f a = b := by
  cases x with
  | error failure => simp [Except.map]
  | ok a => simp [Except.map]

theorem map_eq_error {x : Except ε α} {f : α → β} {failure : ε} : x.map f = .error failure ↔ x = .error failure := by
  cases x <;> simp [Except.map]

theorem bind_eq_error {x : Except ε α} {f : α → Except ε β} {failure : ε} :
    (x >>= f) = .error failure ↔ x = .error failure ∨ ∃ a, x = .ok a ∧ f a = .error failure := by
  cases x <;> simp [bind, Except.bind]

theorem pure_eq_ok {a b : α} : (pure a : Except ε α) = .ok b ↔ a = b := by
  constructor
  · intro h
    exact Except.ok.inj h
  · rintro rfl
    rfl

theorem toOption_eq_some {x : Except ε α} {a : α} : x.toOption = some a ↔ x = .ok a := by
  cases x with
  | error failure => simp [Except.toOption]
  | ok b => simp [Except.toOption]

theorem mapM_eq_ok {f : α → Except ε β} {xs : List α} {ys : List β} :
    xs.mapM f = .ok ys ↔ xs.map f = ys.map .ok := by
  induction xs generalizing ys with
  | nil =>
    rw [List.mapM_nil, pure_eq_ok]
    simp [eq_comm]
  | cons x rest ih =>
    rw [List.mapM_cons, bind_eq_ok]
    constructor
    · rintro ⟨y,hy,h⟩
      obtain ⟨zs,hz,h⟩ := bind_eq_ok.mp h
      cases pure_eq_ok.mp h
      simp [hy,ih.mp hz]
    · intro h
      cases ys with
      | nil => simp at h
      | cons y zs =>
        simp only [List.map_cons, List.cons.injEq] at h
        exact ⟨y,h.1,bind_eq_ok.mpr ⟨zs,ih.mpr h.2,rfl⟩⟩

theorem exists_of_mem_mapM {f : α → Except ε β} {xs : List α} {ys : List β} (h : xs.mapM f = .ok ys) {y : β}
    (hy : y ∈ ys) : ∃ x ∈ xs, f x = .ok y := by
  have hm : Except.ok y ∈ xs.map f := mapM_eq_ok.mp h ▸ List.mem_map_of_mem hy
  exact List.mem_map.mp hm

theorem exists_mem_of_mapM {f : α → Except ε β} {xs : List α} {ys : List β} (h : xs.mapM f = .ok ys) {x : α}
    (hx : x ∈ xs) : ∃ y ∈ ys, f x = .ok y := by
  have hm : f x ∈ ys.map .ok := mapM_eq_ok.mp h ▸ List.mem_map_of_mem hx
  obtain ⟨y,hy,he⟩ := List.mem_map.mp hm
  exact ⟨y,hy,he.symm⟩

/-- Results that tell what they come from tell the list gone through. -/
theorem map_of_mapM {f : α → Except ε β} {g : β → α} (hg : ∀ x y, f x = .ok y → g y = x) {xs : List α} {ys : List β}
    (h : xs.mapM f = .ok ys) : ys.map g = xs := by
  induction xs generalizing ys with
  | nil =>
    cases pure_eq_ok.mp h
    rfl
  | cons x rest ih =>
    rw [List.mapM_cons, bind_eq_ok] at h
    obtain ⟨y,hy,h⟩ := h
    obtain ⟨zs,hz,h⟩ := bind_eq_ok.mp h
    cases pure_eq_ok.mp h
    rw [List.map_cons, hg x y hy, ih hz]

theorem foldlM_cons_eq_ok {f : β → α → Except ε β} {x : α} {rest : List α} {b c : β} :
    (x :: rest).foldlM f b = .ok c ↔ ∃ d, f b x = .ok d ∧ rest.foldlM f d = .ok c := by
  rw [List.foldlM_cons, bind_eq_ok]

theorem exists_foldlM {f : β → α → Except ε β} {xs : List α} (h : ∀ b, ∀ x ∈ xs, ∃ c, f b x = .ok c) (b : β) :
    ∃ c, xs.foldlM f b = .ok c := by
  induction xs generalizing b with
  | nil => exact ⟨b,rfl⟩
  | cons x rest ih =>
    obtain ⟨c,hc⟩ := h b x List.mem_cons_self
    obtain ⟨d,hd⟩ := ih (fun b y hy => h b y (List.mem_cons_of_mem x hy)) c
    exact ⟨d,foldlM_cons_eq_ok.mpr ⟨c,hc,hd⟩⟩

/-- Changing the input of steps in a way that only shows in their failures. -/
theorem foldlM_map_mapError {f : β → α → Except ε β} {change : α → α} {restate : ε → ε}
    (h : ∀ b x, f b (change x) = (f b x).mapError restate) (xs : List α) (b : β) :
    (xs.map change).foldlM f b = (xs.foldlM f b).mapError restate := by
  induction xs generalizing b with
  | nil => rfl
  | cons x rest ih =>
    rw [List.map_cons, List.foldlM_cons, List.foldlM_cons, h]
    cases f b x with
    | error failure => rfl
    | ok c => exact ih c

/-- Steps that look at one side of their input only go the same way through inputs that agree there. -/
theorem foldlM_ok_congr {γ : Type} {f : β → α → Except ε β} {g : α → γ}
    (hf : ∀ x y, g x = g y → ∀ b c, f b x = .ok c → f b y = .ok c) {xs ys : List α} (h : xs.map g = ys.map g) {b c : β}
    (hx : xs.foldlM f b = .ok c) : ys.foldlM f b = .ok c := by
  induction xs generalizing ys b with
  | nil =>
    cases List.map_eq_nil_iff.mp h.symm
    exact hx
  | cons x rest ih =>
    obtain ⟨y,others,rfl,hy,hrest⟩ := List.map_eq_cons_iff.mp h.symm
    obtain ⟨d,hd,hx⟩ := foldlM_cons_eq_ok.mp hx
    exact foldlM_cons_eq_ok.mpr ⟨d,hf x y hy.symm b d hd,ih hrest.symm hx⟩

/-- What a step has failed with. -/
def failure? : Except ε α → Option ε
  | .ok _ => none
  | .error failure => some failure

theorem failure?_eq_some {x : Except ε α} {failure : ε} : failure? x = some failure ↔ x = .error failure := by
  cases x with
  | error other => simp [failure?]
  | ok a => simp [failure?]

theorem failure?_eq_none {x : Except ε α} : failure? x = none ↔ ∃ a, x = .ok a := by
  cases x with
  | error other => simp [failure?]
  | ok a => simp [failure?]

theorem failure?_seq (x : Except ε PUnit) (f : PUnit → Except ε β) :
    failure? (x >>= f) = (failure? x).or (failure? (f ⟨⟩)) := by
  cases x with
  | error failure => rfl
  | ok done => rfl

/-- What never fails adds no failure. -/
theorem failure?_bind_total {x : Except ε α} {f : α → Except ε β} (h : ∀ a, ∃ b, f a = .ok b) :
    failure? (x >>= f) = failure? x := by
  cases x with
  | error failure => rfl
  | ok a => exact failure?_eq_none.mpr (h a)

theorem failure?_mapM (f : α → Except ε β) (xs : List α) :
    failure? (xs.mapM f) = xs.findSome? fun x => failure? (f x) := by
  induction xs with
  | nil => rfl
  | cons x rest ih =>
    rw [List.mapM_cons, List.findSome?_cons, ← ih]
    cases f x with
    | error failure => rfl
    | ok b =>
      cases rest.mapM f with
      | error failure => rfl
      | ok ys => rfl

theorem exists_mapM {f : α → Except ε β} {xs : List α} (h : ∀ x ∈ xs, ∃ y, f x = .ok y) :
    ∃ ys, xs.mapM f = .ok ys := by
  rw [← failure?_eq_none, failure?_mapM, List.findSome?_eq_none_iff]
  exact fun x hx => failure?_eq_none.mpr (h x hx)

theorem failure?_forM (f : α → Except ε PUnit) (xs : List α) :
    failure? (xs.forM f) = xs.findSome? fun x => failure? (f x) := by
  induction xs with
  | nil => rfl
  | cons x rest ih =>
    rw [List.findSome?_cons, ← ih]
    cases hx : f x with
    | error failure => simp [List.forM, hx, failure?, bind, Except.bind]
    | ok done => simp [List.forM, hx, failure?, bind, Except.bind]

theorem forM_eq_ok {f : α → Except ε Unit} {xs : List α} : xs.forM f = .ok () ↔ ∀ x ∈ xs, f x = .ok () := by
  have hunit : ∀ y : Except ε Unit, failure? y = none ↔ y = .ok () := fun y => by cases y <;> simp [failure?]
  rw [← hunit, failure?_forM, List.findSome?_eq_none_iff]
  exact forall₂_congr fun x _ => hunit (f x)

/-- Two steps fail alike or lead to related results. -/
inductive Both {γ : Type} (related : α → γ → Prop) : Except ε α → Except ε γ → Prop
  | error (failure : ε) : Both related (.error failure) (.error failure)
  | ok {a : α} {c : γ} (h : related a c) : Both related (.ok a) (.ok c)

section First

variable {σ : Type}

/-- No element fails after those before it. -/
def NoneFails (fails : List α → α → ε → Prop) (xs : List α) : Prop :=
  ∀ before x after, xs = before ++ x :: after → ∀ failure, ¬fails before x failure

/-- The first element that fails after those before it. -/
def FirstFails (fails : List α → α → ε → Prop) (xs : List α) (x : α) (failure : ε) : Prop :=
  ∃ before after, xs = before ++ x :: after ∧ NoneFails fails before ∧ fails before x failure

theorem split_concat {xs before after : List α} {x y : α} (h : xs ++ [x] = before ++ y :: after) :
    xs = before ∧ x = y ∨ ∃ rest, xs = before ++ y :: rest := by
  rcases List.eq_nil_or_concat' after with rfl | ⟨rest,last,rfl⟩
  · exact .inl (by simpa using h)
  · rw [← List.cons_append, ← List.append_assoc] at h
    exact .inr ⟨rest,List.append_inj_left' h rfl⟩

theorem noneFails_nil (fails : List α → α → ε → Prop) : NoneFails fails [] := by
  intro before x after h
  simp at h

theorem noneFails_concat {fails : List α → α → ε → Prop} {xs : List α} {x : α} :
    NoneFails fails (xs ++ [x]) ↔ NoneFails fails xs ∧ ∀ failure, ¬fails xs x failure := by
  constructor
  · intro h
    refine ⟨?_,h xs x [] rfl⟩
    rintro before y after rfl
    exact h before y (after ++ [x]) (by simp)
  · rintro ⟨hxs,hx⟩ before y after h
    rcases split_concat h with ⟨rfl,rfl⟩ | ⟨rest,rfl⟩
    · exact hx
    · exact hxs before y rest rfl

theorem firstFails_concat {fails : List α → α → ε → Prop} {xs : List α} {x y : α} {failure : ε} :
    FirstFails fails (xs ++ [x]) y failure ↔
      FirstFails fails xs y failure ∨ (NoneFails fails xs ∧ y = x ∧ fails xs x failure) := by
  constructor
  · rintro ⟨before,after,h,hnone,hfails⟩
    rcases split_concat h with ⟨rfl,rfl⟩ | ⟨rest,rfl⟩
    · exact .inr ⟨hnone,rfl,hfails⟩
    · exact .inl ⟨before,rest,rfl,hnone,hfails⟩
  · rintro (⟨before,after,rfl,hnone,hfails⟩ | ⟨hnone,rfl,hfails⟩)
    · exact ⟨before,after ++ [x],by simp,hnone,hfails⟩
    · exact ⟨xs,[],rfl,hnone,hfails⟩

/-- If it is known of every step when it fails after the steps before it, then a whole run ends well if no step fails,
and otherwise with the first failure. -/
theorem foldlM_fails {f : β → α → Except (σ × ε) β} {b : β} {fails : List α → α → ε → Prop}
    (hstep : ∀ before c, before.foldlM f b = .ok c →
      ∀ x failure, (∃ state, f c x = .error (state, failure)) ↔ fails before x failure) (xs : List α) :
    ((∃ c, xs.foldlM f b = .ok c) ↔ NoneFails fails xs) ∧
      ∀ failure, (∃ state, xs.foldlM f b = .error (state, failure)) ↔ ∃ x, FirstFails fails xs x failure := by
  -- The induction takes elements off the end, since an element fails or not after those before it.
  induction xs using List.reverseRecOn with
  | nil =>
    refine ⟨iff_of_true ⟨b,rfl⟩ (noneFails_nil fails),fun failure => iff_of_false ?_ ?_⟩
    · rintro ⟨state,h⟩
      cases h
    · rintro ⟨x,before,after,h,-⟩
      simp at h
  | append_singleton xs x ih =>
    rw [List.foldlM_append]
    cases hxs : xs.foldlM f b with
    | error stopped =>
      rw [hxs] at ih
      have hsome : ¬NoneFails fails xs := fun h => by
        obtain ⟨c,hc⟩ := ih.1.mpr h
        cases hc
      refine ⟨iff_of_false ?_ fun h => hsome (noneFails_concat.mp h).1,fun failure => (ih.2 failure).trans ?_⟩
      · rintro ⟨c,hc⟩
        cases hc
      · simp [firstFails_concat, hsome]
    | ok c =>
      have hnone : NoneFails fails xs := ih.1.mp ⟨c,hxs⟩
      have hfirst : ∀ y failure, ¬FirstFails fails xs y failure := by
        intro y failure h
        obtain ⟨state,hs⟩ := (ih.2 failure).mpr ⟨y,h⟩
        cases hxs.symm.trans hs
      have hlast : (Except.ok c >>= fun c => [x].foldlM f c) = f c x := bind_pure (f c x)
      rw [hlast, noneFails_concat]
      refine ⟨?_,fun failure => (hstep xs c hxs x failure).trans ?_⟩
      · simp only [← hstep xs c hxs, hnone, true_and]
        cases f c x with
        | ok d => simp
        | error stopped =>
          obtain ⟨state,failure⟩ := stopped
          simp
      · simp [firstFails_concat, hfirst, hnone]

end First

section InPlace

variable {σ : Type}

/-- What comes of work that changes a state in place, and the state after it.  A failure does not take back what was done
before it. -/
def result (work : ExceptT ε (StateM σ) α) (state : σ) : Except ε α × σ := work.run.run state

theorem result_bind (work : ExceptT ε (StateM σ) α) (next : α → ExceptT ε (StateM σ) β) (state : σ) :
    result (work >>= next) state =
      match result work state with
      | (.ok a, changed) => result (next a) changed
      | (.error failure, changed) => (.error failure, changed) := by
  simp only [result, ExceptT.run_bind, StateT.run_bind]
  cases h : work.run.run state with
  | mk outcome changed => cases outcome <;> rfl

theorem result_bind_ok {work : ExceptT ε (StateM σ) α} {state changed : σ} {a : α}
    (h : result work state = (.ok a, changed)) (next : α → ExceptT ε (StateM σ) β) :
    result (work >>= next) state = result (next a) changed := by
  rw [result_bind, h]

theorem result_bind_error {work : ExceptT ε (StateM σ) α} {state changed : σ} {failure : ε}
    (h : result work state = (.error failure, changed)) (next : α → ExceptT ε (StateM σ) β) :
    result (work >>= next) state = (.error failure, changed) := by
  rw [result_bind, h]

@[simp] theorem result_pure (a : α) (state : σ) :
    result (pure a : ExceptT ε (StateM σ) α) state = (.ok a, state) := rfl

@[simp] theorem result_get (state : σ) : result (get : ExceptT ε (StateM σ) σ) state = (.ok state, state) := rfl

@[simp] theorem result_throw (failure : ε) (state : σ) :
    result (throw failure : ExceptT ε (StateM σ) α) state = (.error failure, state) := rfl

@[simp] theorem result_modify (f : σ → σ) (state : σ) :
    result (modify f : ExceptT ε (StateM σ) PUnit) state = (.ok (), f state) := rfl

theorem result_get_bind (next : σ → ExceptT ε (StateM σ) α) (state : σ) :
    result (get >>= next) state = result (next state) state := result_bind_ok (result_get state) next

end InPlace

end HackToolchain.Outcome
