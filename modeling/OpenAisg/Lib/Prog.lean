import Mathlib.Order.Defs.Unbundled
import Mathlib.Tactic.Common

/-!
# Programs with state, exceptions and a loop bound

A small calculus for imperative code that reads and writes a state, raises
exceptions and loops on its environment.  A program of type `Prog σ ε α` maps a
state to an outcome and the state it left behind; the state survives an
exception, which is what a `try … except … finally` needs.

* `Outcome` — a value, an exception, or `stall`: an unbounded loop that has not
  ended within the bound it was given.  No handler catches a stall, so a
  statement about every bound is a statement about every finite run.
* `Prog.handle`, `Prog.ensure` — `try … except` and `try … finally`.
* `Prog.scan`, `Prog.loop` — a `for` over a list and a `while True`, both of
  which the body may leave early (`Step.done`).
* `Prog.zoom` — run a program on a part of the state.

There are four ways to say something about a program, from the most to the least
detailed; each is closed under the constructs above by a lemma of its own.

* `wp c Q E S s` — running `c` from `s` ends in `Q` if it returns, in `E` if it
  raises, and in `S` if it stalls.  The lemmas `wp_bind`, `wp_ite` and so on are
  equivalences, so they rewrite a goal; the loops have rules with an invariant
  (`wp_scan`, `wp_loop`) or with a measure (`wp_loop_measure`).
* `Walks R E c` — however `c` returns, `R` relates the two states; when it raises
  `e`, `E e` does.
* `Raises P c` — every exception that `c` raises satisfies `P`.
* `Moves R c` — whatever way `c` ends, the state it leaves is `R`-related to the
  one it started in.  For a preorder `R` this is closed under every construct
  above, so a frame or an invariant is proved by walking over the program once.
-/

/-- How a program ends. -/
inductive Outcome (ε α : Type) where
  /-- It returned a value. -/
  | ret (a : α)
  /-- It raised an exception. -/
  | raise (e : ε)
  /-- It was still looping when its loop bound ran out. -/
  | stall
  deriving Repr, DecidableEq

/-- What a loop body says: leave the loop with a value, or go on. -/
inductive Step (β α : Type) where
  | done (b : β)
  | next (a : α)
  deriving Repr, DecidableEq

/-- `D` of a value that a loop was left with, `I` of the variables it goes on with. -/
def Step.post {β α σ : Type} (D : β → σ → Prop) (I : α → σ → Prop) : Step β α → σ → Prop
  | .done b => D b
  | .next a => I a

/-- A program over a state `σ` with exceptions `ε` and a result `α`. -/
def Prog (σ ε α : Type) : Type := σ → Outcome ε α × σ

namespace Prog

variable {σ τ ε α β γ : Type}

instance : Monad (Prog σ ε) where
  pure a := fun s => (.ret a, s)
  bind c f := fun s =>
    match c s with
    | (.ret a, t) => f a t
    | (.raise e, t) => (.raise e, t)
    | (.stall, t) => (.stall, t)

/-- Read the state. -/
def get : Prog σ ε σ := fun s => (.ret s, s)

/-- Read a part of the state. -/
def read (f : σ → α) : Prog σ ε α := fun s => (.ret (f s), s)

/-- Update the state. -/
def modify (f : σ → σ) : Prog σ ε Unit := fun s => (.ret (), f s)

/-- Raise an exception. -/
def raise (e : ε) : Prog σ ε α := fun s => (.raise e, s)

/-- A loop whose bound ran out. -/
def stall : Prog σ ε α := fun s => (.stall, s)

/-- `try c except …`: `h e` is the handler of `e`, or `none` when no clause
matches. -/
def handle (c : Prog σ ε α) (h : ε → Option (Prog σ ε α)) : Prog σ ε α := fun s =>
  match c s with
  | (.raise e, t) =>
      match h e with
      | some d => d t
      | none => (.raise e, t)
  | r => r

/-- `try c finally d`. -/
def ensure (c : Prog σ ε α) (d : Prog σ ε Unit) : Prog σ ε α := fun s =>
  match c s with
  | (.stall, t) => (.stall, t)
  | (o, t) =>
      match d t with
      | (.ret _, u) => (o, u)
      | (.raise e, u) => (.raise e, u)
      | (.stall, u) => (.stall, u)

/-- Run a program on a part of the state. -/
def zoom (view : τ → σ) (put : τ → σ → τ) (c : Prog σ ε α) : Prog τ ε α := fun t =>
  ((c (view t)).1, put t (c (view t)).2)

/-- `if b: c`. -/
def onlyIf (b : Bool) (c : Prog σ ε Unit) : Prog σ ε Unit := if b then c else pure ()

/-- `for x in xs: f x`. -/
def forEach (f : α → Prog σ ε Unit) : List α → Prog σ ε Unit
  | [] => pure ()
  | x :: xs => do
      f x
      forEach f xs

/-- `for x in xs: …` with local variables `a`; the body may return from the
enclosing function. -/
def scan (f : α → γ → Prog σ ε (Step β α)) : α → List γ → Prog σ ε (Step β α)
  | a, [] => pure (.next a)
  | a, x :: xs => do
      match ← f a x with
      | .done b => pure (.done b)
      | .next a' => scan f a' xs

/-- `while True: …` with local variables `a`, for at most `n` passes. -/
def loop (f : α → Prog σ ε (Step β α)) : Nat → α → Prog σ ε β
  | 0, _ => stall
  | n + 1, a => do
      match ← f a with
      | .done b => pure b
      | .next a' => loop f n a'

/-- The first `n` passes of such a loop. -/
def iterate (f : α → Prog σ ε (Step β α)) : Nat → α → Prog σ ε (Step β α)
  | 0, a => pure (.next a)
  | n + 1, a => do
      match ← f a with
      | .done b => pure (.done b)
      | .next a' => iterate f n a'

/-! ## What one run does -/

@[simp] theorem pure_run (a : α) (s : σ) : (pure a : Prog σ ε α) s = (.ret a, s) := rfl
@[simp] theorem get_run (s : σ) : (get : Prog σ ε σ) s = (.ret s, s) := rfl
@[simp] theorem read_run (f : σ → α) (s : σ) : (read f : Prog σ ε α) s = (.ret (f s), s) := rfl
@[simp] theorem modify_run (f : σ → σ) (s : σ) :
    (modify f : Prog σ ε Unit) s = (.ret (), f s) := rfl
@[simp] theorem raise_run (e : ε) (s : σ) : (raise e : Prog σ ε α) s = (.raise e, s) := rfl
@[simp] theorem stall_run (s : σ) : (stall : Prog σ ε α) s = (.stall, s) := rfl

theorem bind_run (c : Prog σ ε α) (f : α → Prog σ ε β) (s : σ) :
    (c >>= f) s = match c s with
      | (.ret a, t) => f a t
      | (.raise e, t) => (.raise e, t)
      | (.stall, t) => (.stall, t) := rfl

/-- A sequence goes on from where its first part returns. -/
theorem bind_of_ret {c : Prog σ ε α} {s t : σ} {a : α} (h : c s = (.ret a, t))
    (f : α → Prog σ ε β) : (c >>= f) s = f a t := by
  rw [bind_run, h]

/-- A sequence that returns has come past its first part. -/
theorem ret_of_bind {c : Prog σ ε α} {f : α → Prog σ ε β} {s u : σ} {b : β}
    (h : (c >>= f) s = (.ret b, u)) : ∃ a t, c s = (.ret a, t) ∧ f a t = (.ret b, u) := by
  rw [bind_run] at h
  rcases hc : c s with ⟨o, t⟩
  rw [hc] at h
  cases o with
  | ret a => exact ⟨a, t, rfl, h⟩
  | raise e => cases h
  | stall => cases h

/-- Sequencing is associative, as an equation of programs. -/
theorem bind_assoc_run (c : Prog σ ε α) (f : α → Prog σ ε β) (g : β → Prog σ ε γ) :
    (c >>= f) >>= g = c >>= fun a => f a >>= g := by
  funext s
  rw [bind_run, bind_run, bind_run]
  rcases c s with ⟨o, t⟩
  cases o <;> rfl

/-- What follows a branch may be moved into it. -/
theorem ite_bind (b : Prop) [Decidable b] (c d : Prog σ ε α) (f : α → Prog σ ε β) :
    (if b then c else d) >>= f = if b then c >>= f else d >>= f := by
  split_ifs <;> rfl

/-! ## Weakest preconditions -/

/-- `wp c Q E S s`: from `s`, the program `c` ends in `Q` when it returns, in `E`
when it raises, and in `S` when it stalls. -/
def wp (c : Prog σ ε α) (Q : α → σ → Prop) (E : ε → σ → Prop) (S : σ → Prop) (s : σ) : Prop :=
  match c s with
  | (.ret a, t) => Q a t
  | (.raise e, t) => E e t
  | (.stall, t) => S t

section Wp

variable {Q Q' : α → σ → Prop} {E E' : ε → σ → Prop} {S S' : σ → Prop} {s : σ}

/-- The three ways to end, one at a time. -/
theorem wp_iff {c : Prog σ ε α} : wp c Q E S s ↔
    (∀ a t, c s = (.ret a, t) → Q a t) ∧ (∀ e t, c s = (.raise e, t) → E e t) ∧
      (∀ t, c s = (.stall, t) → S t) := by
  unfold wp
  rcases h : c s with ⟨o, t⟩
  cases o <;> simp

/-- The rule of consequence. -/
theorem wp.mono {c : Prog σ ε α} (h : wp c Q E S s) (hQ : ∀ a t, Q a t → Q' a t)
    (hE : ∀ e t, E e t → E' e t) (hS : ∀ t, S t → S' t) : wp c Q' E' S' s := by
  unfold wp at h ⊢
  rcases hc : c s with ⟨o, t⟩
  rw [hc] at h
  cases o with
  | ret a => exact hQ a t h
  | raise e => exact hE e t h
  | stall => exact hS t h

/-- Only what the postcondition says of a value counts. -/
theorem wp_congr {c : Prog σ ε α} (h : ∀ a t, Q a t ↔ Q' a t) : wp c Q E S s ↔ wp c Q' E S s :=
  ⟨fun hw => hw.mono (fun a t => (h a t).1) (fun _ _ h => h) fun _ h => h,
    fun hw => hw.mono (fun a t => (h a t).2) (fun _ _ h => h) fun _ h => h⟩

/-- Two facts about one run hold together. -/
theorem wp.and {c : Prog σ ε α} (h : wp c Q E S s) (h' : wp c Q' E' S' s) :
    wp c (fun a t => Q a t ∧ Q' a t) (fun e t => E e t ∧ E' e t) (fun t => S t ∧ S' t) s := by
  unfold wp at h h' ⊢
  rcases hc : c s with ⟨o, t⟩
  rw [hc] at h h'
  cases o <;> exact ⟨h, h'⟩

/-- What holds however the run ends holds of the state it leaves. -/
theorem wp.leaves {c : Prog σ ε α} {P : σ → Prop}
    (h : wp c (fun _ t => P t) (fun _ t => P t) P s) : P (c s).2 := by
  unfold wp at h
  rcases hc : c s with ⟨o, t⟩
  rw [hc] at h
  cases o <;> exact h

/-- A run of an unknown program, for which nothing but the postcondition is known. -/
theorem wp_any {c : Prog σ ε α} (hQ : ∀ a t, Q a t) (hE : ∀ e t, E e t) (hS : ∀ t, S t)
    (s : σ) : wp c Q E S s :=
  wp_iff.2 ⟨fun a t _ => hQ a t, fun e t _ => hE e t, fun t _ => hS t⟩

@[simp] theorem wp_pure (a : α) : wp (pure a : Prog σ ε α) Q E S s ↔ Q a s := Iff.rfl

@[simp] theorem wp_get {Q : σ → σ → Prop} : wp (get : Prog σ ε σ) Q E S s ↔ Q s s := Iff.rfl

@[simp] theorem wp_read (f : σ → α) : wp (read f : Prog σ ε α) Q E S s ↔ Q (f s) s := Iff.rfl

@[simp] theorem wp_modify (f : σ → σ) {Q : Unit → σ → Prop} :
    wp (modify f : Prog σ ε Unit) Q E S s ↔ Q () (f s) := Iff.rfl

@[simp] theorem wp_raise (e : ε) : wp (raise e : Prog σ ε α) Q E S s ↔ E e s := Iff.rfl

@[simp] theorem wp_stall : wp (stall : Prog σ ε α) Q E S s ↔ S s := Iff.rfl

@[simp] theorem wp_bind (c : Prog σ ε α) (f : α → Prog σ ε β) {Q : β → σ → Prop} :
    wp (c >>= f) Q E S s ↔ wp c (fun a t => wp (f a) Q E S t) E S s := by
  unfold wp
  rw [bind_run]
  rcases c s with ⟨o, t⟩
  cases o <;> rfl

@[simp] theorem wp_ite (b : Prop) [Decidable b] (c d : Prog σ ε α) :
    wp (if b then c else d) Q E S s ↔ (b → wp c Q E S s) ∧ (¬ b → wp d Q E S s) := by
  by_cases hb : b <;> simp [hb]

@[simp] theorem wp_onlyIf (b : Bool) (c : Prog σ ε Unit) {Q : Unit → σ → Prop} :
    wp (onlyIf b c) Q E S s ↔ (b = true → wp c Q E S s) ∧ (b = false → Q () s) := by
  cases b <;> simp [onlyIf]

/-- A handler runs in the state the exception left. -/
theorem wp_handle {c : Prog σ ε α} {h : ε → Option (Prog σ ε α)} :
    wp (handle c h) Q E S s ↔
      wp c Q (fun e t => match h e with
        | some d => wp d Q E S t
        | none => E e t) S s := by
  unfold wp handle
  rcases c s with ⟨o, t⟩
  cases o with
  | ret a => rfl
  | raise e => dsimp only; cases h e <;> rfl
  | stall => rfl

/-- The `finally` runs either way; an exception of its own replaces the outcome. -/
theorem wp_ensure {c : Prog σ ε α} {d : Prog σ ε Unit} :
    wp (ensure c d) Q E S s ↔
      wp c (fun a t => wp d (fun _ u => Q a u) E S t)
        (fun e t => wp d (fun _ u => E e u) E S t) S s := by
  unfold wp ensure
  rcases c s with ⟨o, t⟩
  cases o with
  | stall => rfl
  | _ =>
      dsimp only
      rcases d t with ⟨o', u⟩
      cases o' <;> rfl

theorem wp_zoom {view : τ → σ} {put : τ → σ → τ} {c : Prog σ ε α} {Q : α → τ → Prop}
    {E : ε → τ → Prop} {S : τ → Prop} {t : τ} :
    wp (zoom view put c) Q E S t ↔
      wp c (fun a s => Q a (put t s)) (fun e s => E e (put t s)) (fun s => S (put t s))
        (view t) := by
  unfold wp zoom
  rcases c (view t) with ⟨o, s⟩
  cases o <;> rfl

/-- A program whose end tells whether `P` raises exactly when `P`. -/
theorem raises_iff {c : Prog σ ε α} {P : Prop}
    (h : wp c (fun _ _ => ¬ P) (fun _ _ => P) (fun _ => ¬ P) s) :
    (∃ e t, c s = (.raise e, t)) ↔ P := by
  obtain ⟨hret, hraise, hstall⟩ := wp_iff.1 h
  constructor
  · rintro ⟨e, t, he⟩
    exact hraise e t he
  · intro hP
    rcases hc : c s with ⟨o, t⟩
    cases o with
    | ret a => exact absurd hP (hret a t hc)
    | raise e => exact ⟨e, t, rfl⟩
    | stall => exact absurd hP (hstall t hc)

/-- The rule of a `for` over a list; the invariant may speak of what is left of it. -/
theorem wp_scan {f : α → γ → Prog σ ε (Step β α)} (I : List γ → α → σ → Prop)
    {D : β → σ → Prop}
    (hf : ∀ x xs a s, I (x :: xs) a s → wp (f a x) (Step.post D (I xs)) E S s) :
    ∀ xs a s, I xs a s → wp (scan f a xs) (Step.post D (I [])) E S s := by
  intro xs
  induction xs with
  | nil => intro a s h; exact h
  | cons x xs ih =>
      intro a s h
      unfold scan
      rw [wp_bind]
      refine (hf x xs a s h).mono (fun r t hr => ?_) (fun _ _ h => h) fun _ h => h
      cases r with
      | done b => exact hr
      | next a' => exact ih a' t hr

/-- The rule of a `for` that is only run for its effects. -/
theorem wp_forEach {f : α → Prog σ ε Unit} (I : List α → σ → Prop)
    (hf : ∀ x xs s, I (x :: xs) s → wp (f x) (fun _ t => I xs t) E S s) :
    ∀ xs s, I xs s → wp (forEach f xs) (fun _ t => I [] t) E S s := by
  intro xs
  induction xs with
  | nil => intro s h; exact h
  | cons x xs ih =>
      intro s h
      unfold forEach
      rw [wp_bind]
      exact (hf x xs s h).mono (fun _ t ht => ih t ht) (fun _ _ h => h) fun _ h => h

/-- One pass of a `while True`. -/
theorem loop_run (f : α → Prog σ ε (Step β α)) (n : Nat) (a : α) (s : σ) :
    loop f (n + 1) a s = match f a s with
      | (.ret (.done b), t) => (.ret b, t)
      | (.ret (.next a'), t) => loop f n a' t
      | (.raise e, t) => (.raise e, t)
      | (.stall, t) => (.stall, t) := by
  rw [loop, bind_run]
  rcases f a s with ⟨o, t⟩
  cases o with
  | ret r => cases r <;> rfl
  | raise e => rfl
  | stall => rfl

/-- A loop is its first passes, and then the loop. -/
theorem loop_add (f : α → Prog σ ε (Step β α)) (n m : Nat) (a : α) :
    loop f (n + m) a = iterate f n a >>= fun r => match r with
      | .done b => pure b
      | .next a' => loop f m a' := by
  induction n generalizing a with
  | zero =>
      rw [Nat.zero_add]
      rfl
  | succ n ih =>
      funext s
      rw [Nat.succ_add, loop_run, iterate, bind_assoc_run, bind_run]
      rcases f a s with ⟨o, t⟩
      cases o with
      | ret r =>
          cases r with
          | done b => rfl
          | next a' => exact congrFun (ih a') t
      | raise e => rfl
      | stall => rfl

/-- The rule of the first passes of a loop. -/
theorem wp_iterate {f : α → Prog σ ε (Step β α)} (I : α → σ → Prop) {D : β → σ → Prop}
    (hf : ∀ a s, I a s → wp (f a) (Step.post D I) E S s) :
    ∀ n a s, I a s → wp (iterate f n a) (Step.post D I) E S s := by
  intro n
  induction n with
  | zero => intro a s h; exact h
  | succ n ih =>
      intro a s h
      unfold iterate
      rw [wp_bind]
      refine (hf a s h).mono (fun r t hr => ?_) (fun _ _ h => h) fun _ h => h
      cases r with
      | done b => exact hr
      | next a' => exact ih a' t hr

/-- The rule of a `while True`, for every bound.  Where the bound runs out, one pass
more of it would go on from the state left. -/
theorem wp_loop_last {f : α → Prog σ ε (Step β α)} (I : α → σ → Prop) {D : β → σ → Prop}
    (hf : ∀ a s, I a s → wp (f a) (Step.post D I) E S s) :
    ∀ n a s, I a s → wp (loop f n a) D E
      (fun t => S t ∨ ∃ a', I a' t ∧ loop f (n + 1) a s = loop f 1 a' t) s := by
  intro n
  induction n with
  | zero => intro a s h; exact Or.inr ⟨a, h, rfl⟩
  | succ n ih =>
      intro a s h
      have hstep := hf a s h
      rw [loop_run f (n + 1) a s]
      unfold wp at hstep ⊢
      rw [loop_run]
      rcases hc : f a s with ⟨o, t⟩
      rw [hc] at hstep
      cases o with
      | ret r =>
          cases r with
          | done b => exact hstep
          | next a' => exact ih a' t hstep
      | raise e => exact hstep
      | stall => exact Or.inl hstep

/-- The rule of a `while True` whose invariant counts the passes that are left. -/
theorem wp_loop_left {f : α → Prog σ ε (Step β α)} (I : Nat → α → σ → Prop) {D : β → σ → Prop}
    (hS : ∀ a s, I 0 a s → S s)
    (hf : ∀ n a s, I (n + 1) a s → wp (f a) (Step.post D (I n)) E S s) :
    ∀ n a s, I n a s → wp (loop f n a) D E S s := by
  intro n
  induction n with
  | zero => intro a s h; exact hS a s h
  | succ n ih =>
      intro a s h
      unfold loop
      rw [wp_bind]
      refine (hf n a s h).mono (fun r t hr => ?_) (fun _ _ h => h) fun _ h => h
      cases r with
      | done b => exact hr
      | next a' => exact ih a' t hr

/-- The same for an invariant that does not, and is all there is to know of a bound that ran out. -/
theorem wp_loop {f : α → Prog σ ε (Step β α)} (I : α → σ → Prop) {D : β → σ → Prop}
    (hS : ∀ a s, I a s → S s)
    (hf : ∀ a s, I a s → wp (f a) (Step.post D I) E S s) :
    ∀ n a s, I a s → wp (loop f n a) D E S s :=
  wp_loop_left (fun _ => I) hS fun _ => hf

/-- A `while True` whose passes each lower a measure ends within it. -/
theorem wp_loop_measure {f : α → Prog σ ε (Step β α)} (I : Nat → α → σ → Prop)
    {D : β → σ → Prop}
    (hf : ∀ m a s, I m a s → wp (f a) (Step.post D fun a' t => ∃ m', m' < m ∧ I m' a' t) E S s) :
    ∀ n m a s, m < n → I m a s → wp (loop f n a) D E S s := by
  intro n
  induction n with
  | zero => intro m a s hm _; exact absurd hm (Nat.not_lt_zero m)
  | succ n ih =>
      intro m a s hm h
      unfold loop
      rw [wp_bind]
      refine (hf m a s h).mono (fun r t hr => ?_) (fun _ _ h => h) fun _ h => h
      cases r with
      | done b => exact hr
      | next a' =>
          obtain ⟨m', hm', h'⟩ := hr
          exact ih m' a' t (by omega) h'

end Wp

/-! ## Relations every run respects -/

/-- However `c` ends, it leaves a state that `R` relates to the one before. -/
def Moves (R : σ → σ → Prop) (c : Prog σ ε α) : Prop := ∀ s, R s (c s).2

section Moves

variable {R R' : σ → σ → Prop}

/-- As a triple with the same postcondition three times. -/
theorem Moves.wp {c : Prog σ ε α} (h : Moves R c) (s : σ) :
    wp c (fun _ t => R s t) (fun _ t => R s t) (R s) s := by
  have hs := h s
  unfold Prog.wp
  rcases hc : c s with ⟨o, t⟩
  rw [hc] at hs
  cases o <;> exact hs

/-- And back. -/
theorem moves_of_wp {c : Prog σ ε α}
    (h : ∀ s, Prog.wp c (fun _ t => R s t) (fun _ t => R s t) (R s) s) : Moves R c :=
  fun s => (h s).leaves

/-- A coarser relation. -/
theorem Moves.mono {c : Prog σ ε α} (h : Moves R c) (hR : ∀ s t, R s t → R' s t) :
    Moves R' c := fun s => hR _ _ (h s)

theorem moves_modify {f : σ → σ} (h : ∀ s, R s (f s)) : Moves R (modify f : Prog σ ε Unit) := h

theorem moves_ite {b : Prop} [Decidable b] {c d : Prog σ ε α} (hc : b → Moves R c)
    (hd : ¬ b → Moves R d) : Moves R (if b then c else d) := by
  by_cases hb : b
  · rw [if_pos hb]
    exact hc hb
  · rw [if_neg hb]
    exact hd hb

variable [IsPreorder σ R]

theorem moves_read (f : σ → α) : Moves R (read f : Prog σ ε α) := fun s => Std.Refl.refl s

theorem moves_pure (a : α) : Moves R (pure a : Prog σ ε α) := fun s => Std.Refl.refl s

theorem moves_raise (e : ε) : Moves R (raise e : Prog σ ε α) := fun s => Std.Refl.refl s

theorem moves_stall : Moves R (stall : Prog σ ε α) := fun s => Std.Refl.refl s

/-- From one state; the rest may use what is known of the result. -/
theorem moves_bind_at {c : Prog σ ε α} {f : α → Prog σ ε β} {P : α → σ → Prop} {s : σ}
    (hc : R s (c s).2) (hP : Prog.wp c P (fun _ _ => True) (fun _ => True) s)
    (hf : ∀ a t, P a t → R t (f a t).2) : R s ((c >>= f) s).2 := by
  unfold Prog.wp at hP
  rw [bind_run]
  rcases h : c s with ⟨o, t⟩
  rw [h] at hc hP
  cases o with
  | ret a => exact IsTrans.trans _ _ _ hc (hf a t hP)
  | raise e => exact hc
  | stall => exact hc

/-- What is known of the result may be used in the rest. -/
theorem moves_bind_of {c : Prog σ ε α} {f : α → Prog σ ε β} {P : α → σ → Prop} (hc : Moves R c)
    (hP : ∀ s, Prog.wp c P (fun _ _ => True) (fun _ => True) s)
    (hf : ∀ a s, P a s → R s (f a s).2) : Moves R (c >>= f) :=
  fun s => moves_bind_at (hc s) (hP s) hf

/-- One after the other: here transitivity is used. -/
theorem moves_bind {c : Prog σ ε α} {f : α → Prog σ ε β} (hc : Moves R c)
    (hf : ∀ a, Moves R (f a)) : Moves R (c >>= f) :=
  moves_bind_of hc (wp_any (Q := fun _ _ => True) (fun _ _ => trivial) (fun _ _ => trivial)
    fun _ => trivial) fun a s _ => hf a s

/-- A handler has to respect the relation only if it is taken. -/
theorem moves_handle {c : Prog σ ε α} {h : ε → Option (Prog σ ε α)} (hc : Moves R c)
    (hh : ∀ e d, h e = some d → Moves R d) : Moves R (handle c h) := by
  intro s
  have hs := hc s
  unfold handle
  rcases h₁ : c s with ⟨o, t⟩
  rw [h₁] at hs
  cases o with
  | ret a => exact hs
  | stall => exact hs
  | raise e =>
      dsimp only
      cases h₂ : h e with
      | none => exact hs
      | some d => exact IsTrans.trans _ _ _ hs (hh e d h₂ t)

theorem moves_ensure {c : Prog σ ε α} {d : Prog σ ε Unit} (hc : Moves R c)
    (hd : Moves R d) : Moves R (ensure c d) := by
  intro s
  have hs := hc s
  unfold ensure
  rcases h₁ : c s with ⟨o, t⟩
  rw [h₁] at hs
  cases o with
  | stall => exact hs
  | _ =>
      have hu := hd t
      dsimp only at hs ⊢
      rcases h₂ : d t with ⟨o', u⟩
      rw [h₂] at hu
      cases o' <;> exact IsTrans.trans _ _ _ hs hu

theorem moves_onlyIf {b : Bool} {c : Prog σ ε Unit} (hc : b = true → Moves R c) :
    Moves R (onlyIf b c) :=
  moves_ite hc fun _ => moves_pure _

theorem moves_forEach {f : α → Prog σ ε Unit} (xs : List α) (hf : ∀ x ∈ xs, Moves R (f x)) :
    Moves R (forEach f xs) := by
  induction xs with
  | nil => exact moves_pure ()
  | cons x xs ih =>
      unfold forEach
      refine moves_bind (hf x (List.mem_cons_self ..)) fun _ => ?_
      exact ih fun y hy => hf y (List.mem_cons_of_mem _ hy)

theorem moves_scan {f : α → γ → Prog σ ε (Step β α)} (hf : ∀ a x, Moves R (f a x))
    (xs : List γ) : ∀ a, Moves R (scan f a xs) := by
  induction xs with
  | nil => intro a; exact moves_pure _
  | cons x xs ih =>
      intro a
      unfold scan
      refine moves_bind (hf a x) fun r => ?_
      cases r with
      | done b => exact moves_pure _
      | next a' => exact ih a'

/-- The loop, for every bound. -/
theorem moves_loop {f : α → Prog σ ε (Step β α)} (hf : ∀ a, Moves R (f a)) :
    ∀ n a, Moves R (loop f n a) := by
  intro n
  induction n with
  | zero => intro a; exact moves_stall
  | succ n ih =>
      intro a
      unfold loop
      refine moves_bind (hf a) fun r => ?_
      cases r with
      | done b => exact moves_pure _
      | next a' => exact ih a'

end Moves

/-! ## What a program raises -/

/-- Every exception that `c` raises satisfies `P`. -/
def Raises (P : ε → Prop) (c : Prog σ ε α) : Prop :=
  ∀ s, wp c (fun _ _ => True) (fun e _ => P e) (fun _ => True) s

section Raises

variable {P P' : ε → Prop}

theorem raises_pure (a : α) : Raises P (pure a : Prog σ ε α) := fun _ => trivial

theorem raises_read (f : σ → α) : Raises P (read f : Prog σ ε α) := fun _ => trivial

theorem raises_modify (f : σ → σ) : Raises P (modify f : Prog σ ε Unit) := fun _ => trivial

theorem raises_raise {e : ε} (h : P e) : Raises P (raise e : Prog σ ε α) := fun _ => h

/-- One after the other. -/
theorem Raises.bind {c : Prog σ ε α} {f : α → Prog σ ε β} (hc : Raises P c)
    (hf : ∀ a, Raises P (f a)) : Raises P (c >>= f) := by
  intro s
  rw [wp_bind]
  exact (hc s).mono (fun a t _ => hf a t) (fun _ _ h => h) fun _ h => h

theorem raises_ite {b : Prop} [Decidable b] {c d : Prog σ ε α} (hc : Raises P c)
    (hd : Raises P d) : Raises P (if b then c else d) := by
  split_ifs
  · exact hc
  · exact hd

theorem raises_onlyIf {b : Bool} {c : Prog σ ε Unit} (hc : Raises P c) :
    Raises P (onlyIf b c) := raises_ite hc (raises_pure ())

/-- A handler, and what it does not take up. -/
theorem Raises.handle {c : Prog σ ε α} {h : ε → Option (Prog σ ε α)} (hc : Raises P' c)
    (hsome : ∀ e d, h e = some d → P' e → Raises P d) (hnone : ∀ e, h e = none → P' e → P e) :
    Raises P (handle c h) := by
  intro s
  rw [wp_handle]
  refine (hc s).mono (fun _ _ h => h) (fun e t he => ?_) fun _ h => h
  cases hd : h e with
  | none => exact hnone e hd he
  | some d => exact hsome e d hd he t

theorem raises_forEach {f : α → Prog σ ε Unit} (hf : ∀ x, Raises P (f x)) (xs : List α) :
    Raises P (forEach f xs) := fun s =>
  wp_forEach (fun _ _ => True) (fun x _ t _ => hf x t) xs s trivial

theorem raises_loop {f : α → Prog σ ε (Step β α)} (hf : ∀ a, Raises P (f a)) (n : ℕ) (a : α) :
    Raises P (loop f n a) := fun s =>
  wp_loop (fun _ _ => True) (D := fun _ _ => True) (fun _ _ _ => trivial) (fun a t _ =>
    (hf a t).mono (fun r _ _ => by cases r <;> trivial) (fun _ _ h => h) fun _ h => h) n a s trivial

end Raises

/-! ## Relations that tell how a run ended -/

/-- `R` relates the state before to the one `c` leaves when it returns, and `E e` when
it raises `e`. -/
def Walks (R : σ → σ → Prop) (E : ε → σ → σ → Prop) (c : Prog σ ε α) : Prop :=
  ∀ s, wp c (fun _ t => R s t) (fun e t => E e s t) (fun _ => True) s

/-- What was `R` before an exception counts as a part of it. -/
def Absorbs (R : σ → σ → Prop) (E : ε → σ → σ → Prop) : Prop :=
  ∀ e s t u, R s t → E e t u → E e s u

section Walks

variable {R : σ → σ → Prop} {E : ε → σ → σ → Prop}

theorem Walks.handle {c : Prog σ ε α} {h : ε → Option (Prog σ ε α)} (hc : Walks R E c)
    (hh : ∀ e d s t, h e = some d → E e s t → wp d (fun _ u => R s u) (fun e' u => E e' s u)
      (fun _ => True) t) : Walks R E (handle c h) := by
  intro s
  rw [wp_handle]
  refine (hc s).mono (fun _ _ h => h) (fun e t ht => ?_) fun _ h => h
  cases hd : h e with
  | none => exact ht
  | some d => exact hh e d s t hd ht

theorem walks_ite {b : Prop} [Decidable b] {c d : Prog σ ε α} (hc : b → Walks R E c)
    (hd : ¬ b → Walks R E d) : Walks R E (if b then c else d) := by
  by_cases hb : b
  · rw [if_pos hb]
    exact hc hb
  · rw [if_neg hb]
    exact hd hb

variable [IsPreorder σ R]

theorem walks_pure (a : α) : Walks R E (pure a : Prog σ ε α) := fun s => Std.Refl.refl s

theorem walks_read (f : σ → α) : Walks R E (read f : Prog σ ε α) := fun s => Std.Refl.refl s

theorem walks_onlyIf {b : Bool} {c : Prog σ ε Unit} (hc : b = true → Walks R E c) :
    Walks R E (onlyIf b c) :=
  walks_ite hc fun _ => walks_pure _

variable (ha : Absorbs R E)

include ha

/-- A run that has come to `t` goes on. -/
theorem Walks.after {c : Prog σ ε α} (hc : Walks R E c) {s t : σ} (h : R s t) :
    wp c (fun _ u => R s u) (fun e u => E e s u) (fun _ => True) t :=
  (hc t).mono (fun _ _ hu => IsTrans.trans _ _ _ h hu) (fun e _ hu => ha e _ _ _ h hu)
    fun _ h => h

/-- And then something with a postcondition of its own. -/
theorem Walks.bind_wp {c : Prog σ ε α} {f : α → Prog σ ε β} {Q : β → σ → Prop}
    (hc : Walks R E c) {s t : σ} (h : R s t)
    (hf : ∀ a u, R s u → wp (f a) Q (fun e v => E e s v) (fun _ => True) u) :
    wp (c >>= f) Q (fun e v => E e s v) (fun _ => True) t := by
  rw [wp_bind]
  exact (hc.after ha h).mono hf (fun _ _ h => h) fun _ h => h

/-- One after the other, for a relation that an exception absorbs. -/
theorem Walks.bind {c : Prog σ ε α} {f : α → Prog σ ε β} (hc : Walks R E c)
    (hf : ∀ a, Walks R E (f a)) : Walks R E (c >>= f) := by
  intro s
  rw [wp_bind]
  exact (hc s).mono (fun a _ ht => (hf a).after ha ht) (fun _ _ h => h) fun _ h => h

end Walks

/-- The relation "an invariant is not lost". -/
def Keeps (I : σ → Prop) (s t : σ) : Prop := I s → I t

instance (I : σ → Prop) : IsPreorder σ (Keeps I) where
  refl _ h := h
  trans _ _ _ h h' hs := h' (h hs)

end Prog
