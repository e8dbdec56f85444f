import Mathlib.Logic.Relation
import OpenAisg.Session.Methods

/-!
# `SerialWorker.run`

The state machine's step, one pass of the loop with its catch-all handler, and
the runs made of such passes.

* `step` — `_step`; `passBody` — the `try` of one pass; `loopPass` — the pass with
  its `except Exception`; `runPass` — the pass with the test of the loop.
* `dispatch`, `finish` — the two halves of a pass: it takes a command, or keeps the one
  it holds, and comes to a `Verdict`; then it executes the command or takes a step.
  `passBody_eq` puts them together, and `wp_pass` is the rule for results that must know
  on which side of the middle they are.
* `Pass` — one pass that comes back to the head of the loop; `Head` — the states
  in which the worker can be there, for some behaviour of its environment.
* `HeadBy` — the same, by passes that all meet a condition.
* `head_induction` — an invariant of the passes holds at every head.

A condition that a result puts on a run is one on the passes of `HeadBy`, and
`headBy_of_passesMeet` decides it for a run on a bench.
-/

namespace OpenAisg.Session

open Hdlc Link Retap Prog

variable {W : Type} [Line W] [Clients W]

/-! ## One step of the state machine -/

/-- `_should_open`. -/
def shouldOpen (cfg : Config) (now : Time) : WorkerProg W Bool := do
  let wanted ← self (·.wantLink)
  if wanted then pure true
  else do
    let empty ← shared (·.queue.isEmpty)
    if !empty then pure true
    else do
      let last ← self (·.lastMonitorAt)
      pure (match cfg.monitor with
        | .continuous => true
        | .dutyCycled => decide (cfg.monitorPeriod ≤ now - last)
        | .off => false)

/-- The part of `_step` that goes by the state. -/
def stepState (cfg : Config) (now : Time) : WorkerProg W Unit := do
  let wk ← self id
  match wk.state with
  | .closed | .portBusy | .portLost | .noDevices => do
      let wanted ← shouldOpen cfg now
      onlyIf wanted (openAndConnect cfg)
  | .backoff => onlyIf (wk.backoffUntil ≤ now) (setState .closed)
  | .draining => drain cfg
  | .connected => connectedHousekeeping cfg now
  | _ => pure ()

/-- `_step`. -/
def step (cfg : Config) : WorkerProg W Unit := do
  let now ← clock
  let until_ ← shared (·.leaseUntil)
  let state ← self (·.state)
  if now < until_ then do
    onlyIf (state ∉ [.leased, .closed]) release
    setState .leased
  else do
    onlyIf (state = .leased) (setState .closed)
    stepState cfg now

/-! ## One pass of the loop -/

/-- The smallest command of the queue, and the rest. -/
def popMin : List Command → Option (Command × List Command)
  | [] => none
  | c :: cs =>
      let m := cs.foldl (fun m d => if d.before m then d else m) c
      some (m, (c :: cs).erase m)

/-- `self._q.get_nowait()`, or `None` for `queue.Empty`. -/
def pop : WorkerProg W (Option Command) := do
  sync
  fun s => match popMin s.shared.queue with
    | none => (.ret none, s)
    | some (c, q) => (.ret (some c), { s with shared := { s.shared with queue := q } })

/-- `_tick_budget`. -/
def tickBudget (cfg : Config) : LinkState → Time
  | .connected => min (ms 250) cfg.keepalive
  | _ => ms 250

/-- `_take`: the next command, or nothing when the budget of the tick has passed.  A command may
come in while the worker waits. -/
def take (cfg : Config) : WorkerProg W (Option Command) := do
  let budget ← self fun wk => tickBudget cfg wk.state
  if budget < 0 then raise (.py .valueError "'timeout' must be a non-negative number")
  else do
    let c ← pop
    match c with
    | some c => pure (some c)
    | none => do
        pause budget
        pop

/-- Write `head`. -/
def setHead (c : Option Command) : WorkerProg W Unit := update fun wk => { wk with head := c }

/-- The `try` of one pass of `run`. -/
def passBody (cfg : Config) : WorkerProg W Unit := do
  refreshLease
  let head ← self (·.head)
  onlyIf head.isNone do
    let c ← take cfg
    setHead c
  let head ← self (·.head)
  match head with
  | some cmd => do
      let handled ← tryExecute cfg cmd
      if handled then setHead none else step cfg
  | none => step cfg

/-- The catch-all handler of `run`: the link fails with an internal error, and the loop goes on
half a second later. -/
def lastResort : WorkerProg W Unit := do
  failLink "internal error"
  pause (ms 500)

/-- One pass of `run`. -/
def loopPass (cfg : Config) : WorkerProg W Unit := do
  let now ← clock
  update fun wk => { wk with heartbeat := now }
  handle (passBody cfg) fun _ => some lastResort

/-- The loop of `_teardown`: no queued command is left without an answer. -/
def flushQueue (cfg : Config) : WorkerProg W Unit :=
  loop (fun _ => do
    let c ← pop
    match c with
    | none => pure (.done ())
    | some cmd => do
        abandon cmd (.sessionError .shutdown "")
        pure (.next ())) cfg.fuel ()

/-- `_teardown`. -/
def teardown (cfg : Config) : WorkerProg W Unit := do
  flushQueue cfg
  release

/-- `run` from the head of its loop to the next (`true`) or to its end (`false`). -/
def runPass (cfg : Config) : WorkerProg W Bool := do
  let stop ← shared (·.stop)
  if stop then do
    teardown cfg
    setState .shutdown
    pure false
  else do
    loopPass cfg
    pure true

/-! ## A pass in two halves -/

/-- What a pass has decided before it executes a command or takes a step. -/
inductive Verdict where
  | execute (cmd : Command)
  | finished
  | goOn
  deriving DecidableEq

/-- `_try_execute`, up to its call of `_execute`. -/
def attempt (cmd : Command) : WorkerProg W Verdict := do
  refreshLease
  let state ← self (·.state)
  if state = .connected then do
    let claimed ← claim cmd.seq
    pure (if claimed then .execute cmd else .finished)
  else if state ∈ failFast then do
    let error ← self (·.lastError)
    abandon cmd (.sessionError state error)
    pure .finished
  else do
    let now ← clock
    if cmd.linkDeadline < now then do
      abandon cmd (.sessionError state "timed out waiting for link")
      pure .finished
    else do
      update fun wk => { wk with wantLink := true }
      pure .goOn

/-- The `try` of a pass, so far. -/
def dispatch (cfg : Config) : WorkerProg W Verdict := do
  refreshLease
  let head ← self (·.head)
  onlyIf head.isNone do
    let c ← take cfg
    setHead c
  let head ← self (·.head)
  match head with
  | some cmd => attempt cmd
  | none => pure .goOn

/-- The rest of it. -/
def finish (cfg : Config) : Verdict → WorkerProg W Unit
  | .execute cmd => do
      execute cfg cmd
      setHead none
  | .finished => setHead none
  | .goOn => step cfg

/-- Executing a command is to attempt it, and to finish with the verdict. -/
theorem tryExecute_eq (cfg : Config) (cmd : Command) :
    (do
      let handled ← tryExecute cfg cmd
      if handled then setHead none else step cfg : WorkerProg W Unit) =
      attempt cmd >>= finish cfg := by
  unfold tryExecute attempt
  simp only [bind_assoc_run, ite_bind]
  congr 1
  funext _
  congr 1
  funext state
  by_cases hst : state = .connected
  · rw [if_pos hst, if_pos hst]
    congr 1
    funext claimed
    cases claimed <;> rfl
  · rw [if_neg hst, if_neg hst]
    rfl

/-- The `try` of a pass is its two halves. -/
theorem passBody_eq (cfg : Config) :
    (passBody cfg : WorkerProg W Unit) = dispatch cfg >>= finish cfg := by
  unfold passBody dispatch
  simp only [bind_assoc_run]
  congr 1
  funext _
  congr 1
  funext _
  congr 1
  funext _
  congr 1
  funext head
  cases head with
  | none => rfl
  | some cmd => exact tryExecute_eq cfg cmd

/-- The worker when the `try` of the pass from `s` begins: the test of the loop let the other
threads have their turn, and the heartbeat is written. -/
def begun (s : St W) : St W :=
  { s with
    world := (Line.monotonic (Clients.others s.world).2).2
    shared := (Clients.others s.world).1.foldl Shared.apply s.shared
    wk := { s.wk with heartbeat := (Line.monotonic (Clients.others s.world).2).1 } }

/-- **A pass by its halves.**  Let the first half come to `V`, and the second lead from there to
`Q`.  If the catch-all handler brings every state in which either half can raise to `Q`, then the
pass comes to `Q`, unless the worker was told to stop. -/
theorem wp_pass {cfg : Config} {s : St W} {V : Verdict → St W → Prop} {E Q : St W → Prop}
    (hdispatch : (begun s).shared.stop = false →
      wp (dispatch cfg) V (fun _ t => E t) (fun _ => True) (begun s))
    (hfinish : ∀ v t, V v t →
      wp (finish cfg v) (fun _ u => Q u) (fun _ u => E u) (fun _ => True) t)
    (hresort : ∀ t, E t → wp lastResort (fun _ u => Q u) (fun _ _ => True) (fun _ => True) t) :
    wp (runPass cfg) (fun b t => b = true → Q t) (fun _ _ => True) (fun _ => True) s := by
  have hcatch : ∀ t, E t →
      wp lastResort (fun _ u => true = true → Q u) (fun _ _ => True) (fun _ => True) t :=
    fun t ht => (hresort t ht).mono (fun _ _ h _ => h) (fun _ _ h => h) fun _ h => h
  unfold runPass
  rw [wp_bind, wp_shared, wp_ite]
  refine ⟨fun _ => ?_, fun hstop => ?_⟩
  · -- `_teardown`: the loop is left
    rw [wp_bind]
    refine wp_any (fun _ u => ?_) (fun _ _ => trivial) (fun _ => trivial) _
    rw [wp_bind, wp_setState]
    exact fun hb => nomatch hb
  · unfold loopPass
    rw [wp_bind, wp_bind, wp_clock, wp_bind, wp_update, wp_handle, passBody_eq, wp_bind]
    refine Prog.wp.mono (hdispatch (Bool.eq_false_iff.2 hstop)) (fun v t hv => ?_)
      (fun _ t ht => hcatch t ht) fun _ h => h
    exact (hfinish v t hv).mono (fun _ _ h _ => h) (fun _ u hu => hcatch u hu) fun _ h => h

/-! ## Runs -/

/-- A pass that comes back to the head of the loop. -/
def Pass (cfg : Config) (s t : St W) : Prop := runPass cfg s = (.ret true, t)

/-- The worker can be at the head of the loop in state `s`, having started in world
`w`. -/
def Head (cfg : Config) (w : W) : St W → Prop := Relation.ReflTransGen (Pass cfg) (St.init w)

/-- The same, by passes that all meet a condition. -/
def HeadBy (cfg : Config) (ok : St W → St W → Prop) (w : W) : St W → Prop :=
  Relation.ReflTransGen (fun s t => Pass cfg s t ∧ ok s t) (St.init w)

/-- The state at the head after `n` passes from `s`; a run that ends or stalls
earlier stays where it got to. -/
def runPasses (cfg : Config) : ℕ → St W → St W
  | 0, s => s
  | n + 1, s =>
      match runPass cfg s with
      | (.ret true, t) => runPasses cfg n t
      | _ => s

/-- The passes of a run on a bench are passes. -/
theorem reaches_runPasses (cfg : Config) (n : ℕ) :
    ∀ s : St W, Relation.ReflTransGen (Pass cfg) s (runPasses cfg n s) := by
  induction n with
  | zero => intro s; exact .refl
  | succ n ih =>
      intro s
      unfold runPasses
      rcases hp : runPass cfg s with ⟨o, t⟩
      cases o with
      | ret b =>
          cases b with
          | true => exact .head hp (ih t)
          | false => exact .refl
      | raise e => exact .refl
      | stall => exact .refl

/-- **The run lemma.**  What the initial state has and every pass keeps holds at
every head of the loop. -/
theorem head_induction {cfg : Config} {ok : St W → St W → Prop} {I : St W → Prop} {w : W}
    (h₀ : I (St.init w))
    (h : ∀ s, I s → wp (runPass cfg) (fun b t => b = true → ok s t → I t) (fun _ _ => True)
      (fun _ => True) s) :
    ∀ s, HeadBy cfg ok w s → I s := by
  intro s hs
  induction hs with
  | refl => exact h₀
  | @tail s t _ hp ih =>
      have hw := h s ih
      unfold wp at hw
      rw [hp.1] at hw
      exact hw rfl hp.2

/-- A condition on the passes only narrows the runs. -/
theorem head_of_headBy {cfg : Config} {ok : St W → St W → Prop} {w : W} {s : St W}
    (h : HeadBy cfg ok w s) : Head cfg w s :=
  h.lift id fun _ _ hp => hp.1

/-- A pass on a bench that comes back to the head. -/
theorem pass_runPasses {cfg : Config} {s : St W} (hp : (runPass cfg s).1 = .ret true) :
    Pass cfg s (runPasses cfg 1 s) := by
  have hpass : Pass cfg s (runPass cfg s).2 := Prod.ext hp rfl
  have hone : runPasses cfg 1 s = (runPass cfg s).2 := by
    unfold runPasses
    rw [hpass]
    rfl
  rw [hone]
  exact hpass

/-- One pass more. -/
theorem headBy_runPasses {cfg : Config} {ok : St W → St W → Prop} {w : W} {s : St W}
    (h : HeadBy cfg ok w s) (hp : (runPass cfg s).1 = .ret true)
    (hok : ok s (runPasses cfg 1 s)) : HeadBy cfg ok w (runPasses cfg 1 s) :=
  h.tail ⟨pass_runPasses hp, hok⟩

/-- `n` passes from `s` come back to the head and meet the condition. -/
def passesMeet (cfg : Config) (ok : St W → St W → Prop) [∀ s t, Decidable (ok s t)] :
    ℕ → St W → Bool
  | 0, _ => true
  | n + 1, s =>
      match runPass cfg s with
      | (.ret true, t) => decide (ok s t) && passesMeet cfg ok n t
      | _ => false

/-- Then they lead to a head. -/
theorem headBy_of_passesMeet {cfg : Config} {ok : St W → St W → Prop} [∀ s t, Decidable (ok s t)]
    {w : W} (n : ℕ) : ∀ {s : St W}, HeadBy cfg ok w s → passesMeet cfg ok n s = true →
      HeadBy cfg ok w (runPasses cfg n s) := by
  induction n with
  | zero => exact fun h _ => h
  | succ n ih =>
      intro s h hn
      unfold passesMeet at hn
      unfold runPasses
      rcases hp : runPass cfg s with ⟨(b | e | _), t⟩
      · rw [hp] at hn
        cases b with
        | true =>
            obtain ⟨hok, hn⟩ := Bool.and_eq_true_iff.1 hn
            exact ih (h.tail ⟨hp, of_decide_eq_true hok⟩) hn
        | false => cases hn
      · rw [hp] at hn
        cases hn
      · rw [hp] at hn
        cases hn

/-- No condition narrows nothing. -/
theorem headBy_of_head {cfg : Config} {w : W} {s : St W} (h : Head cfg w s) :
    HeadBy cfg (fun _ _ => True) w s :=
  h.lift id fun _ _ hp => ⟨hp, trivial⟩

end OpenAisg.Session
