import OpenAisg.Session.Deeds

/-!
# How the worker thread ends

`run` catches every exception of a pass, and its handler gives the port back; nothing
catches what that handler or `_teardown` raises.

* `flushQueue_ends` — the queue is emptied without an exception.
* `toTeardown`, `toHandler` — `_teardown` up to its release, and the `try` of a pass.
* `LastRelease` — the release that no handler surrounds: the one of `_teardown`, or of the
  catch-all handler.
* `Escapes` — the reply to its DISC is garbled; `escapes_stop`, `escapes_go` — for the two
  kinds of pass.
* `run_ends` — an exception escapes `run` exactly when the reply to the DISC of that release
  is garbled; otherwise the thread ends because `stop()` was called, with the port closed.
* `run_resolves` — of the commands submitted by then, the one held as `head` is the only one
  whose future nobody resolves.
* `waiting_command_dropped` — a command that waited for the link, and is such a one.
-/

namespace OpenAisg.Session

open Hdlc Link Retap Prog

variable {W : Type} [Line W] [Clients W]

/-! ## The queue -/

/-- Only the world and the shared variables have changed, and the queue still waits. -/
def Flushing (held : List Command) (busy : List ℕ) (s t : St W) : Prop :=
  Elsewhere (Tracked held busy) s t

omit [Line W] in
/-- `_teardown` fails one command after the other, and each of them waits unclaimed. -/
theorem flushQueue_ends (cfg : Config) {held : List Command} {busy : List ℕ} {s : St W}
    (h : Tracked held busy s.shared) :
    wp (flushQueue cfg) (fun _ t => Flushing held busy s t) (fun _ _ => False) (fun _ => True)
      s := by
  unfold flushQueue
  refine wp_loop (fun _ t => Flushing held busy s t) (fun _ _ _ => trivial) (fun _ t ht => ?_) _ _ _
    ⟨s.world, s.shared, rfl, h⟩
  obtain ⟨w, sh, rfl, ht⟩ := ht
  rw [wp_bind]
  refine (wp_pop (s := { s with world := w, shared := sh }) ht).mono (fun c u hu => ?_)
    (fun _ _ h => h) fun _ h => h
  obtain ⟨w, sh, rfl, hu⟩ := hu
  cases c with
  | none => exact ⟨w, sh, rfl, hu⟩
  | some cmd =>
      dsimp only
      rw [wp_bind]
      refine (wp_abandon (s := { s with world := w, shared := sh }) hu _).mono (fun _ v hv => ?_)
        (fun _ _ h => h) fun _ h => h
      obtain ⟨w, sh, rfl, hv⟩ := hv
      exact ⟨w, sh, rfl, hv⟩

/-- At every head the commands of the queue wait unclaimed. -/
theorem head_tracked {cfg : Config} {w : W} {s : St W} (h : Head cfg w s) :
    ∃ held busy, Tracked held busy s.shared := by
  rcases settled_or_stuck h with hs | ⟨cmd, -, hs⟩
  · exact ⟨_, _, hs⟩
  · exact ⟨_, _, hs⟩

/-! ## The release that no handler surrounds -/

/-- What the loop sees when it tests `_stop`. -/
def stopSeen (s : St W) : Bool :=
  ((Clients.others s.world).1.foldl Shared.apply s.shared).stop

/-- `_teardown`, up to its release. -/
def toTeardown (cfg : Config) : WorkerProg W Unit := do
  let _ ← shared (·.stop)
  flushQueue cfg

/-- The `try` of a pass. -/
def toHandler (cfg : Config) : WorkerProg W Unit := do
  let _ ← shared (·.stop)
  let now ← clock
  update fun wk => { wk with heartbeat := now }
  passBody cfg

/-- From a head in `s`, the release starts in `u`. -/
def LastRelease (cfg : Config) (s u : St W) : Prop :=
  if stopSeen s = true then toTeardown cfg s = (.ret (), u)
  else ∃ e, toHandler cfg s = (.raise e, u)

omit [Clients W] in
/-- The handler raises exactly when the reply to its DISC is garbled. -/
theorem lastResort_ends (s : St W) :
    wp lastResort (fun _ _ => ¬ Garbled s) (fun _ _ => Garbled s) (fun _ => ¬ Garbled s) s := by
  unfold lastResort
  rw [wp_bind]
  refine (wp_failLink _ s).mono (fun _ t ht => ?_) (fun _ _ h => h.1) fun _ h => h
  rw [wp_pause]
  exact ht.1

/-- How the thread ends when `stop()` has been called. -/
structure Finished (t : St W) : Prop where
  link : t.link = none
  ports : t.ports = []
  state : t.wk.state = .shutdown

/-- Some release that no handler surrounds reads a garbled reply. -/
def Escapes (cfg : Config) (s : St W) : Prop := ∃ u, LastRelease cfg s u ∧ Garbled u

/-- The only end of a computation is the one it has. -/
theorem escapes_stop {cfg : Config} {s : St W} (hstop : stopSeen s = true) :
    Escapes cfg s ↔ ∃ u, toTeardown cfg s = (.ret (), u) ∧ Garbled u := by
  unfold Escapes LastRelease
  simp only [hstop, if_true]

/-- A pass that does not see `_stop` has a release without a handler only if its `try` raises. -/
theorem escapes_go {cfg : Config} {s : St W} (hstop : stopSeen s = false) :
    Escapes cfg s ↔ ∃ u, (∃ e, toHandler cfg s = (.raise e, u)) ∧ Garbled u := by
  unfold Escapes LastRelease
  simp only [hstop, Bool.false_eq_true, if_false]

/-- A pass that sees `_stop`: `_teardown`, and SHUTDOWN.  The port is closed unless its DISC
raises. -/
theorem wp_stop (cfg : Config) {w : W} {s : St W} (h : Head cfg w s) (hstop : stopSeen s = true) :
    wp (do
      teardown cfg
      setState .shutdown
      pure false : WorkerProg W Bool)
      (fun b t => ¬ Escapes cfg s ∧ (b = false → stopSeen s = true ∧ Finished t))
      (fun _ _ => Escapes cfg s) (fun _ => ¬ Escapes cfg s)
      { s with
        world := (Clients.others s.world).2
        shared := (Clients.others s.world).1.foldl Shared.apply s.shared } := by
  obtain ⟨held, busy, htracked⟩ := head_tracked h
  have hweak : Weak s := (paired_head h).weak
  rw [escapes_stop hstop]
  unfold teardown
  rw [wp_bind, wp_bind]
  obtain ⟨hret, hraise, -⟩ := wp_iff.1 (flushQueue_ends cfg (s := { s with
    world := (Clients.others s.world).2
    shared := (Clients.others s.world).1.foldl Shared.apply s.shared }) (htracked.calls _))
  refine wp_iff.2 ⟨fun _ u hu => ?_, fun e u hu => (hraise e u hu).elim, fun u hu => ?_⟩
  · have hP : (∃ v, toTeardown cfg s = (.ret (), v) ∧ Garbled v) ↔ Garbled u := by
      have hto : toTeardown cfg s = (.ret (), u) := hu
      rw [hto]
      refine ⟨?_, fun hg => ⟨u, rfl, hg⟩⟩
      rintro ⟨v, hv, hg⟩
      cases hv
      exact hg
    have hweaku : Weak u := by
      obtain ⟨w', sh, rfl, -⟩ := hret _ u hu
      exact hweak
    rw [hP]
    refine ((wp_release u).and (ends_release hweaku)).mono (fun _ t ht => ?_)
      (fun _ _ ht => ht.1.1) fun _ ht => ht.1
    rw [wp_bind, wp_setState, wp_pure]
    exact ⟨ht.1.1, fun _ => ⟨hstop, ht.2.1, ht.2.2, Worker.setState_state _ _ _⟩⟩
  · rintro ⟨v, hv, -⟩
    have hto : toTeardown cfg s = (.stall, u) := hu
    rw [hto] at hv
    cases hv

/-- Any other pass: its handler is the only thing that can raise. -/
theorem wp_go (cfg : Config) {s : St W} (hstop : stopSeen s = false) :
    wp (do
      loopPass cfg
      pure true : WorkerProg W Bool)
      (fun b t => ¬ Escapes cfg s ∧ (b = false → stopSeen s = true ∧ Finished t))
      (fun _ _ => Escapes cfg s) (fun _ => ¬ Escapes cfg s)
      { s with
        world := (Clients.others s.world).2
        shared := (Clients.others s.world).1.foldl Shared.apply s.shared } := by
  rw [escapes_go hstop]
  unfold loopPass
  rw [wp_bind, wp_bind, wp_clock, wp_bind, wp_update, wp_handle]
  refine wp_iff.2 ⟨fun _ u hu => ?_, fun e u hu => ?_, fun u hu => ?_⟩
  · have hto : toHandler cfg s = (.ret (), u) := hu
    refine ⟨?_, fun hb => nomatch hb⟩
    rw [hto]
    rintro ⟨v, ⟨e, he⟩, -⟩
    cases he
  · have hto : toHandler cfg s = (.raise e, u) := hu
    have hP : (∃ v, (∃ e, toHandler cfg s = (.raise e, v)) ∧ Garbled v) ↔ Garbled u := by
      rw [hto]
      refine ⟨?_, fun hg => ⟨u, ⟨e, rfl⟩, hg⟩⟩
      rintro ⟨v, ⟨e', he⟩, hg⟩
      cases he
      exact hg
    rw [hP]
    exact (lastResort_ends u).mono (fun _ t ht => ⟨ht, fun hb => nomatch hb⟩) (fun _ _ h => h)
      fun _ h => h
  · have hto : toHandler cfg s = (.stall, u) := hu
    rw [hto]
    rintro ⟨v, ⟨e, he⟩, -⟩
    cases he

/-- **How `run` ends.**  At every head of every run: an exception escapes exactly when the
reply to the DISC of the last release is garbled, and the thread ends only because `stop()`
was called, with the port closed and in SHUTDOWN. -/
theorem run_ends {cfg : Config} {w : W} {s : St W} (h : Head cfg w s) :
    ((∃ e t, runPass cfg s = (.raise e, t)) ↔ ∃ u, LastRelease cfg s u ∧ Garbled u) ∧
      ∀ t, runPass cfg s = (.ret false, t) → stopSeen s = true ∧ Finished t := by
  have hw : wp (runPass cfg)
      (fun b t => ¬ Escapes cfg s ∧ (b = false → stopSeen s = true ∧ Finished t))
      (fun _ _ => Escapes cfg s) (fun _ => ¬ Escapes cfg s) s := by
    unfold runPass
    rw [wp_bind, wp_shared, wp_ite]
    exact ⟨fun hstop => wp_stop cfg h hstop, fun hstop =>
      wp_go cfg (Bool.eq_false_iff.2 hstop)⟩
  refine ⟨raises_iff (hw.mono (fun _ _ h => h.1) (fun _ _ h => h) fun _ h => h), fun t ht => ?_⟩
  exact ((wp_iff.1 hw).1 false t ht).2 rfl

/-- A device that answers `reply` to every DISC but the first, and a client that calls
`stop()` once the session is up. -/
def hangsUp (reply : Bytes) : Bench ClientCall :=
  { plan :=
    { answer := fun _ => deviceAnswer []
      reply := fun i f => if f = discFrame 1 ∧ i ≠ 0 then reply else deviceReply f
      calls := fun i => if i = 6 then [.stop] else [] } }

/-- The head at which the worker sees `stop()`. -/
def stoppedHead (reply : Bytes) : St (Bench ClientCall) :=
  runPasses attentive 1 (St.init (hangsUp reply))

theorem run_ends_stopped : Finished (runPass attentive (stoppedHead [])).2 :=
  ((run_ends (reaches_runPasses attentive 1 (St.init (hangsUp [])))).2
    (runPass attentive (stoppedHead [])).2 (Prod.ext (by decide +kernel) rfl)).2

/-- A bad checksum in the reply to the DISC of `_teardown`: `FrameError` escapes `run`, and
the port stays open. -/
theorem garbled_disc_escapes :
    Head attentive (hangsUp [0x7E, 1, 2, 3, 4, 0x7E]) (stoppedHead [0x7E, 1, 2, 3, 4, 0x7E]) ∧
      (∃ msg, (runPass attentive (stoppedHead [0x7E, 1, 2, 3, 4, 0x7E])).1 =
        .raise (.frameError msg)) ∧
      (runPass attentive (stoppedHead [0x7E, 1, 2, 3, 4, 0x7E])).2.ports = [0] ∧
      (runPass attentive (stoppedHead [0x7E, 1, 2, 3, 4, 0x7E])).2.wk.state = .releasing := by
  refine ⟨reaches_runPasses attentive 1 _, ⟨"bad FCS in frame: 01 02 03 04", ?_⟩, ?_⟩
  · decide +kernel
  · decide +kernel

/-! ## The command that `_teardown` does not see -/

omit [Line W] [Clients W] in
/-- The link object does not reach the shared variables. -/
theorem keeps_lift {P : Shared → Prop} {a b : LinkSt W Worker} :
    Lift (Keeps fun s : St W => P s.shared) a b := fun _ _ _ h => h

omit [Clients W] in
/-- What other threads cannot undo is kept by everything that leaves the futures to them. -/
theorem shared_frames {P : Shared → Prop}
    (hP : ∀ (cs : List ClientCall) sh, P sh → P (cs.foldl Shared.apply sh)) :
    FrameClosed (W := W) (Keeps fun s => P s.shared) where
  world _ _ h := h
  calls _ cs h := hP cs _ h
  books _ _ _ h := h
  stored _ _ _ h := h
  report _ _ h := h
  baseline _ _ h := h
  parked _ h := h
  wire _ _ _ h := h
  keepaliveTake addr vr f _ := moves_keepaliveTake (fun _ _ => keeps_lift)
    (fun _ _ _ => keeps_lift) (fun _ _ _ => keeps_lift) (fun _ _ h => h) addr vr f
  drainTake f := moves_drainTake (fun _ _ => keeps_lift) (fun _ _ _ => keeps_lift)
    (fun _ _ _ => keeps_lift) f
  log _ _ _ h := h
  link _ _ _ _ _ h := h
  iFrame _ _ _ _ := moves_onIFrame (fun _ _ => keeps_lift) (fun _ _ _ _ => keeps_lift)
    (fun _ _ _ => keeps_lift) fun _ _ => keeps_lift

omit [Clients W] in
theorem shared_closed {P : Shared → Prop}
    (hP : ∀ (cs : List ClientCall) sh, P sh → P (cs.foldl Shared.apply sh)) :
    StepClosed (W := W) (Keeps fun s => P s.shared) where
  toBusClosed := (shared_frames hP).busClosed
  state _ _ _ h := h
  address _ _ _ h := h
  opened _ h := h
  closed _ h := h
  dropped _ h := h
  armed _ _ h := h

/-- The command `n` was submitted and has ended. -/
def Over (n : ℕ) (sh : Shared) : Prop := n < sh.nextSeq ∧ (sh.futures n).Ended

/-- Nobody can undo that. -/
theorem Over.calls {n : ℕ} (cs : List ClientCall) (sh : Shared) (h : Over n sh) :
    Over n (cs.foldl Shared.apply sh) := by
  induction cs generalizing sh with
  | nil => exact h
  | cons c cs ih =>
      refine ih _ ?_
      obtain ⟨hlt, hend⟩ := h
      cases c with
      | submit name args priority now linkWait =>
          refine ⟨Nat.lt_succ_of_lt hlt, ?_⟩
          show Future.Ended (if n = sh.nextSeq then {} else sh.futures n)
          rwa [if_neg (Nat.ne_of_lt hlt)]
      | cancel seq =>
          refine ⟨hlt, ?_⟩
          show Future.Ended (if n = seq then (sh.futures seq).cancel else sh.futures n)
          split_ifs with hn
          · subst hn
            rwa [hend.cancel]
          · exact hend
      | lease now seconds => exact ⟨hlt, hend⟩
      | unlease => exact ⟨hlt, hend⟩
      | stop => exact ⟨hlt, hend⟩

omit [Line W] in
/-- The queue is empty when `_teardown` stops popping. -/
theorem flushQueue_empty (cfg : Config) (s : St W) :
    wp (flushQueue cfg) (fun _ t => t.shared.queue = []) (fun _ _ => True) (fun _ => True) s := by
  refine wp_loop (fun _ _ => True) (fun _ _ _ => trivial) (fun _ t _ => ?_) _ _ _ trivial
  rw [wp_bind]
  have hpop : wp (pop : WorkerProg W (Option Command))
      (fun c u => c = none → u.shared.queue = []) (fun _ _ => True) (fun _ => True) t := by
    unfold pop
    refine (wp_bind _ _).2 (wp_sync.2 ?_)
    unfold wp
    dsimp only
    generalize (Clients.others t.world).1.foldl Shared.apply t.shared = sh
    cases hq : popMin sh.queue with
    | none =>
        intro _
        cases hc : sh.queue with
        | nil => rfl
        | cons c cs => rw [hc] at hq; cases hq
    | some r => exact fun h => nomatch h
  refine hpop.mono (fun c u hu => ?_) (fun _ _ _ => trivial) fun _ _ => trivial
  cases c with
  | none => exact hu rfl
  | some cmd =>
      rw [wp_bind]
      exact wp_any (fun _ _ => trivial) (fun _ _ => trivial) (fun _ => trivial) _

/-- The shared variables when the loop tests `_stop`. -/
def seen (s : St W) : Shared := (Clients.others s.world).1.foldl Shared.apply s.shared

/-- A claimed or waiting future is done only when its caller has cancelled it. -/
theorem done_iff_cancelled {f : Future} (h : f.Waiting ∨ f.Claimed) :
    f.done = true ↔ f.state = .cancelled := by
  rcases h with ⟨hs | hs, -⟩ | ⟨hs, -⟩ <;> simp [Future.done, hs]

/-- A pass that ends `run` has emptied the queue, and left the futures of other commands to
their callers. -/
theorem wp_teardown (cfg : Config) {held : List Command} {busy : List ℕ} {s : St W}
    (h : Tracked held busy s.shared) :
    wp (do
      teardown cfg
      setState .shutdown
      pure false : WorkerProg W Bool)
      (fun _ t => Tracked held busy t.shared ∧ ∀ n < s.shared.nextSeq,
        n ∉ held.map Command.seq → n ∉ busy → Over n t.shared)
      (fun _ _ => True) (fun _ => True) s := by
  unfold teardown
  rw [wp_bind, wp_bind]
  refine (((flushQueue_ends cfg h).and (flushQueue_empty cfg s)).and
    ((enacts_pass.toQueueClosed.flushQueue cfg).wp s)).mono (fun _ u hu => ?_)
    (fun _ _ _ => trivial) fun _ _ => trivial
  obtain ⟨⟨⟨w, sh, rfl, hsh⟩, hempty⟩, hdeeds⟩ := hu
  have hleast : s.shared.nextSeq ≤ sh.nextSeq := hdeeds.next_le
  have hempty : sh.queue = [] := hempty
  have hover : ∀ n < s.shared.nextSeq, n ∉ held.map Command.seq → n ∉ busy → Over n sh := by
    intro n hn hheld hbusy
    refine ⟨Nat.lt_of_lt_of_le hn hleast, hsh.ended n (Nat.lt_of_lt_of_le hn hleast) ?_ hbusy⟩
    rwa [hempty, List.append_nil]
  -- the release lets other threads run, but they cannot undo an end
  have hkept : ∀ n, Moves (Keeps fun t : St W => Over n t.shared) (release : WorkerProg W Unit) :=
    fun n => (shared_closed Over.calls).release
  refine wp_iff.2 ⟨fun _ t ht => ?_, fun _ _ _ => trivial, fun _ _ => trivial⟩
  have hmoves : ∀ {R : St W → St W → Prop}, Moves R (release : WorkerProg W Unit) →
      R { s with world := w, shared := sh } t := by
    intro R hR
    have := hR { s with world := w, shared := sh }
    rwa [ht] at this
  rw [wp_bind, wp_setState, wp_pure]
  exact ⟨(hmoves (aside_closed).release).tracked held busy hsh, fun n hn hheld hbusy =>
    hmoves (hkept n) (hover n hn hheld hbusy)⟩

/-- **What `run` leaves behind.**  When it has returned, the futures of the first `m`
commands are done exactly when none of them is the `head` that `_teardown` does not see,
or its caller has cancelled it. -/
theorem run_resolves {cfg : Config} {w : W} {s t : St W} (h : Head cfg w s)
    (hend : runPass cfg s = (.ret false, t)) {m : ℕ} (hm : m ≤ (seen s).nextSeq) :
    (∀ n < m, (t.shared.futures n).done = true) ↔
      ∀ c ∈ s.wk.head, c.seq < m → (t.shared.futures c.seq).state = .cancelled := by
  have hpass : ∀ {held : List Command} {busy : List ℕ}, Tracked held busy s.shared →
      Tracked held busy t.shared ∧ ∀ n < (seen s).nextSeq,
        n ∉ held.map Command.seq → n ∉ busy → Over n t.shared := by
    intro held busy htracked
    have hw : wp (runPass cfg) (fun b u => b = false → Tracked held busy u.shared ∧
        ∀ n < (seen s).nextSeq, n ∉ held.map Command.seq → n ∉ busy → Over n u.shared)
        (fun _ _ => True) (fun _ => True) s := by
      unfold runPass
      rw [wp_bind, wp_shared, wp_ite]
      refine ⟨fun _ => ?_, fun _ => ?_⟩
      · exact (wp_teardown cfg (s := { s with
          world := (Clients.others s.world).2, shared := seen s }) (htracked.calls _)).mono
          (fun _ _ hu _ => hu) (fun _ _ h => h) fun _ h => h
      · rw [wp_bind]
        exact wp_any (fun _ _ hb => nomatch hb) (fun _ _ => trivial) (fun _ => trivial) _
    exact (wp_iff.1 hw).1 false t hend rfl
  -- the head waits, or is stuck claimed; all others are over
  have hhead : (∀ c ∈ s.wk.head, (t.shared.futures c.seq).Waiting ∨
      (t.shared.futures c.seq).Claimed) ∧
      ∀ n < m, (∀ c ∈ s.wk.head, c.seq ≠ n) → (t.shared.futures n).done = true := by
    rcases settled_or_stuck h with hset | ⟨cmd, hh, hstuck⟩
    · obtain ⟨ht, hover⟩ := hpass hset
      refine ⟨fun c hc => Or.inl (ht.waiting c ?_), fun n hn hne => ?_⟩
      · exact List.mem_append_left _ (Option.mem_toList.2 hc)
      · refine (hover n (Nat.lt_of_lt_of_le hn hm) (fun hmem => ?_) List.not_mem_nil).2.done
        obtain ⟨c, hc, hcn⟩ := List.mem_map.1 hmem
        exact hne c (Option.mem_toList.1 hc) hcn
    · obtain ⟨ht, hover⟩ := hpass hstuck
      refine ⟨fun c hc => Or.inr ?_, fun n hn hne => ?_⟩
      · rw [hh] at hc
        cases hc
        exact (ht.claimed cmd.seq (List.mem_singleton_self _)).2
      · refine (hover n (Nat.lt_of_lt_of_le hn hm) List.not_mem_nil fun hmem => ?_).2.done
        exact hne cmd (by rw [hh]; rfl) (List.mem_singleton.1 hmem).symm
  refine ⟨fun hdone c hc hlt => (done_iff_cancelled (hhead.1 c hc)).1 (hdone c.seq hlt),
    fun hcancel n hn => ?_⟩
  by_cases hne : ∀ c ∈ s.wk.head, c.seq ≠ n
  · exact hhead.2 n hn hne
  · simp only [not_forall, not_not] at hne
    obtain ⟨c, hc, rfl⟩ := hne
    exact (done_iff_cancelled (hhead.1 c hc)).2 (hcancel c hc hn)

/-- A client that submits a GetTilt before the worker's `i`-th access to a shared variable
and calls `stop()` before its `j`-th. -/
def stopsAt (i j : ℕ) : Bench ClientCall :=
  { plan :=
    { answer := fun _ => deviceAnswer []
      reply := fun _ => deviceReply
      calls := fun k => (if k = i then [.submit .getTilt [] 5 0 (ms 20000)] else []) ++
        if k = j then [.stop] else [] } }

/-- The head after the first connection, where the worker sees `stop()`. -/
def stoppingHead (i j : ℕ) : St (Bench ClientCall) := runPasses attentive 1 (St.init (stopsAt i j))

/-- A command that is still queued is answered. -/
theorem run_resolves_queued :
    ((runPass attentive (stoppingHead 6 6)).2.shared.futures 0).done = true :=
  (run_resolves (reaches_runPasses attentive 1 (St.init (stopsAt 6 6)))
    (t := (runPass attentive (stoppingHead 6 6)).2) (m := 1)
    (Prod.ext (by decide +kernel) rfl) (by decide +kernel)).2 (by decide +kernel) 0 Nat.zero_lt_one

/-- **A command that waited for the link is never answered.**  It was submitted before
`stop()` was called, and `run` has returned. -/
theorem waiting_command_dropped :
    Head attentive (stopsAt 0 4) (stoppingHead 0 4) ∧
      (stoppingHead 0 4).shared.nextSeq = 1 ∧ (stoppingHead 0 4).shared.stop = false ∧
      (runPass attentive (stoppingHead 0 4)).1 = .ret false ∧
      ((runPass attentive (stoppingHead 0 4)).2.shared.futures 0).done = false := by
  refine ⟨reaches_runPasses attentive 1 _, ?_⟩
  decide +kernel

end OpenAisg.Session
