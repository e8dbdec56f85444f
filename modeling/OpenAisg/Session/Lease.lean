import OpenAisg.Session.Shutdown

/-!
# The lease

`lease()` writes a deadline, and only `_step` and `_refresh_lease` read it: `_try_execute`
goes by the state, and between the read of `_step` and the opening of the port nobody looks
again.

* `Leased` — a lease is in force; `Steady` — the clock does not run backwards.
* `fetching`, `Course`, `course`, `follow` — a pass, taken apart where the lease matters: up to
  `_try_execute`, up to what `_step` makes up its mind to do, and the rest.
* `Fate`, `Charted` — what the verdict on a command says about it, and what a course promises.
* `Prompt` — no command comes to a session that is up under a lease, and no lease comes in
  between `_step` and the port.
* `Honoured` — what a lease promises of a pass.
* `Prompt.honoured`, `Honoured.prompt` — a pass that meets the one meets the other.
* `lease_honoured` — then no command starts and no port is opened under a lease, `_step`
  gives the port back, and the commands that come meanwhile are refused.
* `lease_ignored` — and what happens otherwise.
-/

namespace OpenAisg.Session

open Hdlc Link Retap Prog

variable {W : Type} [Line W] [Clients W]

/-! ## The clock and the deadline -/

/-- The deadline of the lease is ahead. -/
def Leased (s : St W) : Prop := (Line.monotonic s.world).1 < s.shared.leaseUntil

instance (s : St W) : Decidable (Leased s) := inferInstanceAs (Decidable (_ < _))

/-- `time.monotonic()` does not run backwards, whatever other threads do meanwhile. -/
structure Steady (W : Type) [Line W] [Clients W] : Prop where
  clock : ∀ w : W, (Line.monotonic w).1 ≤ (Line.monotonic (Line.monotonic w).2).1
  others : ∀ w : W, (Line.monotonic w).1 ≤ (Line.monotonic (Clients.others w).2).1

theorem steady_bench : Steady (Bench ClientCall) where
  clock b := Int.le_of_lt (Int.lt_succ b.now)
  others b := Int.le_refl b.now

/-- What the next access to a shared variable finds. -/
def atAccess (s : St W) : St W :=
  { s with world := (Clients.others s.world).2, shared := seen s }

omit [Line W] in
/-- To read a shared variable is to look there. -/
theorem wp_atAccess {α : Type} {f : Shared → α} {Q : α → St W → Prop} {E : Exn → St W → Prop}
    {S : St W → Prop} {s : St W} : wp (shared f) Q E S s ↔ Q (f (seen s)) (atAccess s) := Iff.rfl

/-! ## A pass, taken apart -/

/-- A pass of `run`, up to its call of `_try_execute`. -/
def fetching (cfg : Config) : WorkerProg W (Option Command) := do
  let stop ← shared (·.stop)
  if stop then pure none
  else do
    let now ← clock
    update fun wk => { wk with heartbeat := now }
    refreshLease
    let head ← self (·.head)
    onlyIf head.isNone do
      let c ← take cfg
      setHead c
    self (·.head)

/-- A pass comes to its verdict on the command that it has fetched, or on none. -/
theorem opening_eq (cfg : Config) :
    (opening cfg : WorkerProg W Verdict) = fetching cfg >>= fun
      | some cmd => attempt cmd
      | none => pure .goOn := by
  unfold opening fetching dispatch
  simp only [bind_assoc_run, ite_bind]
  rfl

/-- What `_step` makes up its mind to do. -/
inductive Course where
  | handOver
  /-- The port is to be opened; `_step` has read the deadline `until_`. -/
  | openPort (until_ : Time)
  | idle
  | keepOn (now : Time)
  deriving DecidableEq

/-- The branch of `_step` for the states in which the port is free. -/
def courseClosed (cfg : Config) (now until_ : Time) : WorkerProg W Course := do
  let wanted ← shouldOpen cfg now
  if wanted then do
    setState .opening
    sync
    pure (.openPort until_)
  else pure .idle

/-- `_step`, up to what it does about the port. -/
def course (cfg : Config) : WorkerProg W Course := do
  let now ← clock
  let until_ ← shared (·.leaseUntil)
  let state ← self (·.state)
  if now < until_ then pure .handOver
  else do
    onlyIf (state = .leased) (setState .closed)
    let wk ← self id
    match wk.state with
    | .closed | .portBusy | .portLost | .noDevices => courseClosed cfg now until_
    | _ => pure (.keepOn now)

/-- The rest of it. -/
def follow (cfg : Config) : Course → WorkerProg W Unit
  | .handOver => do
      let state ← self (·.state)
      onlyIf (state ∉ [.leased, .closed]) release
      setState .leased
  | .openPort _ => do
      let up ← handle (do openLink cfg; pure true) fun e =>
        if e.isAisg then some (do giveUp (openFailure e) e.str; pure false) else none
      onlyIf up (discoverSession cfg)
  | .idle => pure ()
  | .keepOn now => stepState cfg now

/-- The branch for the states in which the port is free, cut in two. -/
theorem courseClosed_eq (cfg : Config) (now until_ : Time) :
    (courseClosed cfg now until_ >>= follow cfg : WorkerProg W Unit) = (do
      let wanted ← shouldOpen cfg now
      onlyIf wanted (openAndConnect cfg)) := by
  unfold courseClosed
  simp only [bind_assoc_run, ite_bind]
  rfl

/-- `_step`, cut in two. -/
theorem step_eq (cfg : Config) :
    (step cfg : WorkerProg W Unit) = course cfg >>= follow cfg := by
  unfold step course
  simp only [bind_assoc_run, ite_bind]
  congr 1
  funext now
  congr 1
  funext until_ s
  by_cases h : now < until_
  · simp only [self, bind_run, read_run, h, if_true]
    rfl
  simp only [self, bind_run, read_run, h, if_false]
  generalize onlyIf (decide (s.wk.state = .leased)) (setState .closed) s = r
  rcases r with ⟨_ | _ | _, u⟩
  · have hclosed := congrFun (courseClosed_eq cfg now until_) u
    unfold stepState
    cases hst : u.wk.state with
    | closed | portBusy | portLost | noDevices =>
        simp only [self, bind_run, read_run, id, hst] at hclosed ⊢
        exact hclosed.symm
    | _ => simp [self, bind_run, hst, follow, stepState]
  · rfl
  · rfl

/-! ## Moments of a pass -/

/-- The pass from `s` dispatches a command, in state `v`. -/
def Dispatches (cfg : Config) (s : St W) (cmd : Command) (v : St W) : Prop :=
  fetching cfg s = (.ret (some cmd), v)

/-- The pass from `s` comes to `_step`, which takes its course in state `u`. -/
def Decides (cfg : Config) (s : St W) (c : Course) (u : St W) : Prop :=
  stopSeen s = false ∧ ∃ v, opening cfg s = (.ret .goOn, v) ∧ course cfg v = (.ret c, u)

theorem runPass_true (cfg : Config) (s : St W) :
    wp (runPass cfg) (fun b t => b = true → stopSeen s = false ∧
      handle (opening cfg >>= finish cfg) (fun _ => some lastResort) s = (.ret (), t))
      (fun _ _ => True) (fun _ => True) s := by
  unfold runPass
  rw [wp_bind, wp_shared, wp_ite]
  refine ⟨fun _ => ?_, fun hstop => ?_⟩
  · rw [wp_bind]
    refine wp_any (fun _ u => ?_) (fun _ _ => trivial) (fun _ => trivial) _
    rw [wp_bind, wp_setState]
    exact fun hb => nomatch hb
  · rw [wp_bind, wp_iff]
    refine ⟨fun _ u hu _ => ⟨Bool.eq_false_iff.2 hstop, ?_⟩, fun _ _ _ => trivial,
      fun _ _ => trivial⟩
    have hgo : (((Clients.others s.world).1.foldl Shared.apply s.shared).stop = true) = False :=
      eq_false hstop
    rw [← hu]
    unfold loopPass opening
    simp only [handle, bind_run, Session.shared, sync, modify_run, read_run, hgo, if_false, clock,
      update, passBody_eq]

/-- A pass comes to its verdict, and acts on it under the catch-all handler. -/
theorem pass_eq {cfg : Config} {s t : St W} (h : Pass cfg s t) :
    stopSeen s = false ∧
      handle (opening cfg >>= finish cfg) (fun _ => some lastResort) s = (.ret (), t) :=
  (wp_iff.1 (runPass_true cfg s)).1 true t h rfl

/-- What a pass does behind its verdict. -/
theorem pass_of_opening {cfg : Config} {s t u : St W} {v : Verdict} (h : Pass cfg s t)
    (hv : opening cfg s = (.ret v, u)) :
    handle (finish cfg v) (fun _ => some lastResort) u = (.ret (), t) := by
  have ht := (pass_eq h).2
  simpa only [handle, bind_run, hv] using ht

/-- What it does behind its course. -/
theorem pass_of_decides {cfg : Config} {s t u : St W} {c : Course} (h : Pass cfg s t)
    (hc : Decides cfg s c u) :
    handle (follow cfg c) (fun _ => some lastResort) u = (.ret (), t) := by
  obtain ⟨-, v, hv, hc⟩ := hc
  have ht := pass_of_opening h hv
  simpa only [finish, step_eq, handle, bind_run, hc] using ht

theorem opening_of_dispatches {cfg : Config} {s v : St W} {cmd : Command}
    (h : Dispatches cfg s cmd v) : opening cfg s = attempt cmd v := by
  unfold Dispatches at h
  rw [opening_eq, bind_run, h]

/-! ## What a pass finds -/

theorem pairs_fetching (cfg : Config) : Pairs (fetching cfg : WorkerProg W (Option Command)) := by
  have hk := keep_closed (W := W)
  refine Pairs.bind (pairs_of_keep (hk.shared _)) fun _ => pairs_ite (fun _ => pairs_pure _)
    fun _ => Pairs.bind (pairs_of_keep hk.clock) fun _ => ?_
  refine Pairs.bind (pairs_of_keep (hk.assign fun _ => rfl)) fun _ =>
    Pairs.bind pairs_refreshLease fun _ => Pairs.bind (pairs_of_keep (moves_read _)) fun _ => ?_
  exact Pairs.bind (pairs_of_keep (moves_onlyIf fun _ => moves_bind (keep_queue.take cfg) fun c =>
    (keep_queue).setHead c)) fun _ => pairs_of_keep (moves_read _)

theorem pairs_attempt (cmd : Command) : Pairs (attempt cmd : WorkerProg W Verdict) := by
  have hk := keep_closed (W := W)
  refine Pairs.bind pairs_refreshLease fun _ => pairs_of_keep (moves_bind (moves_read _)
    fun _ => moves_ite (fun _ => ?_) fun _ => moves_ite (fun _ => ?_) fun _ => ?_)
  · exact moves_bind (keep_queue.claim _) fun _ => moves_pure _
  · exact moves_bind (moves_read _) fun _ => moves_bind (keep_queue.abandon _ rfl) fun _ => moves_pure _
  · refine moves_bind hk.clock fun _ => moves_ite (fun _ => ?_) fun _ => ?_
    · exact moves_bind (keep_queue.abandon _ rfl) fun _ => moves_pure _
    · exact moves_bind (hk.assign fun _ => rfl) fun _ => moves_pure _

theorem pairs_opening (cfg : Config) : Pairs (opening cfg : WorkerProg W Verdict) := by
  rw [opening_eq]
  refine (pairs_fetching cfg).bind fun c => ?_
  cases c with
  | none => exact pairs_pure _
  | some cmd => exact pairs_attempt cmd

/-- The command that a pass dispatches is the one it holds, and its future waits or has been
claimed before. -/
theorem wp_fetching (cfg : Config) {s : St W} (h : Settled s ∨ Stuck s) :
    wp (fetching cfg) (fun c v => (stopSeen s = false → c = v.wk.head) ∧ ∀ cmd, c = some cmd →
      v.wk.head = some cmd ∧ (Settled v ∨ Stuck v)) (fun _ _ => True) (fun _ => True) s := by
  have haside : ∀ {t u : St W}, Aside t u → Settled t ∨ Stuck t → Settled u ∨ Stuck u :=
    fun hu => Or.imp hu.settled hu.stuck
  unfold fetching
  rw [wp_bind, wp_atAccess, wp_ite]
  refine ⟨fun hstop => ⟨fun hno => ?_, fun cmd hc => nomatch hc⟩, fun _ => ?_⟩
  · have hstop : stopSeen s = true := hstop
    rw [hno] at hstop
    cases hstop
  rw [wp_bind, wp_clock, wp_bind, wp_update, wp_bind]
  refine (aside_closed.refreshLease.wp _).mono (fun _ t ht => ?_) (fun _ _ _ => trivial)
    fun _ _ => trivial
  have hset : Settled t ∨ Stuck t :=
    haside (t := s) ⟨ht.head, fun held busy h => ht.tracked held busy (h.calls _)⟩ h
  rw [wp_bind, wp_self, wp_bind, wp_onlyIf]
  refine ⟨fun hnone => ?_, fun _ => ⟨fun _ => rfl, fun cmd hc => ⟨hc, hset⟩⟩⟩
  have hnone : t.wk.head = none := by simpa using hnone
  have htracked : Tracked [] [] t.shared := by
    rcases hset with hset | ⟨cmd, hh, -⟩
    · unfold Settled at hset
      rwa [hnone] at hset
    · rw [hnone] at hh
      cases hh
  rw [wp_bind]
  refine (wp_take cfg htracked).mono (fun c u hu => ?_) (fun _ _ _ => trivial) fun _ h => h
  obtain ⟨w, sh, rfl, hu⟩ := hu
  exact ⟨fun _ => rfl, fun cmd hc => ⟨hc, Or.inl (by simpa [Settled] using hu)⟩⟩

/-! ## What becomes of a dispatched command -/

/-- The command has been failed with a `SessionError`, or its caller has cancelled it. -/
def Refused (cmd : Command) (s : St W) : Prop :=
  (s.shared.futures cmd.seq).state = .notified ∨
    ∃ state detail, (s.shared.futures cmd.seq).outcome = some (.error (.sessionError state detail))

/-- `set_running_or_notify_cancel` claims exactly the futures that are pending. -/
theorem claim_tells (n : ℕ) (s : St W) :
    wp (claim n) (fun claimed t => (Leased t ↔ Leased (atAccess s)) ∧ if claimed = true
      then ((seen s).futures n).state = .pending else (t.shared.futures n).state = .notified)
      (fun _ _ => True) (fun _ => False) s := by
  unfold claim
  rw [wp_bind, wp_atAccess]
  generalize hf : (seen s).futures n = f
  cases hst : f.state with
  | pending =>
      rw [wp_bind, wp_modify, wp_pure]
      exact ⟨Iff.rfl, rfl⟩
  | cancelled =>
      rw [wp_bind, wp_modify, wp_pure]
      exact ⟨Iff.rfl, by simp [Shared.setFuture]⟩
  | running | notified | finished => trivial

omit [Line W] in
/-- What is resolved with an outcome has it. -/
theorem resolve_tells (n : ℕ) (o : Except Exn Result) (s : St W) :
    wp (resolve n o) (fun _ t => (t.shared.futures n).outcome = some o) (fun _ _ => True)
      (fun _ => False) s := by
  unfold resolve
  rw [wp_bind, wp_atAccess]
  generalize hf : (seen s).futures n = f
  cases hst : f.state with
  | pending | running =>
      rw [wp_modify]
      simp [Shared.setFuture]
  | cancelled | notified | finished => trivial

/-- `_abandon` refuses the command. -/
theorem abandon_tells (cmd : Command) (state : LinkState) (detail : String) (s : St W) :
    wp (abandon cmd (.sessionError state detail)) (fun _ t => Refused cmd t) (fun _ _ => True)
      (fun _ => False) s := by
  unfold abandon
  rw [wp_bind]
  refine (claim_tells cmd.seq s).mono (fun claimed t ht => ?_) (fun _ _ h => h) fun _ h => h
  cases claimed with
  | false => exact Or.inl (by simpa using ht.2)
  | true =>
      exact (resolve_tells cmd.seq _ t).mono (fun _ u hu => Or.inr ⟨state, detail, hu⟩)
        (fun _ _ h => h) fun _ h => h

/-- What `_refresh_lease` may have done: it leaves LEASED, and nothing but LEASED, when the
lease is over. -/
def Refreshed (s t : St W) : Prop :=
  t = s ∨ s.wk.state = .leased ∧ t.wk.head = s.wk.head ∧
    (t.wk.state = .leased ∨ t.wk.state = .closed ∧ ¬ Leased t)

theorem refreshLease_tells (hclock : Steady W) (s : St W) :
    wp refreshLease (fun _ t => Refreshed s t) (fun _ _ => False) (fun _ => False) s := by
  unfold refreshLease
  rw [wp_bind, wp_self, wp_onlyIf]
  refine ⟨fun hst => ?_, fun _ => Or.inl rfl⟩
  have hst : s.wk.state = .leased := of_decide_eq_true hst
  rw [wp_bind, wp_atAccess, wp_bind, wp_clock, wp_onlyIf]
  refine ⟨fun hover => Or.inr ⟨hst, Worker.setState_head _ _ _, Or.inr
    ⟨Worker.setState_state _ _ _, ?_⟩⟩, fun _ => Or.inr ⟨hst, rfl, Or.inl hst⟩⟩
  have hover : (seen s).leaseUntil ≤ (Line.monotonic (atAccess s).world).1 :=
    of_decide_eq_true hover
  exact not_lt.2 (hover.trans (hclock.clock _))

/-- What a verdict says about the command and about the state it was dispatched in: executed in
CONNECTED, refused in a state of `FAIL_FAST` or after its deadline, and waiting otherwise. -/
def Fate (cmd : Command) (s : St W) : Verdict → St W → Prop
  | .execute c, t => c = cmd ∧ s.wk.state = .connected ∧
      ((seen s).futures cmd.seq).state = .pending ∧ (Leased t ↔ Leased (atAccess s))
  | .finished, t => Refused cmd t
  | .goOn, t => t.wk.wantLink = true ∧ t.wk.head = s.wk.head ∧ s.wk.state ≠ .connected ∧
      (s.wk.state ∈ failFast → ¬ Leased t)

/-- `_try_execute` goes by the state alone, and each of its verdicts says which. -/
theorem attempt_tells (hclock : Steady W) (cmd : Command) (s : St W) :
    wp (attempt cmd) (Fate cmd s) (fun _ _ => True) (fun _ => True) s := by
  unfold attempt
  rw [wp_bind]
  refine (refreshLease_tells hclock s).mono (fun _ t ht => ?_) (fun _ _ _ => trivial)
    fun _ _ => trivial
  rw [wp_bind, wp_self, wp_ite, wp_ite]
  refine ⟨fun hst => ?_, fun hst => ⟨fun _ => ?_, fun hslow => ?_⟩⟩
  · -- CONNECTED is not refreshed
    have hts : t = s := by
      rcases ht with h | ⟨-, -, h | ⟨h, -⟩⟩
      · exact h
      · rw [h] at hst; cases hst
      · rw [h] at hst; cases hst
    subst hts
    rw [wp_bind]
    refine (claim_tells cmd.seq t).mono (fun claimed u hu => ?_) (fun _ _ h => h) fun _ _ => trivial
    rw [wp_pure]
    cases claimed with
    | true => exact ⟨rfl, hst, by simpa using hu.2, hu.1⟩
    | false => exact Or.inl (by simpa using hu.2)
  · rw [wp_bind, wp_self, wp_bind]
    exact (abandon_tells cmd _ _ t).mono (fun _ u hu => hu) (fun _ _ h => h) fun _ _ => trivial
  · rw [wp_bind, wp_clock, wp_ite]
    refine ⟨fun _ => ?_, fun _ => ?_⟩
    · rw [wp_bind]
      exact (abandon_tells cmd _ _ _).mono (fun _ u hu => hu) (fun _ _ h => h) fun _ _ => trivial
    · rw [wp_bind, wp_update, wp_pure]
      rcases ht with rfl | ⟨hs, hh, h | ⟨h, hno⟩⟩
      · exact ⟨rfl, rfl, hst, fun h => absurd h hslow⟩
      · exact absurd (h ▸ by decide) hslow
      · refine ⟨rfl, hh, by rw [hs]; decide, fun _ => ?_⟩
        exact not_lt.2 ((not_lt.1 hno).trans (hclock.clock _))

/-- A command that has not been claimed is dispatched without an exception. -/
theorem attempt_ends (hclock : Steady W) {cmd : Command} {s : St W}
    (h : Tracked [cmd] [] s.shared) :
    wp (attempt cmd) (fun _ _ => True) (fun _ _ => False) (fun _ => True) s := by
  unfold attempt
  rw [wp_bind]
  refine ((refreshLease_tells hclock s).and (aside_closed.refreshLease.wp s)).mono
    (fun _ t ht => ?_) (fun _ _ h => h.1) fun _ _ => trivial
  have htracked : Tracked [cmd] [] t.shared := ht.2.tracked _ _ h
  have habandon : ∀ (u : St W) e, u.shared = t.shared →
      wp (abandon cmd e >>= fun _ => pure Verdict.finished) (fun _ _ => True) (fun _ _ => False)
        (fun _ => True) u := fun u e hu => by
    rw [wp_bind]
    exact (wp_abandon (hu ▸ htracked) e).mono (fun _ _ _ => trivial) (fun _ _ h => h)
      fun _ h => h
  rw [wp_bind, wp_self, wp_ite, wp_ite]
  refine ⟨fun _ => ?_, fun _ => ⟨fun _ => ?_, fun _ => ?_⟩⟩
  · rw [wp_bind]
    exact (wp_claim htracked).mono (fun _ _ _ => trivial) (fun _ _ h => h) fun _ h => h
  · rw [wp_bind, wp_self]
    exact habandon t _ rfl
  · rw [wp_bind, wp_clock, wp_ite]
    exact ⟨fun _ => habandon _ _ rfl, fun _ => trivial⟩

/-! ## What `_step` makes of the deadline -/

/-- What a course promises. -/
def Charted : Course → St W → Prop
  | .handOver, u => Paired u
  | .openPort until_, u => until_ ≤ (Line.monotonic u.world).1
  | .idle, u => Down u ∧ u.wk.wantLink = false
  | .keepOn _, u => ¬ Leased u

/-- The command that waits, and that it waits. -/
def SameWait (s t : St W) : Prop := t.wk.head = s.wk.head ∧ t.wk.wantLink = s.wk.wantLink

omit [Line W] [Clients W] in
theorem sameWait_setState (s : St W) (state : LinkState) (error : String) :
    SameWait s { s with wk := s.wk.setState state error } := by
  refine ⟨Worker.setState_head _ _ _, ?_⟩
  show (s.wk.setState state error).wantLink = _
  unfold Worker.setState
  split_ifs <;> rfl

theorem shouldOpen_tells (hclock : Steady W) (cfg : Config) (now : Time) (s : St W) :
    wp (shouldOpen cfg now) (fun wanted t => t.wk = s.wk ∧
      (Line.monotonic s.world).1 ≤ (Line.monotonic t.world).1 ∧
      (wanted = false → s.wk.wantLink = false)) (fun _ _ => False) (fun _ => False) s := by
  unfold shouldOpen
  rw [wp_bind, wp_self, wp_ite]
  refine ⟨fun _ => ⟨rfl, le_rfl, fun h => nomatch h⟩, fun hno => ?_⟩
  rw [wp_bind, wp_atAccess, wp_ite]
  have hstay : (Line.monotonic s.world).1 ≤ (Line.monotonic (atAccess s).world).1 :=
    hclock.others s.world
  exact ⟨fun _ => ⟨rfl, hstay, fun h => nomatch h⟩,
    fun _ => ⟨rfl, hstay, fun _ => Bool.eq_false_iff.2 hno⟩⟩

theorem courseClosed_tells (hclock : Steady W) (cfg : Config) {now until_ : Time} {s : St W}
    (hs : Down s) (hle : until_ ≤ (Line.monotonic s.world).1) :
    wp (courseClosed cfg now until_) (fun c t => Charted c t ∧ SameWait s t) (fun _ _ => False)
      (fun _ => False) s := by
  have hk := keep_closed (W := W)
  unfold courseClosed
  rw [wp_bind]
  refine ((shouldOpen_tells hclock cfg now s).and ((hk.shouldOpen cfg now).wp s)).mono
    (fun wanted t ht => ?_) (fun _ _ h => h.1) fun _ h => h.1
  obtain ⟨⟨hwk, hlet, hno⟩, hkeep⟩ := ht
  rw [wp_ite]
  refine ⟨fun _ => ?_, fun hw => ?_⟩
  · rw [wp_bind, wp_setState, wp_bind, wp_sync, wp_pure]
    have hsame := sameWait_setState t .opening ""
    refine ⟨(hle.trans hlet).trans (hclock.others t.world), ?_⟩
    exact ⟨hsame.1.trans (by rw [hwk]), hsame.2.trans (by rw [hwk])⟩
  · rw [wp_pure]
    refine ⟨⟨hkeep.toDrop.toStill.down hs, ?_⟩, by rw [hwk], by rw [hwk]⟩
    rw [hwk]
    exact hno (by simpa using hw)

/-- The course of `_step` goes by the deadline that it has read. -/
theorem course_tells (hclock : Steady W) (cfg : Config) {s : St W} (hs : Paired s) :
    wp (course cfg) (fun c t => Charted c t ∧ SameWait s t) (fun _ _ => False) (fun _ => False)
      s := by
  unfold course
  rw [wp_bind, wp_clock, wp_bind, wp_atAccess, wp_bind, wp_self]
  generalize hs₁ : atAccess { s with world := (Line.monotonic s.world).2 } = s₁
  have hp₁ : Paired s₁ := by
    subst hs₁
    exact Keep.paired (s := s) (Keep.of_eq rfl rfl rfl rfl rfl) hs
  have hwait : SameWait s s₁ := by
    subst hs₁
    exact ⟨rfl, rfl⟩
  have hlater : (Line.monotonic s.world).1 ≤ (Line.monotonic s₁.world).1 := by
    subst hs₁
    exact (hclock.clock _).trans (hclock.others _)
  have hread : (seen { s with world := (Line.monotonic s.world).2 }).leaseUntil =
      s₁.shared.leaseUntil := by
    subst hs₁
    rfl
  rw [hread, wp_ite]
  refine ⟨fun _ => ⟨hp₁, hwait⟩, fun hover => ?_⟩
  have hle : s₁.shared.leaseUntil ≤ (Line.monotonic s₁.world).1 := (not_lt.1 hover).trans hlater
  -- the state of a lease that is over becomes CLOSED
  have hrest : ∀ u : St W, Paired u → u.world = s₁.world → u.shared = s₁.shared →
      SameWait s₁ u → wp (do
        let wk ← self id
        match wk.state with
        | .closed | .portBusy | .portLost | .noDevices =>
            courseClosed cfg (Line.monotonic s.world).1 s₁.shared.leaseUntil
        | _ => pure (.keepOn (Line.monotonic s.world).1))
        (fun c t => Charted c t ∧ SameWait s t) (fun _ _ => False) (fun _ => False) u := by
    intro u hu hworld hshared hsame
    have hsu : SameWait s u := ⟨hsame.1.trans hwait.1, hsame.2.trans hwait.2⟩
    have hleu : s₁.shared.leaseUntil ≤ (Line.monotonic u.world).1 := by rwa [hworld]
    have hclosed : Down u → wp (courseClosed cfg (Line.monotonic s.world).1 s₁.shared.leaseUntil)
        (fun c t => Charted c t ∧ SameWait s t) (fun _ _ => False) (fun _ => False) u :=
      fun hd => (courseClosed_tells hclock cfg hd hleu).mono
        (fun _ _ h => ⟨h.1, h.2.1.trans hsu.1, h.2.2.trans hsu.2⟩) (fun _ _ h => h) fun _ h => h
    have hon : ∀ now, Charted (.keepOn now) u := fun _ => by
      show ¬ Leased u
      unfold Leased
      rw [hshared]
      exact not_lt.2 hleu
    rw [wp_bind, wp_self]
    cases hst : u.wk.state with
    | closed | portBusy | portLost | noDevices =>
        simp only [id, hst]
        exact hclosed (hu.down (by rw [hst]; decide))
    | opening | discovering | connecting | connected | draining | releasing | backoff | leased
    | shutdown =>
        simp only [id, hst, wp_pure]
        exact ⟨hon _, hsu⟩
  rw [wp_bind, wp_onlyIf]
  refine ⟨fun hst => ?_, fun _ => hrest s₁ hp₁ rfl rfl ⟨rfl, rfl⟩⟩
  have hdown : Down s₁ := hp₁.down (by rw [of_decide_eq_true hst]; decide)
  exact hrest _ (Down.setState hdown.2 (by decide) _).paired rfl rfl (sameWait_setState s₁ _ _)

/-- The port is given back, whatever the release raises. -/
theorem wp_handOver (cfg : Config) {s : St W} (h : Paired s) :
    wp (handle (follow cfg .handOver) fun _ => some lastResort)
      (fun _ t => Down t ∧ t.wk.state ∈ failFast) (fun _ _ => True) (fun _ => True) s := by
  have hfollow : Ends (follow cfg .handOver) (fun _ t => Down t ∧ t.wk.state ∈ failFast) s := by
    refine ends_self (Ends.bind (Q := fun _ t => Shut t) ?_ fun _ t ht => ?_)
    · unfold Ends
      rw [wp_onlyIf]
      refine ⟨fun _ => ends_release h.weak, fun hst => (h.down ?_).2⟩
      revert hst
      cases s.wk.state <;> decide
    · refine ends_setState ⟨Down.setState ht (by decide) _, ?_⟩
      rw [Worker.setState_state]
      decide
  rw [wp_handle]
  refine wp.mono hfollow (fun _ _ h => h) (fun e t ht => ?_) fun _ h => h
  refine wp.mono (ends_lastResort ht) (fun _ u hu => ⟨hu.1, ?_⟩) (fun _ _ _ => trivial)
    fun _ _ => trivial
  rw [hu.2]
  decide

/-! ## Runs that honour a lease -/

/-- The lease is called in time: the pass from `s` dispatches no command to a session that
is up under a lease, and no lease comes in between the read of `_step` and the port. -/
structure Prompt (cfg : Config) (s : St W) : Prop where
  idle : ∀ cmd v, Dispatches cfg s cmd v → v.wk.state = .connected →
    ((seen v).futures cmd.seq).state = .pending → ¬ Leased (atAccess v)
  read : ∀ until_ u, Decides cfg s (.openPort until_) u → Leased u → u.shared.leaseUntil = until_

/-- What a lease promises of the pass from `s` to `t`. -/
structure Honoured (cfg : Config) (s t : St W) : Prop where
  /-- No command starts under a lease. -/
  executes : ∀ cmd u, Executes cfg s cmd u → ¬ Leased u
  /-- No port is opened under a lease. -/
  opens : ∀ until_ u, Decides cfg s (.openPort until_) u → ¬ Leased u
  /-- A pass without a command comes to `_step`, or an exception gives the port back. -/
  comes : (∀ cmd v, ¬ Dispatches cfg s cmd v) → (∃ c u, Decides cfg s c u) ∨ Down t
  /-- Under a lease `_step` leaves the port free, and a command that still waits will fail. -/
  releases : ∀ c u, Decides cfg s c u → Leased u →
    Down t ∧ (t.wk.head.isSome = true → t.wk.state ∈ failFast)
  /-- A command that meets a fail-fast state, with the lease in force to the end, fails. -/
  refuses : ∀ cmd v, Dispatches cfg s cmd v → ¬ (v.shared.futures cmd.seq).Claimed →
    v.wk.state ∈ failFast → Leased (opening cfg s).2 → Refused cmd t
  /-- A command that meets another state fails, or the pass comes to `_step` with it. -/
  waits : ∀ cmd v, Dispatches cfg s cmd v → ¬ (v.shared.futures cmd.seq).Claimed →
    v.wk.state ∉ failFast → Leased (atAccess v) →
    Refused cmd t ∨ t.wk.head = some cmd ∧ ∃ c u, Decides cfg s c u

/-- `_step` always takes a course. -/
theorem decides_of_goOn (hclock : Steady W) {cfg : Config} {s v : St W} (hp : Paired s)
    (hstop : stopSeen s = false) (hv : opening cfg s = (.ret .goOn, v)) :
    ∃ c u, Decides cfg s c u := by
  have hcourse := wp_iff.1 (course_tells hclock cfg ((wp_iff.1 (pairs_opening cfg s hp)).1 _ _ hv))
  rcases hc : course cfg v with ⟨c | e | _, u⟩
  · exact ⟨c, u, hstop, v, hv, hc⟩
  · exact (hcourse.2.1 _ _ hc).elim
  · exact (hcourse.2.2 _ hc).elim

/-- A pass without a command. -/
theorem comes_to_step (hclock : Steady W) {cfg : Config} {s t : St W} (hpair : Paired s)
    (hp : Pass cfg s t) (hno : ∀ cmd v, ¬ Dispatches cfg s cmd v) :
    (∃ c u, Decides cfg s c u) ∨ Down t := by
  obtain ⟨hstop, ht⟩ := pass_eq hp
  rcases hv : opening cfg s with ⟨verdict | e | _, u⟩
  · have hx := hv
    rw [opening_eq, bind_run] at hx
    rcases hf : fetching cfg s with ⟨c | _ | _, x⟩ <;> rw [hf] at hx
    · cases c with
      | none =>
          cases hx
          exact Or.inl (decides_of_goOn hclock hpair hstop hv)
      | some cmd => exact absurd hf (hno cmd x)
    · cases hx
    · cases hx
  · simp only [handle, bind_run, hv] at ht
    have hweak : Weak u := (wp_iff.1 (pairs_opening cfg s hpair)).2.1 e u hv
    exact Or.inr ((wp_iff.1 (ends_lastResort hweak)).1 _ _ ht).1
  · simp only [handle, bind_run, hv] at ht
    cases ht

/-- A course keeps its promise, and a command that waits has asked for the link. -/
theorem decides_tells (hclock : Steady W) {cfg : Config} {s u : St W} {c : Course}
    (hp : Paired s) (hs : Settled s ∨ Stuck s) (h : Decides cfg s c u) :
    Charted c u ∧ (u.wk.head.isSome = true → u.wk.wantLink = true) := by
  obtain ⟨hstop, v, hv, hc⟩ := h
  have hpv : Paired v := (wp_iff.1 (pairs_opening cfg s hp)).1 _ _ hv
  have hasked : v.wk.head.isSome = true → v.wk.wantLink = true := by
    rw [opening_eq, bind_run] at hv
    rcases hf : fetching cfg s with ⟨c | _ | _, x⟩ <;> rw [hf] at hv
    · have hcx := ((wp_iff.1 (wp_fetching cfg hs)).1 _ _ hf).1 hstop
      cases c with
      | none =>
          cases hv
          rw [← hcx]
          exact fun hno => nomatch hno
      | some cmd => exact fun _ => ((wp_iff.1 (attempt_tells hclock cmd x)).1 _ _ hv).1
    · cases hv
    · cases hv
  obtain ⟨hcharted, hhead, hwant⟩ := (wp_iff.1 (course_tells hclock cfg hpv)).1 _ _ hc
  exact ⟨hcharted, by rwa [hhead, hwant]⟩

theorem executes_dispatched (hclock : Steady W) {cfg : Config} {s u : St W} {cmd : Command}
    (h : Executes cfg s cmd u) : ∃ v, Dispatches cfg s cmd v ∧ Fate cmd v (.execute cmd) u := by
  have hx : opening cfg s = (.ret (.execute cmd), u) := h
  rw [opening_eq, bind_run] at hx
  rcases hf : fetching cfg s with ⟨c | _ | _, v⟩ <;> rw [hf] at hx
  · cases c with
    | none => cases hx
    | some c =>
        have hfate := (wp_iff.1 (attempt_tells hclock c v)).1 _ _ hx
        obtain rfl : cmd = c := hfate.1
        exact ⟨v, hf, hfate⟩
  · cases hx
  · cases hx

/-- The fate of a dispatched command is the fate it has in the pass. -/
theorem fate_of_dispatches (hclock : Steady W) {cfg : Config} {s t v : St W} {cmd : Command}
    (hpair : Paired s) (hs : Settled s ∨ Stuck s) (hp : Pass cfg s t) (hd : Dispatches cfg s cmd v)
    (hfree : ¬ (v.shared.futures cmd.seq).Claimed) :
    (∃ u, Fate cmd v (.execute cmd) u) ∨ Refused cmd t ∨
      (t.wk.head = some cmd ∧ ∃ c u, Decides cfg s c u) ∧
        (v.wk.state ∈ failFast → ¬ Leased (opening cfg s).2) := by
  obtain ⟨hhead, hv⟩ := ((wp_iff.1 (wp_fetching cfg hs)).1 _ _ hd).2 cmd rfl
  have htracked : Tracked [cmd] [] v.shared := by
    rcases hv with hset | ⟨c, hc, htracked⟩
    · unfold Settled at hset
      rwa [hhead] at hset
    · obtain rfl : c = cmd := Option.some.inj (hc.symm.trans hhead)
      exact absurd (htracked.claimed c.seq (List.mem_singleton_self _)).2 hfree
  have hopen := opening_of_dispatches hd
  rcases ha : attempt cmd v with ⟨verdict | e | _, u⟩
  · have hfate := (wp_iff.1 (attempt_tells hclock cmd v)).1 _ _ ha
    have ht := pass_of_opening hp (hopen.trans ha)
    rw [hopen, ha]
    cases verdict with
    | execute c =>
        obtain rfl : c = cmd := hfate.1
        exact Or.inl ⟨u, hfate⟩
    | finished =>
        cases ht
        exact Or.inr (Or.inl hfate)
    | goOn =>
        refine Or.inr (Or.inr ⟨⟨?_, decides_of_goOn hclock hpair (pass_eq hp).1 (hopen.trans ha)⟩,
          hfate.2.2.2⟩)
        have haside : wp (handle (finish cfg .goOn) fun _ => some lastResort)
            (fun _ x => Aside u x) (fun _ _ => True) (fun _ => True) u := by
          rw [wp_handle]
          refine (aside_closed.step cfg |>.wp u).mono (fun _ _ h => h) (fun e x hx => ?_)
            fun _ _ => trivial
          exact (wp_lastResort x).mono (fun _ y hy => IsTrans.trans _ _ _ hx hy.1)
            (fun _ _ _ => trivial) fun _ _ => trivial
        exact ((wp_iff.1 haside).1 _ _ ht).head.trans (hfate.2.1.trans hhead)
  · exact ((wp_iff.1 (attempt_ends hclock htracked)).2.1 e u ha).elim
  · have ht := (pass_eq hp).2
    simp only [handle, bind_run, hopen, ha] at ht
    cases ht

/-- A pass that meets every lease in time honours it. -/
theorem Prompt.honoured (hclock : Steady W) {cfg : Config} {w : W} {s t : St W}
    (hhead : Head cfg w s) (hp : Pass cfg s t) (hok : Prompt cfg s) : Honoured cfg s t := by
  have hminded := settled_or_stuck hhead
  have hcharted : ∀ {c u}, Decides cfg s c u → Charted c u ∧
      (u.wk.head.isSome = true → u.wk.wantLink = true) :=
    fun hd => decides_tells hclock (paired_head hhead) hminded hd
  have hopens : ∀ until_ u, Decides cfg s (.openPort until_) u → ¬ Leased u := by
    intro until_ u hd hl
    have hle : until_ ≤ (Line.monotonic u.world).1 := (hcharted hd).1
    have heq := hok.read until_ u hd hl
    unfold Leased at hl
    rw [heq] at hl
    exact absurd hle (not_le.2 hl)
  refine ⟨fun cmd u hx => ?_, hopens, comes_to_step hclock (paired_head hhead) hp,
    fun c u hd hl => ?_, fun cmd v hd hfree hst hl => ?_, fun cmd v hd hfree hst hl => ?_⟩
  · obtain ⟨v, hd, -, hst, hpending, hiff⟩ := executes_dispatched hclock hx
    rw [hiff]
    exact hok.idle cmd v hd hst hpending
  · have ht := pass_of_decides hp hd
    obtain ⟨hc, hwait⟩ := hcharted hd
    cases c with
    | handOver =>
        have hend := (wp_iff.1 (wp_handOver cfg hc)).1 _ _ ht
        exact ⟨hend.1, fun _ => hend.2⟩
    | openPort until_ => exact absurd hl (hopens until_ u hd)
    | idle =>
        cases ht
        exact ⟨hc.1, fun hsome => nomatch (hwait hsome).symm.trans hc.2⟩
    | keepOn now => exact absurd hl hc
  · rcases fate_of_dispatches hclock (paired_head hhead) hminded hp hd hfree with
      ⟨u, -, hup, -⟩ | hrefused | ⟨-, hno⟩
    · rw [hup] at hst
      exact absurd hst (by decide)
    · exact hrefused
    · exact absurd hl (hno hst)
  · rcases fate_of_dispatches hclock (paired_head hhead) hminded hp hd hfree with
      ⟨u, -, hup, hpending, -⟩ | hrefused | ⟨hwaits, -⟩
    · exact absurd hl (hok.idle cmd v hd hup hpending)
    · exact Or.inl hrefused
    · exact Or.inr hwaits

/-- A pending command that is dispatched in CONNECTED is executed. -/
theorem attempt_executes (hclock : Steady W) {cmd : Command} {s : St W}
    (hst : s.wk.state = .connected) (hpending : ((seen s).futures cmd.seq).state = .pending) :
    wp (attempt cmd) (fun v t => v = .execute cmd ∧ (Leased t ↔ Leased (atAccess s)))
      (fun _ _ => False) (fun _ => False) s := by
  unfold attempt
  rw [wp_bind]
  refine (refreshLease_tells hclock s).mono (fun _ t ht => ?_) (fun _ _ h => h) fun _ h => h
  obtain rfl | ⟨hleased, -⟩ := ht
  · rw [wp_bind, wp_self, wp_ite]
    refine ⟨fun _ => ?_, fun hno => absurd hst hno⟩
    unfold claim
    rw [wp_bind, wp_bind, wp_atAccess, hpending]
    exact ⟨rfl, Iff.rfl⟩
  · rw [hst] at hleased
    cases hleased

/-- And a pass that honours every lease has met it in time. -/
theorem Honoured.prompt (hclock : Steady W) {cfg : Config} {s t : St W}
    (h : Honoured cfg s t) : Prompt cfg s where
  idle cmd v hd hst hpending := by
    have hw := attempt_executes hclock hst hpending
    rcases ha : attempt cmd v with ⟨verdict | e | _, u⟩
    · obtain ⟨rfl, hiff⟩ := (wp_iff.1 hw).1 _ _ ha
      rw [← hiff]
      exact h.executes cmd u ((opening_of_dispatches hd).trans ha)
    · exact ((wp_iff.1 hw).2.1 _ _ ha).elim
    · exact ((wp_iff.1 hw).2.2 _ ha).elim
  read until_ u hd hl := absurd hl (h.opens until_ u hd)

/-- **When a lease is honoured.**  A run honours it in every pass exactly when every pass
meets it in time: then no command starts and no port is opened while it is in force, `_step`
gives the port back, and the commands that come meanwhile fail. -/
theorem lease_honoured (hclock : Steady W) {cfg : Config} {w : W} {s : St W} :
    HeadBy cfg (Honoured cfg) w s ↔ HeadBy cfg (fun s _ => Prompt cfg s) w s := by
  constructor
  · intro h
    exact h.lift id fun _ _ hp => ⟨hp.1, hp.2.prompt hclock⟩
  · intro h
    induction h with
    | refl => exact .refl
    | tail hs hp ih => exact ih.tail ⟨hp.1, hp.2.honoured hclock (head_of_headBy hs) hp.1⟩

/-- A pass that finds no command, and whose course goes by the deadline it has read. -/
theorem prompt_of {cfg : Config} {s : St W} {c : Course} (hf : (fetching cfg s).1 = .ret none)
    (hc : (course cfg (opening cfg s).2).1 = .ret c)
    (hread : ∀ until_, c = .openPort until_ →
      (course cfg (opening cfg s).2).2.shared.leaseUntil = until_) : Prompt cfg s where
  idle cmd v hd := by
    rw [show fetching cfg s = _ from hd] at hf
    cases hf
  read until_ u hd := by
    obtain ⟨-, v, hv, hcu⟩ := hd
    rw [hv] at hc hread
    dsimp only at hc hread
    rw [hcu] at hc hread
    cases hc
    exact fun _ => hread until_ rfl

theorem decides_of {cfg : Config} {s : St W} {c : Course} (hstop : stopSeen s = false)
    (hv : (opening cfg s).1 = .ret .goOn) (hc : (course cfg (opening cfg s).2).1 = .ret c) :
    Decides cfg s c (course cfg (opening cfg s).2).2 :=
  ⟨hstop, _, Prod.ext hv rfl, Prod.ext hc rfl⟩

/-- A device that answers, and a client that calls `lease()` before the worker's `i`-th access
to a shared variable, and goes on with `more`. -/
def leasesAt (i : ℕ) (more : List ClientCall) : Bench ClientCall :=
  { plan :=
    { answer := fun _ => deviceAnswer []
      reply := fun _ => deviceReply
      calls := fun k => if k = i then .lease 0 (ms 1000000) :: more else [] } }

/-- The head after the first connection. -/
def connectedHead (i : ℕ) (more : List ClientCall) : St (Bench ClientCall) :=
  runPasses attentive 1 (St.init (leasesAt i more))

/-- Called while the worker waits for a command, and none comes. -/
theorem lease_honoured_idle :
    HeadBy attentive (Honoured attentive) (leasesAt 8 [])
      (runPasses attentive 1 (connectedHead 8 [])) := by
  refine (lease_honoured steady_bench).2 ?_
  have hfirst : HeadBy attentive (fun s _ => Prompt attentive s) (leasesAt 8 [])
      (connectedHead 8 []) := by
    refine headBy_runPasses .refl (by decide +kernel) ?_
    refine prompt_of (c := .openPort 0) (by decide +kernel) (by decide +kernel) ?_
    intro until_ h
    cases h
    decide +kernel
  refine headBy_runPasses hfirst (by decide +kernel) ?_
  exact prompt_of (c := .handOver) (by decide +kernel) (by decide +kernel) fun _ h => nomatch h

/-- **A lease that comes too late is ignored.**  A command that comes right after `lease()`,
while the worker waits for one, is executed; and `lease()` between the read of `_step` and the port
does not keep the port closed. -/
theorem lease_ignored :
    (∃ s cmd u, Head attentive (leasesAt 8 [.submit .getTilt [] 5 0 (ms 20000)]) s ∧
      Executes attentive s cmd u ∧ Leased u) ∧
    ∃ until_ u, Decides attentive (St.init (leasesAt 5 [])) (.openPort until_) u ∧ Leased u ∧
      (connectedHead 5 []).ports = [0] := by
  refine ⟨⟨connectedHead 8 [.submit .getTilt [] 5 0 (ms 20000)],
    ⟨5, 0, .getTilt, [], ms 20000⟩, _, reaches_runPasses attentive 1 _,
    Prod.ext (by decide +kernel) rfl, by decide +kernel⟩, 0, _,
    decides_of (by decide +kernel) (by decide +kernel) (by decide +kernel),
    by decide +kernel, by decide +kernel⟩

end OpenAisg.Session
