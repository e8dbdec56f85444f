import OpenAisg.Session.Lease

/-!
# The backoff

`_arm_backoff` writes a deadline after every failure, and `_step` reads it in BACKOFF only: in
PORT_BUSY, PORT_LOST, NO_DEVICES and CLOSED the port is opened as soon as something wants it.

* `Unarmed`, `Same`, `Lost` — the deadline is as before; the state too; or the link was lost.
* `Comes` — how a method comes back.  Of one that raises nothing need be said, since the
  handler of `run` arms the backoff.
* `Onward` — the clock does not run backwards over a pass.
* `Patient` — a pass that does not come past the deadline: nothing wants the link in the three
  states, no lease ends early, and no duty cycle loses the link.
* `Cooled` — in the states that go on without a look at the deadline, it is over.
* `comes_course` — what `_step` has seen of the deadline when it takes its course.
* `pass_cooled`, `backoff_honoured` — then no port is opened before the deadline.
* `backoff_ignored` — and a port that is opened before it.
-/

namespace OpenAisg.Session

open Hdlc Link Retap Prog

variable {W : Type} [Line W] [Clients W]

/-! ## What the methods do to the deadline -/

/-- No deadline has been set. -/
def Unarmed (s t : St W) : Prop := t.wk.backoffUntil = s.wk.backoffUntil

/-- Nor has the state changed. -/
def Same (s t : St W) : Prop := t.wk.state = s.wk.state ∧ Unarmed s t

/-- Or the link was lost. -/
def Lost (s t : St W) : Prop := t.wk.state = .backoff ∨ Same s t

instance : IsPreorder (St W) Unarmed where
  refl _ := rfl
  trans _ _ _ h h' := h'.trans h

instance : IsPreorder (St W) Same where
  refl _ := ⟨rfl, rfl⟩
  trans _ _ _ h h' := ⟨h'.1.trans h.1, h'.2.trans h.2⟩

instance : IsPreorder (St W) Lost where
  refl s := Or.inr (Std.Refl.refl s)
  trans _ _ _ h h' := by
    rcases h' with h' | h'
    · exact Or.inl h'
    · exact h.imp (fun h => h'.1.trans h) fun h => IsTrans.trans _ _ _ h h'

theorem drainIndications_backoffUntil (wk : Worker) :
    wk.drainIndications.backoffUntil = wk.backoffUntil := by
  have h : ∀ (ps : List Bytes) (wk' : Worker),
      (ps.foldl Worker.indicate wk').backoffUntil = wk'.backoffUntil := by
    intro ps
    induction ps with
    | nil => exact fun _ => rfl
    | cons p ps ih => exact fun wk' => ih (wk'.indicate p)
  exact h _ _

omit [Line W] [Clients W] in
theorem same_lift {a b : LinkSt W Worker} (h : b.user.state = a.user.state)
    (hd : b.user.backoffUntil = a.user.backoffUntil) : Lift Same a b :=
  fun _ _ _ => ⟨h, hd⟩

omit [Clients W] in
theorem same_frames : FrameClosed (W := W) Same where
  world _ _ := ⟨rfl, rfl⟩
  calls _ _ := ⟨rfl, rfl⟩
  books _ _ h := ⟨h.state, h.backoffUntil⟩
  stored _ _ _ := ⟨rfl, rfl⟩
  report _ _ := ⟨rfl, rfl⟩
  baseline _ _ := ⟨rfl, rfl⟩
  parked s := ⟨s.wk.drainIndications_state, drainIndications_backoffUntil s.wk⟩
  wire _ _ _ := ⟨rfl, rfl⟩
  keepaliveTake addr vr f _ := moves_keepaliveTake (fun _ _ => same_lift rfl rfl)
    (fun _ _ _ => same_lift rfl rfl) (fun _ _ _ => same_lift rfl rfl) (fun _ _ => ⟨rfl, rfl⟩)
    addr vr f
  drainTake f := moves_drainTake (fun _ _ => same_lift rfl rfl) (fun _ _ _ => same_lift rfl rfl)
    (fun _ _ _ => same_lift rfl rfl) f
  log _ _ _ := ⟨rfl, rfl⟩
  link _ _ _ _ _ := ⟨rfl, rfl⟩
  iFrame _ _ _ _ := moves_onIFrame (fun _ _ => same_lift rfl rfl)
    (fun _ _ _ _ => same_lift rfl rfl) (fun _ _ _ => same_lift rfl rfl) fun _ _ => same_lift rfl rfl

omit [Clients W] in
theorem same_bus : BusClosed (W := W) Same := (same_frames).busClosed

theorem same_queue : QueueClosed (W := W) Same :=
  (same_bus).toQuietClosed.queueClosed (fun _ _ => ⟨rfl, rfl⟩) fun _ _ => ⟨rfl, rfl⟩

omit [Clients W] in
/-- Everything but `_arm_backoff` leaves the deadline alone. -/
theorem unarmed_frames : FrameClosed (W := W) Unarmed where
  toQuietClosed := (same_bus).toQuietClosed.mono fun _ _ h => h.2
  log _ _ _ := rfl
  link _ _ _ _ _ := rfl
  iFrame p addr m t ns x f := (same_frames.iFrame p addr m t ns x f).mono
    fun _ _ h ports n sh => (h ports n sh).2

omit [Clients W] in
theorem unarmed_closed : StateClosed (W := W) Unarmed where
  toBusClosed := (unarmed_frames).busClosed
  state s state error := s.wk.setState_backoffUntil state error
  address _ _ _ := rfl
  opened _ := rfl
  closed _ := rfl
  dropped _ := rfl

/-! ## The methods that set it -/

/-- How a method comes back; nothing is said of one that raises. -/
def Comes {α : Type} (c : WorkerProg W α) (Q : α → St W → Prop) (s : St W) : Prop :=
  wp c Q (fun _ _ => True) (fun _ => True) s

section Comes

variable {α β : Type} {c : WorkerProg W α} {s : St W}

omit [Line W] [Clients W]

/-- Two methods in a row. -/
theorem Comes.bind {f : α → WorkerProg W β} {Q : α → St W → Prop} {Q' : β → St W → Prop}
    (hc : Comes c Q s) (hf : ∀ a t, Q a t → Comes (f a) Q' t) : Comes (c >>= f) Q' s := by
  unfold Comes
  rw [wp_bind]
  exact hc.mono hf (fun _ _ _ => trivial) fun _ _ => trivial

theorem Comes.mono {Q Q' : α → St W → Prop} (h : Comes c Q s) (hQ : ∀ a t, Q a t → Q' a t) :
    Comes c Q' s :=
  wp.mono h hQ (fun _ _ _ => trivial) fun _ _ => trivial

/-- Nothing is claimed of it. -/
theorem comes_any {Q : α → St W → Prop} (h : ∀ a t, Q a t) : Comes c Q s :=
  wp_any h (fun _ _ => trivial) (fun _ => trivial) s

/-- A method that stays in a relation comes back in it. -/
theorem comes_of_moves {R : St W → St W → Prop} (h : Moves R c) : Comes c (fun _ t => R s t) s :=
  (h.wp s).mono (fun _ _ h => h) (fun _ _ _ => trivial) fun _ _ => trivial

/-- After a step that changes neither. -/
theorem Comes.after_same {f : α → WorkerProg W β} {Q : β → St W → Prop} (hc : Moves Same c)
    (hf : ∀ a t, Same s t → Comes (f a) Q t) : Comes (c >>= f) Q s :=
  (comes_of_moves hc).bind hf

end Comes

omit [Clients W] in
/-- `_arm_backoff` ends in the state it finds, or in BACKOFF. -/
theorem comes_armBackoff (s : St W) :
    Comes armBackoff (fun _ t => t.wk.state =
      if s.wk.state ∈ [LinkState.portBusy, .portLost, .noDevices] then s.wk.state else .backoff)
      s := by
  unfold Comes armBackoff
  rw [wp_bind, wp_update, wp_bind, wp_clock, wp_bind, wp_update, wp_bind, wp_self, wp_onlyIf]
  dsimp only
  refine ⟨fun h => ?_, fun h => ?_⟩
  · rw [wp_setState, if_neg (of_decide_eq_true h), Worker.setState_state]
  · rw [if_pos (not_not.1 (of_decide_eq_false h))]

omit [Clients W] in
/-- An exit of `_open_and_connect` stays in the state of its failure. -/
theorem comes_giveUp {state : LinkState} (hst : state ∈ failed) (error : String) (s : St W) :
    Comes (giveUp state error) (fun _ t => t.wk.state = state) s := by
  unfold Comes giveUp
  rw [wp_bind, wp_setState]
  refine Comes.mono (comes_armBackoff _) fun _ t ht => ?_
  rw [Worker.setState_state] at ht
  rw [ht]
  revert hst
  cases state <;> decide

omit [Clients W] in
theorem comes_releaseAndGiveUp {state : LinkState} (hst : state ∈ failed) (error : String)
    (s : St W) : Comes (releaseAndGiveUp state error) (fun _ t => t.wk.state = state) s :=
  Comes.bind (comes_any fun _ _ => trivial) fun _ t (_ : True) => comes_giveUp hst error t

omit [Clients W] in
/-- `_fail_link` goes to BACKOFF. -/
theorem comes_failLink (why : String) (s : St W) :
    Comes (failLink why) (fun _ t => t.wk.state = .backoff) s :=
  comes_releaseAndGiveUp (by decide) why s

omit [Clients W] in
/-- So does the catch-all handler. -/
theorem comes_lastResort (s : St W) :
    Comes lastResort (fun _ t => t.wk.state = .backoff) s :=
  (comes_failLink _ s).bind fun _ _ ht => ht

/-! ## Connecting -/

/-- A failure has set a new deadline, or the deadline is as before. -/
def Kept (s t : St W) : Prop := t.wk.state ∈ failed ∨ Unarmed s t

omit [Line W] [Clients W] in
/-- A step before that does not touch the deadline. -/
theorem Kept.of_unarmed {s t u : St W} (h : Unarmed s t) (h' : Kept t u) : Kept s u :=
  h'.imp id fun h' => IsTrans.trans _ _ _ h h'

omit [Line W] [Clients W] in
theorem Kept.same {s t u : St W} (h : Kept s t) (h' : Same t u) : Kept s u :=
  h.imp (fun h => by rwa [h'.1]) fun h => IsTrans.trans _ _ _ h h'.2

omit [Line W] [Clients W] in
theorem Lost.kept {s t : St W} (h : Lost s t) : Kept s t :=
  h.imp (fun h => by rw [h]; decide) fun h => h.2

omit [Line W] [Clients W] in
/-- In BACKOFF a failure has set it. -/
theorem kept_of_backoff {s t : St W} (h : t.wk.state = .backoff) : Kept s t :=
  Lost.kept (Or.inl h)

omit [Line W] [Clients W] in
/-- `try c except AisgError: …`, where the handler arms the backoff. -/
theorem comes_catch {α : Type} {c : WorkerProg W α} {b : α} {d : Exn → WorkerProg W Unit}
    {Q : α → St W → Prop} {s : St W} (hc : Comes c Q s)
    (hd : ∀ e t, Comes (d e) (fun _ u => Q b u) t) :
    Comes (handle c fun e => if e.isAisg then some (do d e; pure b) else none) Q s := by
  unfold Comes
  rw [wp_handle]
  refine wp.mono hc (fun _ _ h => h) (fun e t _ => ?_) fun _ h => h
  split_ifs
  · exact (hd e t).bind fun _ u hu => hu
  · trivial

omit [Clients W] in
/-- A session that is set up has not touched the deadline, and a failure has set a new one. -/
theorem comes_connectSession (cfg : Config) (addr : Byte) (s : St W) :
    Comes (connectSession cfg addr) (fun _ t => Kept s t) s := by
  have hu := unarmed_closed (W := W)
  unfold connectSession
  refine (comes_of_moves (hu.setState .connecting "")).bind fun _ t ht => ?_
  refine Comes.bind (Q := fun up u => if up = true then Unarmed s u else u.wk.state = .backoff)
    (comes_catch ?_ fun e u => ?_) fun up u hup => ?_
  · refine (comes_of_moves (moves_onLink (moves_connect hu.oneShot addr))).bind fun _ u hu => ?_
    exact IsTrans.trans (r := Unarmed) _ _ _ ht hu
  · exact (comes_releaseAndGiveUp (by decide) _ u).mono fun _ _ h => by simpa using h
  cases up with
  | false => exact kept_of_backoff (by simpa using hup)
  | true =>
      have hsu : Unarmed s u := by simpa using hup
      refine Comes.bind (Q := fun _ v => Unarmed u v) (comes_of_moves fun _ => rfl)
        fun _ v hv => ?_
      refine (comes_of_moves (hu.onConnected cfg)).bind fun alive x hx => ?_
      have hsx : Unarmed s x := IsTrans.trans _ _ _ hsu (IsTrans.trans _ _ _ hv hx)
      cases alive with
      | false =>
          refine Comes.bind (Q := fun _ _ => True) trivial fun error y _ => ?_
          exact (comes_failLink _ y).mono fun _ _ h => kept_of_backoff h
      | true =>
          refine Comes.bind (Q := fun _ y => Unarmed x y) (comes_of_moves fun _ => rfl)
            fun _ y hy => (comes_of_moves (hu.setState .connected "")).mono fun _ z hz => ?_
          exact Or.inr (IsTrans.trans _ _ _ hsx (IsTrans.trans _ _ _ hy hz))

omit [Clients W] in
theorem comes_discoverSession (cfg : Config) (s : St W) :
    Comes (discoverSession cfg) (fun _ t => Kept s t) s := by
  have hu := unarmed_closed (W := W)
  unfold discoverSession
  refine (comes_of_moves (hu.clearStaleLinks cfg)).bind fun _ t ht => ?_
  refine (comes_of_moves (hu.setState .discovering "")).bind fun _ u htu => ?_
  have hsu : Unarmed s u := IsTrans.trans _ _ _ ht htu
  refine Comes.bind (Q := fun found v => if found = none then v.wk.state = .backoff
    else Unarmed s v) (comes_catch ?_ fun e v => ?_) fun found v hv => ?_
  · refine (comes_of_moves (hu.discover cfg)).bind fun addr v hv => ?_
    exact IsTrans.trans (r := Unarmed) _ _ _ hsu hv
  · exact (comes_releaseAndGiveUp (by decide) _ v).mono fun _ _ h => by simpa using h
  · rcases found with _ | _ | addr
    · exact kept_of_backoff (by simpa using hv)
    · refine (comes_releaseAndGiveUp (by decide) _ v).mono fun _ _ h => Or.inl ?_
      rw [h]
      decide
    · have hsv : Unarmed s v := by simpa using hv
      exact (comes_connectSession cfg addr v).mono fun _ _ h => h.of_unarmed hsv

/-- `_open_and_connect` from the opening of the port on. -/
theorem comes_openPort (cfg : Config) (until_ : Time) (s : St W) :
    Comes (follow cfg (.openPort until_)) (fun _ t => Kept s t) s := by
  have hu := unarmed_closed (W := W)
  refine Comes.bind (Q := fun up u => if up = true then Unarmed s u else u.wk.state ∈ failed)
    (comes_catch ?_ fun e u => ?_) fun up u hup => ?_
  · exact (comes_of_moves (hu.openLink cfg)).bind fun _ u hu => hu
  · refine (comes_giveUp (openFailure_failed e) _ u).mono fun _ v hv => ?_
    have hv : v.wk.state ∈ failed := by
      rw [hv]
      exact openFailure_failed e
    simpa using hv
  · cases up with
    | false => exact Or.inl (by simpa using hup)
    | true =>
        have hsu : Unarmed s u := by simpa using hup
        exact (comes_discoverSession cfg u).mono fun _ _ h => h.of_unarmed hsu

/-! ## Monitoring -/

omit [Line W] [Clients W] in
theorem Lost.of_same {s t u : St W} (h : Same s t) (h' : Lost t u) : Lost s u :=
  IsTrans.trans _ _ _ (Or.inr h) h'

omit [Line W] [Clients W] in
theorem Lost.same {s t u : St W} (h : Lost s t) (h' : Same t u) : Lost s u :=
  IsTrans.trans _ _ _ h (Or.inr h')

omit [Clients W] in
/-- `_poll_alarms` keeps the state and the deadline, or loses the link. -/
theorem comes_pollAlarms (cfg : Config) (s : St W) :
    Comes (pollAlarms cfg) (fun _ t => Lost s t) s := by
  have hb := same_bus (W := W)
  unfold pollAlarms
  refine Comes.after_same (moves_read _) fun a t hst => ?_
  have hbody : Moves Same (do
      let names ← (ret cfg a).getAlarmStatus
      update fun wk => wk.report names
      let tilt ← (ret cfg a).getTilt
      update fun wk => { wk with tilt := some tilt } : WorkerProg W Unit) := by
    refine moves_bind (moves_getAlarmStatus (hb.ret cfg a reports_nothing)) fun names =>
      moves_bind (fun s => hb.report s names) fun _ => ?_
    exact moves_bind (moves_getTilt (hb.ret cfg a reports_nothing)) fun _ =>
      hb.assign fun _ => rfl
  have hpark : ∀ u : St W, Lost s u → Comes (update Worker.drainIndications)
      (fun _ v => Lost s v) u :=
    fun u hu => hu.same (hb.parked u)
  unfold Comes
  rw [wp_ensure, wp_handle]
  refine (hbody.wp t).mono (fun _ u hu => ?_) (fun e u hu => ?_) fun _ _ => trivial
  · exact hpark u (Or.inr (IsTrans.trans _ _ _ hst hu))
  · have hsu : Lost s u := Or.inr (IsTrans.trans _ _ _ hst hu)
    unfold onReset
    split_ifs
    · exact (comes_failLink e.str u).mono fun _ v hv => hpark v (Or.inl hv)
    · exact hpark u hsu
    · trivial

omit [Clients W] in
theorem comes_keepaliveFrame (a : Byte) (f : Rx) (s : St W) :
    Comes (keepaliveFrame a () f) (Step.post (fun _ t => Lost s t) fun _ t => Same s t) s := by
  have hb := same_bus (W := W)
  have hnext : ∀ t : St W, Same s t → Comes (pure (.next ()) : WorkerProg W (Step Unit Unit))
      (Step.post (fun _ t => Lost s t) fun _ t => Same s t) t := fun t ht => ht
  unfold keepaliveFrame
  by_cases haddr : f.addr ≠ a
  · rw [if_pos haddr]
    exact hnext s (Std.Refl.refl s)
  rw [if_neg haddr]
  refine Comes.after_same (moves_onLink (moves_logEvent fun b => hb.liftWire b _ rfl))
    fun _ t ht => ?_
  split_ifs
  · refine (comes_failLink _ t).bind fun _ u hu => ?_
    exact (Or.inl hu : Lost s u)
  · refine Comes.after_same (moves_onLink (moves_read _)) fun p u hu => ?_
    refine Comes.after_same (moves_onlyIf fun hns => ?_) fun _ v hv => ?_
    · exact hb.keepaliveTake a p.vr f (by simpa using hns)
    · exact hnext v (IsTrans.trans _ _ _ ht (IsTrans.trans _ _ _ hu hv))
  · exact hnext t ht

omit [Clients W] in
/-- The keepalive poll leaves both as they are, or loses the link. -/
theorem comes_keepalivePoll (s : St W) : Comes keepalivePoll (fun _ t => Lost s t) s := by
  have hb := same_bus (W := W)
  unfold keepalivePoll Comes
  rw [wp_handle]
  refine wp.mono (Q := fun _ t => Lost s t) (E := fun _ _ => True) (S := fun _ => True) ?_
    (fun _ _ h => h) (fun e t _ => ?_) fun _ _ => trivial
  · refine Comes.after_same (moves_read _) fun held t₁ h₁ => ?_
    refine Comes.after_same (moves_octet held) fun a t₂ h₂ => ?_
    refine Comes.after_same (moves_onLink (moves_read _)) fun p t₃ h₃ => ?_
    refine Comes.after_same (hb.onWrite _) fun _ t₄ h₄ => ?_
    refine Comes.after_same (hb.onRead _) fun frames t₅ h₅ => ?_
    have hs : Same s t₅ := IsTrans.trans _ _ _ h₁ (IsTrans.trans _ _ _ h₂
      (IsTrans.trans _ _ _ h₃ (IsTrans.trans _ _ _ h₄ h₅)))
    refine Comes.bind (wp_scan (fun _ _ t => Same s t) (D := fun _ t => Lost s t)
      (fun f fs _ t ht => ?_) frames () t₅ hs) fun r t ht => ?_
    · refine (comes_keepaliveFrame a f t).mono fun r u hu => ?_
      cases r with
      | done b => exact Lost.of_same ht hu
      | next b => exact IsTrans.trans (r := Same) _ _ _ ht hu
    · cases r with
      | done b => exact ht
      | next b => exact Or.inr ht
  · unfold onOsOrAisg
    split_ifs
    · exact (comes_failLink _ t).mono fun _ u hu => Or.inl hu
    · trivial

omit [Clients W] in
/-- The rest of the housekeeping, after an alarm poll or without one. -/
theorem comes_keepOrRelease (cfg : Config) (now : Time) (s : St W) :
    Comes (keepOrRelease cfg now) (fun _ t => Kept s t ∧ (cfg.monitor ≠ .off → Lost s t)) s := by
  have hb := same_bus (W := W)
  unfold keepOrRelease
  split_ifs with hmon
  · refine Comes.after_same (moves_read _) fun last t ht => ?_
    have hpost : ∀ u : St W, Lost t u → Kept s u ∧ (cfg.monitor ≠ .off → Lost s u) := fun u hu =>
      ⟨(Lost.of_same ht hu).kept, fun _ => Lost.of_same ht hu⟩
    unfold Comes
    rw [wp_onlyIf]
    refine ⟨fun _ => ?_, fun _ => hpost t (Std.Refl.refl t)⟩
    refine Comes.after_same (hb.assign fun _ => rfl) fun _ u hu => ?_
    exact (comes_keepalivePoll u).mono fun _ v hv => hpost v (Lost.of_same hu hv)
  · refine Comes.after_same (moves_read _) fun busyAt t ht => ?_
    unfold Comes
    rw [wp_onlyIf]
    refine ⟨fun hoff => ?_, fun _ => ⟨Or.inr ht.2, fun _ => Or.inr ht⟩⟩
    refine (comes_of_moves (unarmed_closed).giveBack).mono fun _ u hu =>
      ⟨Or.inr (IsTrans.trans _ _ _ ht.2 hu), fun hon => ?_⟩
    rw [Bool.and_eq_true, decide_eq_true_iff] at hoff
    exact absurd hoff.1 hon

/-- Where a duty cycle polls the alarms. -/
def polling (now : Time) (s : St W) : St W := { s with wk := { s.wk with lastMonitorAt := now } }

/-- A duty cycle whose alarm poll loses the link finds a command in the queue, and does not
go on to CLOSED. -/
def KeepsOut (cfg : Config) (now : Time) (s : St W) : Prop :=
  cfg.monitor = .dutyCycled → cfg.monitorPeriod ≤ now - s.wk.lastMonitorAt →
    (pollAlarms cfg (polling now s)).2.wk.state = .backoff →
    (seen (pollAlarms cfg (polling now s)).2).queue.isEmpty = false

theorem comes_connectedHousekeeping (cfg : Config) (now : Time) {s : St W}
    (h : KeepsOut cfg now s) :
    Comes (connectedHousekeeping cfg now) (fun _ t => Kept s t) s := by
  unfold connectedHousekeeping Comes
  rw [wp_bind, wp_self, id, wp_ite]
  refine ⟨fun hlate => ?_, fun _ => (comes_keepOrRelease cfg now s).mono fun _ _ h => h.1⟩
  rw [wp_bind, wp_update, wp_bind]
  have hpoll := comes_pollAlarms cfg (polling now s)
  unfold Comes at hpoll
  refine wp_iff.2 ⟨fun u t ht => ?_, fun _ _ _ => trivial, fun _ _ => trivial⟩
  have hlost : Lost s t :=
    Lost.of_same (t := polling now s) ⟨rfl, rfl⟩ ((wp_iff.1 hpoll).1 u t ht)
  have hend : (pollAlarms cfg (polling now s)).2 = t := congrArg Prod.snd ht
  rw [wp_ite]
  refine ⟨fun hduty => ?_, fun hduty => ?_⟩
  · rw [wp_bind, wp_atAccess, wp_ite]
    have hlate : cfg.monitorPeriod ≤ now - s.wk.lastMonitorAt := by
      rw [Bool.and_eq_true, decide_eq_true_iff] at hlate
      exact hlate.1
    have hkeeps := h hduty hlate
    rw [hend] at hkeeps
    refine ⟨fun hempty => ?_, fun _ => ?_⟩
    · -- the link is still there, or a command waits
      have hnot : t.wk.state ≠ .backoff := fun hback => by
        rw [hkeeps hback] at hempty
        cases hempty
      have hsame : Same s t := hlost.resolve_left hnot
      refine (comes_of_moves (unarmed_closed).giveBack).mono fun _ v hv => ?_
      exact Or.inr (IsTrans.trans _ _ _ hsame.2 hv)
    · refine (comes_keepOrRelease cfg now (atAccess t)).mono fun _ v hv => ?_
      have hon : cfg.monitor ≠ .off := by rw [hduty]; decide
      exact Lost.kept (IsTrans.trans _ _ _ hlost
        (Lost.of_same (t := atAccess t) ⟨rfl, rfl⟩ (hv.2 hon)))
  · refine (comes_keepOrRelease cfg now t).mono fun _ v hv => ?_
    have hon : cfg.monitor ≠ .off := by
      intro hoff
      rw [hoff] at hlate
      simp at hlate
    exact Lost.kept (IsTrans.trans _ _ _ hlost (hv.2 hon))

omit [Clients W] in
/-- `_drain` leaves the deadline as it is, or loses the link and sets a new one. -/
theorem comes_drain (cfg : Config) (s : St W) : Comes (drain cfg) (fun _ t => Kept s t) s := by
  have hb := same_bus (W := W)
  unfold drain
  refine Comes.after_same hb.clock fun now t ht => ?_
  refine Comes.bind (Q := fun quiet u => if quiet = true then Same s u else u.wk.state = .backoff)
    ?_ fun quiet u hu => ?_
  · unfold Comes
    rw [wp_handle]
    refine wp.mono (Q := fun quiet u => quiet = true ∧ Same t u) (E := fun _ _ => True)
      (S := fun _ => True) ?_ (fun quiet u hu => ?_) (fun e u _ => ?_) fun _ _ => trivial
    · refine Comes.after_same (moves_loop (fun _ => hb.drainPass _) _ _) fun _ u hu => ?_
      exact ⟨rfl, hu⟩
    · rw [if_pos hu.1]
      exact IsTrans.trans (r := Same) _ _ _ ht hu.2
    · unfold onOsOrAisg
      split_ifs
      · exact (comes_failLink _ u).bind fun _ v hv => hv
      · trivial
  · cases quiet with
    | false => exact kept_of_backoff (by simpa using hu)
    | true =>
        have hsu : Same s u := by simpa using hu
        refine (comes_of_moves (unarmed_closed.setState .connected "")).mono fun _ v hv => ?_
        exact Or.inr (IsTrans.trans _ _ _ hsu.2 hv)

/-! ## Commands -/

theorem same_resolve (n : ℕ) (o : Except Exn Result) :
    Moves Same (resolve n o : WorkerProg W Unit) := (same_bus).resolve (fun _ _ _ => ⟨rfl, rfl⟩) n o

theorem comes_runCommand (cfg : Config) (cmd : Command) (a : Option Byte) (s : St W) :
    Comes (runCommand cfg cmd a) (fun _ t => Kept s t) s := by
  have hb := same_bus (W := W)
  unfold runCommand
  refine Comes.bind (Q := fun _ t => Kept s t) ?_ fun result t ht => ?_
  · unfold Comes
    rw [wp_handle]
    have hcall : Moves Same (do
        let x ← callCommand (ret cfg a (onPoll cmd.name)) cmd.name cmd.args
        pure (some x) : WorkerProg W (Option Result)) :=
      moves_bind (moves_callCommand (hb.ret cfg a (Books.onPoll cmd.name)) _ _) fun _ =>
        moves_pure _
    refine (hcall.wp s).mono (fun _ t ht => Or.inr ht.2) (fun e t hst => ?_) fun _ _ => trivial
    unfold onReset
    split_ifs
    · refine Comes.after_same (hb.assign fun _ => rfl) fun _ u _ => ?_
      refine (comes_failLink e.str u).bind fun _ v hv => ?_
      refine Comes.after_same (same_resolve _ _) fun _ x hx => ?_
      exact kept_of_backoff (hx.1.trans hv)
    · refine Comes.after_same (hb.assign fun _ => rfl) fun _ u hu => ?_
      refine (comes_of_moves (moves_onlyIf fun _ => (unarmed_closed).setState _ _)).bind
        fun _ v hv => ?_
      refine Comes.after_same (same_resolve _ _) fun _ x hx => ?_
      exact Or.inr (IsTrans.trans _ _ _ hst.2 (IsTrans.trans _ _ _ hu.2
        (IsTrans.trans _ _ _ hv hx.2)))
    · trivial
  · cases result with
    | none => exact ht
    | some x =>
        refine Comes.after_same (fun u => hb.absorb fun _ _ => ⟨rfl, rfl⟩) fun _ u hu => ?_
        exact (comes_of_moves (same_resolve _ _)).mono fun _ v hv => (ht.same hu).same hv

/-- A command leaves the deadline, or fails the link. -/
theorem comes_execute (cfg : Config) (cmd : Command) (s : St W) :
    Comes (execute cfg cmd) (fun _ t => Kept s t) s := by
  have hb := same_bus (W := W)
  unfold execute
  refine Comes.after_same (moves_read _) fun a t₁ h₁ => ?_
  refine Comes.after_same (hb.noteTarget cmd) fun _ t₂ h₂ => ?_
  have hs : Unarmed s t₂ := IsTrans.trans _ _ _ h₁.2 h₂.2
  unfold Comes
  rw [wp_ensure]
  refine wp.mono (comes_runCommand cfg cmd a t₂) (fun _ u hu => ?_)
    (fun _ u _ => comes_any fun _ _ => trivial) fun _ _ => trivial
  exact (comes_of_moves hb.wrapUp).mono fun _ v hv => (hu.same hv).of_unarmed hs

/-! ## A pass up to `_step`, and what `_step` makes of the state -/

/-- The deadline stands, and a lease may have ended. -/
def Loosened (s t : St W) : Prop :=
  Unarmed s t ∧ (t.wk.state = s.wk.state ∨ s.wk.state = .leased ∧ t.wk.state = .closed)

instance : IsPreorder (St W) Loosened where
  refl _ := ⟨rfl, Or.inl rfl⟩
  trans _ t _ h h' := by
    refine ⟨IsTrans.trans _ _ _ h.1 h'.1, ?_⟩
    rcases h'.2 with h' | ⟨h₁, h₂⟩
    · rw [h']
      exact h.2
    · rcases h.2 with h | ⟨-, h⟩
      · exact Or.inr ⟨h ▸ h₁, h₂⟩
      · rw [h] at h₁
        cases h₁

omit [Line W] [Clients W] in
theorem loosened_of_same {α : Type} {c : WorkerProg W α} (h : Moves Same c) : Moves Loosened c :=
  h.mono fun _ _ h => ⟨h.2, Or.inl h.1⟩

theorem loosened_refreshLease : Moves Loosened (refreshLease : WorkerProg W Unit) := by
  refine moves_of_wp fun s => ?_
  unfold refreshLease
  rw [wp_bind, wp_self, wp_onlyIf]
  refine ⟨fun hst => ?_, fun _ => Std.Refl.refl (r := Loosened) s⟩
  rw [wp_bind, wp_atAccess, wp_bind, wp_clock, wp_onlyIf]
  refine ⟨fun _ => ⟨Worker.setState_backoffUntil _ _ _, Or.inr ⟨of_decide_eq_true hst, ?_⟩⟩,
    fun _ => ⟨rfl, Or.inl rfl⟩⟩
  exact Worker.setState_state _ _ _

theorem loosened_fetching (cfg : Config) :
    Moves Loosened (fetching cfg : WorkerProg W (Option Command)) := by
  have hq := same_queue (W := W)
  refine moves_bind (loosened_of_same (hq.shared _)) fun _ => moves_ite (fun _ => moves_pure _)
    fun _ => moves_bind (loosened_of_same hq.clock) fun _ => ?_
  refine moves_bind (loosened_of_same (hq.assign fun _ => rfl)) fun _ =>
    moves_bind loosened_refreshLease fun _ => moves_bind (moves_read _) fun _ => ?_
  exact moves_bind (loosened_of_same (moves_onlyIf fun _ => moves_bind (hq.take cfg) fun c =>
    hq.setHead c)) fun _ => moves_read _

/-- A command that is to be executed has met CONNECTED. -/
theorem comes_attempt (cmd : Command) (s : St W) :
    Comes (attempt cmd) (fun v t => Loosened s t ∧ ∀ c, v = .execute c → t.wk.state = .connected)
      s := by
  have hq := same_queue (W := W)
  unfold attempt
  refine (comes_of_moves loosened_refreshLease).bind fun _ t ht => ?_
  refine Comes.bind (Q := fun state u => state = t.wk.state ∧ u = t) ⟨rfl, rfl⟩ fun state u hu => ?_
  obtain ⟨rfl, rfl⟩ := hu
  have hno : ∀ {v : St W} {x : Verdict}, Same u v → x = .finished ∨ x = .goOn →
      Loosened s v ∧ ∀ c, x = .execute c → v.wk.state = .connected := by
    intro v x hv hx
    refine ⟨IsTrans.trans _ _ _ ht ⟨hv.2, Or.inl hv.1⟩, fun c hc => ?_⟩
    rcases hx with rfl | rfl <;> cases hc
  split_ifs with hst
  · refine (comes_of_moves (hq.claim cmd.seq)).bind fun claimed v hv => ?_
    exact ⟨IsTrans.trans _ _ _ ht ⟨hv.2, Or.inl hv.1⟩, fun _ _ => hv.1.trans hst⟩
  · refine Comes.after_same (moves_read _) fun error v hv => ?_
    refine Comes.after_same (hq.abandon cmd rfl) fun _ x hx => ?_
    exact hno (IsTrans.trans (r := Same) _ _ _ hv hx) (Or.inl rfl)
  · refine Comes.after_same hq.clock fun now v hv => ?_
    split_ifs
    · refine Comes.after_same (hq.abandon cmd rfl) fun _ x hx => ?_
      exact hno (IsTrans.trans (r := Same) _ _ _ hv hx) (Or.inl rfl)
    · refine Comes.after_same (hq.assign fun _ => rfl) fun _ x hx => ?_
      exact hno (IsTrans.trans (r := Same) _ _ _ hv hx) (Or.inr rfl)

theorem comes_opening (cfg : Config) (s : St W) :
    Comes (opening cfg) (fun v t => Loosened s t ∧ ∀ c, v = .execute c → t.wk.state = .connected)
      s := by
  rw [opening_eq]
  refine (comes_of_moves (loosened_fetching cfg)).bind fun c t ht => ?_
  cases c with
  | none => exact ⟨ht, fun _ hc => nomatch hc⟩
  | some cmd =>
      exact (comes_attempt cmd t).mono fun _ u hu => ⟨IsTrans.trans _ _ _ ht hu.1, hu.2⟩

/-- `time.monotonic()`. -/
def St.now (s : St W) : Time := (Line.monotonic s.world).1

/-- The state once `_step` has read the clock and the lease. -/
def looked (s : St W) : St W := atAccess { s with world := (Line.monotonic s.world).2 }

/-- Something wants the link, when `_should_open` asks. -/
def Wanted (cfg : Config) (now : Time) (s : St W) : Prop :=
  s.wk.wantLink = true ∨ (seen s).queue.isEmpty = false ∨ cfg.monitor = .continuous ∨
    cfg.monitor = .dutyCycled ∧ cfg.monitorPeriod ≤ now - s.wk.lastMonitorAt

/-- The states that a failed open leaves, and that no command or monitor waits in. -/
def unlucky : List LinkState := [.portBusy, .portLost, .noDevices]

/-- What brings a course about, in state `s`. -/
def Leads (cfg : Config) (s : St W) : Course → St W → Prop
  | .handOver, _ => True
  | .openPort _, u => Unarmed s u ∧ s.now ≤ u.now ∧ (s.wk.state = .closed ∨
      (s.wk.state = .leased ∧ (looked s).shared.leaseUntil ≤ s.now) ∨
      (s.wk.state ∈ unlucky ∧ Wanted cfg s.now (looked s)))
  | .idle, u => Unarmed s u ∧ (u.wk.state = s.wk.state ∨
      (s.wk.state = .leased ∧ (looked s).shared.leaseUntil ≤ s.now))
  | .keepOn now, u => now = s.now ∧ u = looked s ∧ s.wk.state ∉ .closed :: unlucky

omit [Line W] in
/-- The port is opened only when somebody wants it. -/
theorem shouldOpen_wanted (cfg : Config) (now : Time) (s : St W) :
    Comes (shouldOpen cfg now) (fun wanted _ => wanted = true → Wanted cfg now s) s := by
  unfold shouldOpen
  refine Comes.bind (Q := fun wanted t => wanted = s.wk.wantLink ∧ t = s) ⟨rfl, rfl⟩
    fun wanted t ht => ?_
  obtain ⟨rfl, rfl⟩ := ht
  split_ifs with hwant
  · exact fun _ => Or.inl hwant
  unfold Comes
  rw [wp_bind, wp_atAccess, wp_ite]
  refine ⟨fun hq _ => Or.inr (Or.inl (by simpa using hq)), fun _ => ?_⟩
  rw [wp_bind, wp_self, wp_pure]
  intro hmon
  unfold Wanted
  cases hm : cfg.monitor with
  | continuous => exact Or.inr (Or.inr (Or.inl rfl))
  | dutyCycled =>
      rw [hm] at hmon
      exact Or.inr (Or.inr (Or.inr ⟨rfl, of_decide_eq_true hmon⟩))
  | off =>
      rw [hm] at hmon
      cases hmon

theorem comes_courseClosed (hclock : Steady W) (cfg : Config) (now until_ : Time) (s : St W) :
    Comes (courseClosed cfg now until_) (fun c t => Unarmed s t ∧ s.now ≤ t.now ∧
      (c = .openPort until_ ∧ Wanted cfg now s ∨ c = .idle ∧ t.wk.state = s.wk.state)) s := by
  unfold courseClosed
  refine Comes.bind (((shouldOpen_tells hclock cfg now s).and (shouldOpen_wanted cfg now s)).mono
    (fun _ _ h => h) (fun _ _ _ => trivial) fun _ _ => trivial) fun wanted t ht => ?_
  obtain ⟨⟨hwk, hle, -⟩, hwanted⟩ := ht
  have hst : Unarmed s t := congrArg Worker.backoffUntil hwk
  split_ifs with hw
  · refine ⟨?_, hle.trans (hclock.others t.world), Or.inl ⟨rfl, hwanted hw⟩⟩
    exact (Worker.setState_backoffUntil _ _ _).trans hst
  · exact ⟨hst, hle, Or.inr ⟨rfl, congrArg Worker.state hwk⟩⟩

theorem comes_course (hclock : Steady W) (cfg : Config) (s : St W) :
    Comes (course cfg) (Leads cfg s) s := by
  unfold Comes course
  rw [wp_bind, wp_clock, wp_bind, wp_atAccess, wp_bind, wp_self, wp_ite]
  refine ⟨fun _ => trivial, fun hover => ?_⟩
  show wp _ (Leads cfg s) _ _ (looked s)
  have hover : (looked s).shared.leaseUntil ≤ s.now := not_lt.1 hover
  have hlater : s.now ≤ (looked s).now := (hclock.clock _).trans (hclock.others _)
  -- CLOSED, from the start or after a lease
  have hclosed : ∀ t : St W, Unarmed s t → t.world = (looked s).world →
      (s.wk.state = .leased ∨ t = looked s ∧ s.wk.state ∈ .closed :: unlucky) →
      Comes (courseClosed cfg s.now (looked s).shared.leaseUntil) (Leads cfg s) t := by
    intro t hst hworld hhow
    have hnow : s.now ≤ t.now := by
      unfold St.now at hlater ⊢
      rwa [hworld]
    refine (comes_courseClosed hclock cfg _ _ t).mono fun c u hu => ?_
    obtain ⟨htu, hle, ⟨rfl, hwant⟩ | ⟨rfl, hsame⟩⟩ := hu
    · refine ⟨IsTrans.trans _ _ _ hst htu, hnow.trans hle, ?_⟩
      rcases hhow with hlease | ⟨rfl, hstate⟩
      · exact Or.inr (Or.inl ⟨hlease, hover⟩)
      · rcases List.mem_cons.1 hstate with hc | hc
        · exact Or.inl hc
        · exact Or.inr (Or.inr ⟨hc, hwant⟩)
    · refine ⟨IsTrans.trans _ _ _ hst htu, ?_⟩
      rcases hhow with hlease | ⟨rfl, -⟩
      · exact Or.inr ⟨hlease, hover⟩
      · exact Or.inl hsame
  rw [wp_bind, wp_onlyIf]
  refine ⟨fun hlease => ?_, fun _ => ?_⟩
  · rw [wp_setState, wp_bind, wp_self]
    simp only [id, Worker.setState_state]
    exact hclosed _ (Worker.setState_backoffUntil _ _ _) rfl (Or.inl (of_decide_eq_true hlease))
  · rw [wp_bind, wp_self]
    have hst : (looked s).wk.state = s.wk.state := rfl
    cases hcase : s.wk.state with
    | closed | portBusy | portLost | noDevices =>
        simp only [id, hst, hcase]
        exact hclosed _ rfl rfl (Or.inr ⟨rfl, by rw [hcase]; decide⟩)
    | opening | discovering | connecting | connected | draining | releasing | backoff | leased
    | shutdown =>
        simp only [id, hst, hcase]
        exact ⟨rfl, rfl, by rw [hcase]; decide⟩

/-! ## Passes that do not come past the deadline -/

/-- The states that `_step` leaves without a look at the deadline. -/
def heedless : List LinkState := [.closed, .connected, .draining]

/-- In these the deadline is over. -/
def Cooled (s : St W) : Prop := s.wk.state ∈ heedless → s.wk.backoffUntil ≤ s.now

/-- Where the pass from `s` comes to its verdict. -/
def atVerdict (cfg : Config) (s : St W) : St W := (opening cfg s).2

/-- The clock does not run backwards from the head to the verdict, and from there to the next
head. -/
def Onward (cfg : Config) (s t : St W) : Prop :=
  s.now ≤ (atVerdict cfg s).now ∧ (atVerdict cfg s).now ≤ t.now

/-- The pass from `s` does not come past a deadline that is ahead. -/
structure Patient (cfg : Config) (s : St W) : Prop where
  /-- No lease ends before the deadline. -/
  lease : (s.wk.state = .leased ∧ (atVerdict cfg s).wk.state = .closed ∨
      (atVerdict cfg s).wk.state = .leased ∧
        (looked (atVerdict cfg s)).shared.leaseUntil ≤ (atVerdict cfg s).now) →
    (atVerdict cfg s).wk.backoffUntil ≤ (atVerdict cfg s).now
  /-- Nothing wants the link in PORT_BUSY, PORT_LOST or NO_DEVICES before the deadline. -/
  unwanted : (atVerdict cfg s).wk.state ∈ unlucky →
    Wanted cfg (atVerdict cfg s).now (looked (atVerdict cfg s)) →
    (atVerdict cfg s).wk.backoffUntil ≤ (atVerdict cfg s).now
  /-- A duty cycle does not go on to CLOSED when its alarm poll has lost the link. -/
  cycle : (atVerdict cfg s).wk.state = .connected →
    KeepsOut cfg (atVerdict cfg s).now (looked (atVerdict cfg s))

/-- From a verdict with the deadline over to a head, or to a state that heeds the deadline. -/
def Cools (v t : St W) : Prop :=
  t.wk.state ∉ heedless ∨ Unarmed v t ∧ v.wk.backoffUntil ≤ v.now

omit [Clients W] in
theorem Kept.cools {v u t : St W} (h : Kept u t) (hvu : Unarmed v u)
    (hv : v.wk.backoffUntil ≤ v.now) : Cools v t := by
  rcases h with h | h
  · refine Or.inl ?_
    revert h
    cases t.wk.state <;> decide
  · exact Or.inr ⟨IsTrans.trans _ _ _ hvu h, hv⟩

omit [Clients W] in
/-- The catch-all handler ends in BACKOFF. -/
theorem comes_guard {c : WorkerProg W Unit} {v s : St W} (hc : Comes c (fun _ t => Cools v t) s) :
    Comes (handle c fun _ => some lastResort) (fun _ t => Cools v t) s := by
  unfold Comes
  rw [wp_handle]
  refine wp.mono hc (fun _ _ h => h) (fun e t _ => ?_) fun _ h => h
  refine (comes_lastResort t).mono fun _ u hu => Or.inl ?_
  rw [hu]
  decide

theorem comes_handOver (cfg : Config) (v s : St W) :
    Comes (follow cfg .handOver) (fun _ t => Cools v t) s := by
  refine Comes.bind (Q := fun _ _ => True) trivial fun state t _ => ?_
  refine Comes.bind (comes_any fun _ _ => trivial) fun _ u (_ : True) => ?_
  refine Or.inl ?_
  show (u.wk.setState .leased "").state ∉ heedless
  rw [Worker.setState_state]
  decide

/-- The states that are neither closed nor failed nor leased. -/
theorem comes_keepOn {cfg : Config} {now : Time} {v u : St W} (hvu : Same v u)
    (hnow : now = v.now) (hst : v.wk.state ∉ .closed :: unlucky)
    (hv : v.wk.state ∈ heedless → v.wk.backoffUntil ≤ v.now)
    (hk : v.wk.state = .connected → KeepsOut cfg now u) :
    Comes (follow cfg (.keepOn now)) (fun _ t => Cools v t) u := by
  show Comes (stepState cfg now) _ u
  unfold Comes stepState
  rw [wp_bind, wp_self]
  have hself : v.wk.state ∉ heedless → Cools v u := fun h => Or.inl (by rwa [hvu.1])
  cases hcase : u.wk.state with
  | closed | portBusy | portLost | noDevices =>
      rw [← hvu.1, hcase] at hst
      exact absurd (by decide) hst
  | backoff =>
      simp only [id, hcase, wp_onlyIf]
      refine ⟨fun hover => ?_, fun _ => hself ?_⟩
      · refine Or.inr ⟨(Worker.setState_backoffUntil _ _ _).trans hvu.2, ?_⟩
        rw [← hvu.2, ← hnow]
        exact of_decide_eq_true hover
      · rw [← hvu.1, hcase]
        decide
  | draining =>
      simp only [id, hcase]
      have hheed : v.wk.state ∈ heedless := by rw [← hvu.1, hcase]; decide
      exact (comes_drain cfg u).mono fun _ t ht => ht.cools hvu.2 (hv hheed)
  | connected =>
      simp only [id, hcase]
      have hheed : v.wk.state ∈ heedless := by rw [← hvu.1, hcase]; decide
      exact (comes_connectedHousekeeping cfg now (hk (hvu.1.symm.trans hcase))).mono
        fun _ t ht => ht.cools hvu.2 (hv hheed)
  | opening | discovering | connecting | releasing | leased | shutdown =>
      simp only [id, hcase, wp_pure]
      refine hself ?_
      rw [← hvu.1, hcase]
      decide

/-- What is known at the verdict. -/
theorem verdict_cooled {cfg : Config} {s v : St W} {x : Verdict} (hs : Cooled s)
    (hon : s.now ≤ (atVerdict cfg s).now) (hok : Patient cfg s) (hv : opening cfg s = (.ret x, v)) :
    v.wk.state ∈ heedless → v.wk.backoffUntil ≤ v.now := by
  have hend : atVerdict cfg s = v := congrArg Prod.snd hv
  obtain ⟨⟨hst, hstate⟩, -⟩ := (wp_iff.1 (comes_opening cfg s)).1 _ _ hv
  intro hheed
  rcases hstate with hstate | hlease
  · rw [hend] at hon
    rw [hstate] at hheed
    exact (hst.le.trans (hs hheed)).trans hon
  · have hover := hok.lease
    rw [hend] at hover
    exact hover (Or.inl hlease)

/-- **A port is opened after the deadline.** -/
theorem opens_cooled (hclock : Steady W) {cfg : Config} {s u : St W} {until_ : Time}
    (hs : Cooled s) (hon : s.now ≤ (atVerdict cfg s).now) (hok : Patient cfg s)
    (hd : Decides cfg s (.openPort until_) u) : u.wk.backoffUntil ≤ u.now := by
  obtain ⟨-, v, hv, hc⟩ := hd
  have hend : atVerdict cfg s = v := congrArg Prod.snd hv
  have hcool := verdict_cooled hs hon hok hv
  obtain ⟨hst, hle, hwhy⟩ := (wp_iff.1 (comes_course hclock cfg v)).1 _ _ hc
  obtain ⟨hlease, hunwanted, -⟩ := hok
  rw [hend] at hlease hunwanted
  have hv : v.wk.backoffUntil ≤ v.now := by
    rcases hwhy with hcl | hle | ⟨hun, hwant⟩
    · exact hcool (by rw [hcl]; decide)
    · exact hlease (Or.inr hle)
    · exact hunwanted hun hwant
  exact (hst.le.trans hv).trans hle

/-- **A pass keeps the deadline in view.** -/
theorem pass_cooled (hclock : Steady W) {cfg : Config} {s t : St W} (hs : Cooled s)
    (hp : Pass cfg s t) (hon : Onward cfg s t) (hok : Patient cfg s) : Cooled t := by
  obtain ⟨hon, hon'⟩ := hon
  have hcools : Cools (atVerdict cfg s) t := by
    rcases hv : opening cfg s with ⟨x | e | _, v⟩
    · have hend : atVerdict cfg s = v := congrArg Prod.snd hv
      have hcool := verdict_cooled hs hon hok hv
      obtain ⟨-, hexec⟩ := (wp_iff.1 (comes_opening cfg s)).1 _ _ hv
      obtain ⟨hlease, hunwanted, hcycle⟩ := hok
      rw [hend] at hlease hunwanted hcycle ⊢
      have hself : ∀ u, Same v u → Cools v u := fun u hu => by
        by_cases hheed : v.wk.state ∈ heedless
        · exact Or.inr ⟨hu.2, hcool hheed⟩
        · exact Or.inl (by rwa [hu.1])
      have hfinish : Comes (finish cfg x) (fun _ t => Cools v t) v := by
        cases x with
        | execute cmd =>
            have hover : v.wk.backoffUntil ≤ v.now := hcool (by rw [hexec cmd rfl]; decide)
            refine (comes_execute cfg cmd v).bind fun _ u hu => ?_
            exact (comes_of_moves (same_queue.setHead none)).mono fun _ y hy =>
              (hu.same hy).cools (Std.Refl.refl v) hover
        | finished => exact (comes_of_moves (same_queue.setHead none)).mono fun _ u hu => hself u hu
        | goOn =>
            show Comes (step cfg) _ v
            rw [step_eq]
            refine (comes_course hclock cfg v).bind fun c u hu => ?_
            cases c with
            | handOver => exact comes_handOver cfg v u
            | openPort until_ =>
                obtain ⟨hvu, -, hwhy⟩ := hu
                refine (comes_openPort cfg until_ u).mono fun _ y hy => hy.cools hvu ?_
                rcases hwhy with hcl | hle | ⟨hun, hwant⟩
                · exact hcool (by rw [hcl]; decide)
                · exact hlease (Or.inr hle)
                · exact hunwanted hun hwant
            | idle =>
                obtain ⟨hvu, hsame | hover⟩ := hu
                · exact hself u ⟨hsame, hvu⟩
                · exact Or.inr ⟨hvu, hlease (Or.inr hover)⟩
            | keepOn now =>
                obtain ⟨rfl, rfl, hst⟩ := hu
                exact comes_keepOn ⟨rfl, rfl⟩ rfl hst hcool hcycle
      exact (wp_iff.1 (comes_guard hfinish)).1 _ _ (pass_of_opening hp hv)
    · have ht := (pass_eq hp).2
      simp only [handle, bind_run, hv] at ht
      refine Or.inl ?_
      rw [(wp_iff.1 (comes_lastResort v)).1 _ _ ht]
      decide
    · have ht := (pass_eq hp).2
      simp only [handle, bind_run, hv] at ht
      cases ht
  intro hheed
  rcases hcools with hno | ⟨hst, hover⟩
  · exact absurd hheed hno
  · exact (hst.le.trans hover).trans hon'

/-- **When the backoff is honoured.**  In a run whose passes do not come past the deadline, no port
is opened before it.  The invariant is `Cooled`: in the states that go on without a look at the
deadline, it is over. -/
theorem backoff_honoured (hclock : Steady W) {cfg : Config} {w : W} (hw : 0 ≤ (Line.monotonic w).1)
    {s u : St W} {until_ : Time}
    (h : HeadBy cfg (fun s t => Onward cfg s t ∧ Patient cfg s) w s)
    (hon : s.now ≤ (atVerdict cfg s).now) (hok : Patient cfg s)
    (hd : Decides cfg s (.openPort until_) u) : u.wk.backoffUntil ≤ u.now := by
  have hcooled : ∀ s, HeadBy cfg (fun s t => Onward cfg s t ∧ Patient cfg s) w s → Cooled s := by
    intro s h
    induction h with
    | refl => exact fun _ => hw
    | tail _ hp ih => exact pass_cooled hclock ih hp.1 hp.2.1 hp.2.2
  exact opens_cooled hclock (hcooled s h) hon hok hd

/-! ## A link that is lost, and a bus without a device -/

instance (cfg : Config) (now : Time) (s : St W) : Decidable (Wanted cfg now s) :=
  inferInstanceAs (Decidable (_ ∨ _))

instance (cfg : Config) (now : Time) (s : St W) : Decidable (KeepsOut cfg now s) :=
  inferInstanceAs (Decidable (_ → _))

instance (cfg : Config) (s t : St W) : Decidable (Onward cfg s t) :=
  inferInstanceAs (Decidable (_ ∧ _))

instance (cfg : Config) (s : St W) : Decidable (Patient cfg s) :=
  decidable_of_iff (_ ∧ _ ∧ _)
    ⟨fun ⟨h₁, h₂, h₃⟩ => ⟨h₁, h₂, h₃⟩, fun ⟨h₁, h₂, h₃⟩ => ⟨h₁, h₂, h₃⟩⟩

/-- A device that meets the first request of the entry actions with a DM: after the backoff
the port is opened again. -/
def backoffOver : St (Bench ClientCall) := runPasses attentive 9 (St.init (dropsAt 0))

theorem backoff_honoured_lost : ∃ u, Decides attentive backoffOver (.openPort 0) u ∧
    0 < u.wk.backoffUntil ∧ u.wk.backoffUntil ≤ u.now := by
  have hhead : HeadBy attentive (fun s t => Onward attentive s t ∧ Patient attentive s)
      (dropsAt 0) backoffOver := headBy_of_passesMeet 9 .refl (by decide +kernel)
  have hd := @decides_of _ _ _ attentive backoffOver (.openPort 0)
    (by decide +kernel) (by decide +kernel) (by decide +kernel)
  exact ⟨_, hd, by decide +kernel, backoff_honoured steady_bench (by decide) hhead
    (by decide +kernel) (by decide +kernel) hd⟩

/-- A bus on which nobody answers. -/
def deaf : Bench ClientCall := { plan := {} }

/-- **Opened before the deadline.**  Nobody answers on the bus, and the continuous monitor
wants the link again at once. -/
theorem backoff_ignored : ∃ s until_ u, Head attentive deaf s ∧
    Decides attentive s (.openPort until_) u ∧ u.now < u.wk.backoffUntil := by
  refine ⟨runPasses attentive 1 (St.init deaf), 0, _, reaches_runPasses attentive 1 _,
    decides_of (by decide +kernel) (by decide +kernel) (by decide +kernel), by decide +kernel⟩

end OpenAisg.Session
