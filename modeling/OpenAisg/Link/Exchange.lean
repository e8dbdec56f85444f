import OpenAisg.Link.Commands

/-!
# `AisgLink.exchange`: one layer-7 request and its response

NRM stop-and-wait with window 1.  The command I-frame is written once, then the
method polls with RR frames until an I-frame arrives that its router accepts.

* `Call` — the arguments; `Flight` — the local variables.
* `onFrame` — what one inbound frame does (the body of the `for`), with the
  U-frame and I-frame paths as `onUFrame` and `onIFrame`.
* `passEnd` — what follows a batch: a timed resend, the deadline, or a poll.
* `exchange` — the whole method; `fuel` bounds the passes of its `while True`.

Proofs about a call come in three kinds, and each has its rule here.

* `wp_exchange` — an invariant `I` between passes and `J` within one; the proof
  shows what one frame and the end of one pass do.  `wp_exchange_last` says in
  addition where the call stands when the bound runs out.
* `Exchanging` — a relation that the primitives of a call stay in;
  `moves_exchange` is then the frame condition of the whole call.
* `Polling` — the same for relations that a reset link leaves:
  `Polling.wp_exchange` names the one step that does.
-/

namespace OpenAisg.Link

open Hdlc Prog

/-- A router's verdict on an inbound I-frame: it is the response, or an indication for somebody
else, or nothing anybody waits for. -/
inductive Verdict where
  | accept
  | indication
  | unexpected
  deriving DecidableEq, Repr

/-- `accept_all`: the first I-frame wins. -/
def acceptAll (_payload : Bytes) : Verdict := .accept

/-- The arguments of `exchange`. -/
structure Call (υ : Type) where
  addr : Byte
  message : Bytes
  timeout : Time := ms 3000
  pollInterval : Time := ms 50
  router : Bytes → Verdict := acceptAll
  onPoll : ℕ → Bool → υ → υ := fun _ _ u => u
  onIndication : Bytes → υ → υ := fun _ u => u

/-- The local variables of `exchange` that change while it runs.  `retxLeft` is 3 at first, and
`missing` says that the peer was heard to ask for the command. -/
structure Flight where
  acked : Bool := false
  /-- The peer's N(R) still asks for the frame we sent. -/
  missing : Bool := false
  polls : ℕ := 0
  deadline : Time
  retxAt : Time
  retxLeft : ℕ := 3
  deriving DecidableEq, Repr

variable {W υ : Type} [Line W]

/-- `_rr`. -/
def rrFrame (addr : Byte) (vr : Seq) (poll : Bool := true) : Frame := ⟨addr, rrCtrl vr poll, []⟩

/-- The command I-frame, built once from the V(S) and V(R) at the start. -/
def commandFrame (q : Call υ) (p : PeerState) : Frame := ⟨q.addr, iCtrl p.vs p.vr, q.message⟩

/-- `_apply_ack`: advance V(S) from the peer's N(R). -/
def applyAck (addr ctrl : Byte) (sentNs : Seq) : LinkProg W υ Bool :=
  if nrOf ctrl = sentNs + 1 then do
    setPeer addr fun p => { p with vs := sentNs + 1 }
    pure true
  else pure false

/-- `acked or self._apply_ack(…)`. -/
def ackedOr (acked : Bool) (addr ctrl : Byte) (sentNs : Seq) : LinkProg W υ Bool :=
  if acked then pure true else applyAck addr ctrl sentNs

/-- Why a link reset happened. -/
def resetWhy (f : Frame) : String :=
  if f.ctrl &&& ~~~pf = ctrlDm then "DM" else "FRMR " ++ hexSp f.payload

/-- A U-frame: DM and FRMR end the link, any other is ignored. -/
def onUFrame (q : Call υ) (x : Flight) (f : Rx) : LinkProg W υ (Step Bytes Flight) :=
  if isReset f.ctrl then do
    setPeer q.addr fun p => { p.reset with connected := false }
    bump fun st => { st with linkResets := st.linkResets + 1 }
    raise (.linkReset q.addr (resetWhy f.toFrame))
  else pure (.next x)

/-- An I-frame: a wrong N(S) is re-acknowledged and dropped, the expected one
moves V(R) and goes to the router. -/
def onIFrame (q : Call υ) (sentNs : Seq) (x : Flight) (f : Rx) :
    LinkProg W υ (Step Bytes Flight) := do
  let p ← peer q.addr
  if nsOf f.ctrl ≠ p.vr then do
    bump fun st => { st with dupI := st.dupI + 1 }
    write (rrFrame q.addr p.vr)
    pure (.next x)
  else do
    logEvent (.taken (.exchange q.message) p.vr f)
    setPeer q.addr fun p => { p with vr := nsOf f.ctrl + 1 }
    match q.router f.payload with
    | .accept => do
        write (rrFrame q.addr (nsOf f.ctrl + 1) false)
        onlyIf (!x.acked) (setPeer q.addr fun p => { p with vs := sentNs + 1 })
        logEvent (.accepted q.message f)
        pure (.done f.payload)
    | .indication => do
        write (rrFrame q.addr (nsOf f.ctrl + 1))
        callback (q.onIndication f.payload)
        let now ← monotonic
        pure (.next { x with
          deadline := min (x.deadline + q.pollInterval * 4) (now + q.timeout) })
    | .unexpected => do
        write (rrFrame q.addr (nsOf f.ctrl + 1))
        bump fun st => { st with unexpected := st.unexpected + 1 }
        pure (.next x)

/-- An I- or S-frame, once its N(R) has been applied. -/
def onSequenced (q : Call υ) (frame : Frame) (sentNs : Seq) (x : Flight) (f : Rx) :
    LinkProg W υ (Step Bytes Flight) :=
  match kind f.ctrl with
  | .rr => pure (.next x)
  | .rnr => do
      bump fun st => { st with rnr := st.rnr + 1 }
      pure (.next x)
  | .rej | .srej =>
      -- only ever resend a frame the device never acknowledged
      if !x.acked ∧ x.retxLeft ≠ 0 then do
        bump fun st => { st with retx := st.retx + 1 }
        write frame
        pure (.next { x with retxLeft := x.retxLeft - 1 })
      else pure (.next x)
  | _ => onIFrame q sentNs x f

/-- One frame of a batch. -/
def onFrame (q : Call υ) (frame : Frame) (sentNs : Seq) (x : Flight) (f : Rx) :
    LinkProg W υ (Step Bytes Flight) :=
  if f.addr ≠ q.addr then do
    bump fun st => { st with foreign := st.foreign + 1 }
    pure (.next x)
  else do
    logEvent (.rx (.exchange q.message) f)
    if kind f.ctrl = .uFrame then onUFrame q x f
    else do
      let acked ← ackedOr x.acked q.addr f.ctrl sentNs
      onSequenced q frame sentNs
        { x with missing := x.missing || decide (nrOf f.ctrl = sentNs), acked := acked } f

/-- The end of a pass: resend a frame the peer still asks for, give up, or poll. -/
def passEnd (q : Call υ) (frame : Frame) (sentNs : Seq) (x : Flight) :
    LinkProg W υ (Step Bytes Flight) := do
  let now ← monotonic
  if !x.acked ∧ x.missing ∧ x.retxAt < now ∧ x.retxLeft ≠ 0 then do
    bump fun st => { st with retx := st.retx + 1 }
    write frame
    pure (.next { x with retxLeft := x.retxLeft - 1, retxAt := now + ms 1000, missing := false })
  else if x.deadline < now then raise (.aisgTimeout q.addr sentNs x.acked x.polls)
  else do
    bump fun st => { st with polls := st.polls + 1 }
    callback (q.onPoll (x.polls + 1) x.acked)
    sleep q.pollInterval
    let p ← peer q.addr
    write (rrFrame q.addr p.vr)
    pure (.next { x with polls := x.polls + 1 })

/-- One pass of the `while True`. -/
def pass (q : Call υ) (frame : Frame) (sentNs : Seq) (x : Flight) :
    LinkProg W υ (Step Bytes Flight) := do
  let frames ← readFrames q.pollInterval
  match ← scan (onFrame q frame sentNs) x frames with
  | .done payload => pure (.done payload)
  | .next x' => passEnd q frame sentNs x'

/-- `exchange`.  A call whose `fuel` is used up has no outcome yet; a bound that no pass reaches
makes no difference. -/
def exchange (fuel : ℕ) (q : Call υ) : LinkProg W υ Bytes := do
  let p ← peer q.addr
  write (commandFrame q p)
  let now ← monotonic
  loop (pass q (commandFrame q p) p.vs) fuel
    { deadline := now + q.timeout, retxAt := now + ms 1000 }

/-- A call is its command, a look at the clock, and the loop. -/
theorem exchange_run (n : ℕ) (q : Call υ) (s : LinkSt W υ) :
    exchange n q s =
      match write (commandFrame q (s.link.peers q.addr)) s with
      | (.ret _, t) =>
          loop (pass q (commandFrame q (s.link.peers q.addr)) (s.link.peers q.addr).vs) n
            { deadline := (Line.monotonic t.world).1 + q.timeout
              retxAt := (Line.monotonic t.world).1 + ms 1000 }
            { t with world := (Line.monotonic t.world).2 }
      | (.raise e, t) => (.raise e, t)
      | (.stall, t) => (.stall, t) := by
  rw [exchange, bind_run, peer, read_run]
  dsimp only
  rw [bind_run]
  rcases write (commandFrame q (s.link.peers q.addr)) s with ⟨o, t⟩
  cases o <;> rfl

/-- **The rule of `exchange`.**  `I` holds between passes, `J fs` while the frames `fs` of a batch
are still to be read; `D`, `E` and `S` hold however the call ends.  Where the bound on its passes
runs out, one more would go on from the same state. -/
theorem wp_exchange_last {fuel : ℕ} {q : Call υ} {s : LinkSt W υ}
    (I : Flight → LinkSt W υ → Prop) (J : List Rx → Flight → LinkSt W υ → Prop)
    {D : Bytes → LinkSt W υ → Prop} {E : Exn → LinkSt W υ → Prop} {S : LinkSt W υ → Prop}
    (start : wp (write (commandFrame q (s.link.peers q.addr)))
      (fun _ t => wp monotonic (fun now u =>
        I { deadline := now + q.timeout, retxAt := now + ms 1000 } u) E S t) E S s)
    (batch : ∀ x t, I x t → wp (readFrames q.pollInterval) (fun fs u => J fs x u) E S t)
    (frame : ∀ f fs x t, J (f :: fs) x t →
      wp (onFrame q (commandFrame q (s.link.peers q.addr)) (s.link.peers q.addr).vs x f)
        (Step.post D (J fs)) E S t)
    (finish : ∀ x t, J [] x t →
      wp (passEnd q (commandFrame q (s.link.peers q.addr)) (s.link.peers q.addr).vs x)
        (Step.post D I) E S t) :
    wp (exchange fuel q) D E (fun t => S t ∨ ∃ x, I x t ∧ exchange (fuel + 1) q s =
      loop (pass q (commandFrame q (s.link.peers q.addr)) (s.link.peers q.addr).vs) 1 x t) s := by
  have hpass : ∀ x t, I x t →
      wp (pass q (commandFrame q (s.link.peers q.addr)) (s.link.peers q.addr).vs x)
        (Step.post D I) E S t := by
    intro x t hx
    unfold pass
    rw [wp_bind]
    refine (batch x t hx).mono (fun fs v hv => ?_) (fun _ _ h => h) fun _ h => h
    rw [wp_bind]
    refine (wp_scan J frame fs x v hv).mono (fun r w hr => ?_) (fun _ _ h => h) fun _ h => h
    cases r with
    | done b => exact hr
    | next x' => exact finish x' w hr
  -- up to the loop, a call with one pass more is the same run
  unfold wp at start ⊢
  rw [exchange_run, exchange_run]
  rcases hw : write (commandFrame q (s.link.peers q.addr)) s with ⟨o, t⟩
  rw [hw] at start
  cases o with
  | ret u => exact wp_loop_last I hpass fuel _ _ start
  | raise e => exact start
  | stall => exact Or.inl start

/-- The same for an invariant that is all there is to know where the bound ran out. -/
theorem wp_exchange {fuel : ℕ} {q : Call υ} {s : LinkSt W υ} (I : Flight → LinkSt W υ → Prop)
    (J : List Rx → Flight → LinkSt W υ → Prop) {D : Bytes → LinkSt W υ → Prop}
    {E : Exn → LinkSt W υ → Prop} {S : LinkSt W υ → Prop}
    (start : wp (write (commandFrame q (s.link.peers q.addr)))
      (fun _ t => wp monotonic (fun now u =>
        I { deadline := now + q.timeout, retxAt := now + ms 1000 } u) E S t) E S s)
    (stalled : ∀ x t, I x t → S t)
    (batch : ∀ x t, I x t → wp (readFrames q.pollInterval) (fun fs u => J fs x u) E S t)
    (frame : ∀ f fs x t, J (f :: fs) x t →
      wp (onFrame q (commandFrame q (s.link.peers q.addr)) (s.link.peers q.addr).vs x f)
        (Step.post D (J fs)) E S t)
    (finish : ∀ x t, J [] x t →
      wp (passEnd q (commandFrame q (s.link.peers q.addr)) (s.link.peers q.addr).vs x)
        (Step.post D I) E S t) :
    wp (exchange fuel q) D E S s := by
  refine (wp_exchange_last I J start batch frame finish).mono (fun _ _ h => h) (fun _ _ h => h)
    fun t ht => ?_
  rcases ht with ht | ⟨x, hx, -⟩
  · exact ht
  · exact stalled x t hx

/-! ## What a call can change -/

section Moves

variable {R : LinkSt W υ → LinkSt W υ → Prop} [IsPreorder (LinkSt W υ) R]

/-- What `exchange` is made of, but for the U-frame path: the wire, the sequence numbers and
counters, the poll callback, and the I-frame path as one step.  A relation that has these has every
call that no DM or FRMR ends. -/
structure Polling (q : Call υ) (R : LinkSt W υ → LinkSt W υ → Prop) : Prop where
  world : ∀ s w, R s { s with world := w }
  wire : ∀ s e, WireEvent.quiet e = true → e.Carries q.message → R s { s with log := s.log ++ [e] }
  link : ∀ s l, AisgLink.Alike s.link l → R s { s with link := l }
  poll : ∀ n acked s, R s { s with user := q.onPoll n acked s.user }
  iFrame : ∀ ns x f, Moves R (onIFrame q ns x f)

/-- All of it: also the path on which a DM or FRMR ends the call. -/
structure Exchanging (q : Call υ) (R : LinkSt W υ → LinkSt W υ → Prop) : Prop
    extends Polling q R where
  uFrame : ∀ x f, Moves R (do logEvent (.rx (.exchange q.message) f); onUFrame q x f)

variable {q : Call υ}

/-- The I-frame path, where its parts can be told apart. -/
theorem moves_onIFrame (world : ∀ s w, R s { s with world := w })
    (log : ∀ s e, WireEvent.calm e = true → e.Carries q.message → R s { s with log := s.log ++ [e] })
    (link : ∀ s l, AisgLink.Alike s.link l → R s { s with link := l })
    (indication : ∀ pl s, R s { s with user := q.onIndication pl s.user })
    (ns : Seq) (x : Flight) (f : Rx) : Moves R (onIFrame q ns x f) := by
  have hw : ∀ vr p, Moves R (write (rrFrame q.addr vr p) : LinkProg W υ Unit) := fun _ _ =>
    moves_write world fun s e he hs =>
      log s e (WireEvent.calm_of_quiet he) (WireEvent.carries_of_sent hs (Or.inl rfl))
  unfold onIFrame
  refine moves_bind (moves_read _) fun p => moves_ite (fun _ => ?_) fun _ => ?_
  · exact moves_bind (moves_bump link _) fun _ => moves_bind (hw _ _) fun _ => moves_pure _
  · refine moves_bind (moves_logEvent fun s => log s _ rfl (WireEvent.carries_of_none rfl)) fun _ =>
      moves_bind (moves_setPeer link _ _ fun _ => rfl) fun _ => ?_
    cases q.router f.payload with
    | accept =>
        refine moves_bind (hw _ _) fun _ => moves_bind (moves_onlyIf fun _ =>
          moves_setPeer link _ _ fun _ => rfl) fun _ => ?_
        exact moves_bind (moves_logEvent fun s => log s _ rfl (WireEvent.carries_of_none rfl))
          fun _ => moves_pure _
    | indication =>
        refine moves_bind (hw _ _) fun _ => moves_bind (moves_callback (indication _)) fun _ => ?_
        exact moves_bind (moves_monotonic world) fun _ => moves_pure _
    | unexpected =>
        exact moves_bind (hw _ _) fun _ => moves_bind (moves_bump link _) fun _ => moves_pure _

namespace Polling

variable (h : Polling q R)

include h

/-- The command, or an RR. -/
theorem write {f : Frame} (hf : f.payload = [] ∨ f.payload = q.message) :
    Moves R (write f : LinkProg W υ Unit) :=
  moves_write h.world fun s e he hs => h.wire s e he (WireEvent.carries_of_sent hs hf)

/-- A read. -/
theorem readFrames (b : Time) : Moves R (readFrames b : LinkProg W υ (List Rx)) :=
  moves_readFrames h.world (fun s e he hs => h.wire s e he (WireEvent.carries_of_none hs)) b

/-- An I- or S-frame moves in the relation when its parts do. -/
theorem onSequenced {frame : Frame} (hf : frame.payload = q.message) (ns : Seq) (x : Flight)
    (f : Rx) : Moves R (onSequenced q frame ns x f) := by
  have hb : ∀ g, Moves R (bump g : LinkProg W υ Unit) := moves_bump h.link
  have hrej : Moves R (if !x.acked ∧ x.retxLeft ≠ 0 then do
        bump fun st => { st with retx := st.retx + 1 }
        Link.write frame
        pure (.next { x with retxLeft := x.retxLeft - 1 })
      else pure (.next x) : LinkProg W υ (Step Bytes Flight)) :=
    moves_ite (fun _ => moves_bind (hb _) fun _ =>
      moves_bind (h.write (Or.inr hf)) fun _ => moves_pure _) fun _ => moves_pure _
  unfold Link.onSequenced
  cases kind f.ctrl with
  | rr => exact moves_pure _
  | rnr => exact moves_bind (hb _) fun _ => moves_pure _
  | rej => exact hrej
  | srej => exact hrej
  | iFrame => exact h.iFrame _ _ _
  | uFrame => exact h.iFrame _ _ _

/-- The acknowledgement moves V(S), or nothing. -/
theorem ackedOr (acked : Bool) (addr ctrl : Byte) (ns : Seq) :
    Moves R (ackedOr acked addr ctrl ns : LinkProg W υ Bool) :=
  moves_ite (fun _ => moves_pure _) fun _ => moves_ite
    (fun _ => moves_bind (moves_setPeer h.link _ _ fun _ => rfl) fun _ => moves_pure _)
    fun _ => moves_pure _

/-- The end of a pass moves in the relation, whether it resends, gives up or polls. -/
theorem passEnd {frame : Frame} (hf : frame.payload = q.message) (ns : Seq) (x : Flight) :
    Moves R (passEnd q frame ns x) := by
  refine moves_bind (moves_monotonic h.world) fun now => moves_ite (fun _ => ?_) fun _ =>
    moves_ite (fun _ => moves_raise _) fun _ => ?_
  · exact moves_bind (moves_bump h.link _) fun _ => moves_bind (h.write (Or.inr hf)) fun _ =>
      moves_pure _
  · refine moves_bind (moves_bump h.link _) fun _ =>
      moves_bind (moves_callback (h.poll _ _)) fun _ => moves_bind (moves_sleep h.world _)
      fun _ => moves_bind (moves_read _) fun p => ?_
    exact moves_bind (h.write (Or.inl rfl)) fun _ => moves_pure _

end Polling

/-- The state in which a DM or FRMR ends the call. -/
def afterReset (q : Call υ) (f : Rx) (s : LinkSt W υ) : LinkSt W υ :=
  { s with
    log := s.log ++ [.rx (.exchange q.message) f]
    link := { s.link with
      peers := fun a =>
        if a = q.addr then { (s.link.peers a).reset with connected := false } else s.link.peers a
      stats := { s.link.stats with linkResets := s.link.stats.linkResets + 1 } } }

/-- However a call ends, it has polled only, or a DM or FRMR ended it. -/
theorem Polling.wp_exchange (h : Polling q R) (fuel : ℕ) (s : LinkSt W υ) :
    wp (exchange fuel q) (fun _ t => R s t)
      (fun e t => R s t ∨ ∃ u f, R s u ∧ isReset f.ctrl = true ∧ e.isReset = true ∧
        t = afterReset q f u) (R s) s := by
  have hstep : ∀ {α : Type} {c : LinkProg W υ α} {t : LinkSt W υ}, R s t → Moves R c →
      wp c (fun _ u => R s u)
        (fun e t => R s t ∨ ∃ u f, R s u ∧ isReset f.ctrl = true ∧ e.isReset = true ∧
          t = afterReset q f u) (R s) t := by
    intro α c t ht hc
    exact (hc.wp t).mono (fun _ u hu => IsTrans.trans _ _ _ ht hu)
      (fun _ u hu => Or.inl (IsTrans.trans _ _ _ ht hu)) fun u hu => IsTrans.trans _ _ _ ht hu
  have hpost : ∀ {r : Step Bytes Flight} {t : LinkSt W υ}, R s t →
      Step.post (fun _ t => R s t) (fun _ t => R s t) r t := by
    intro r t ht
    cases r <;> exact ht
  refine Link.wp_exchange (fun _ t => R s t) (fun _ _ t => R s t) ?_ (fun _ _ h => h) ?_ ?_ ?_
  · refine (hstep (Std.Refl.refl s) (h.write (Or.inr rfl))).mono (fun _ t ht => ?_)
      (fun _ _ h => h) fun _ h => h
    exact hstep ht (moves_monotonic h.world)
  · exact fun x t ht => hstep ht (h.readFrames _)
  · intro f fs x t ht
    unfold onFrame
    rw [wp_ite]
    refine ⟨fun _ => ?_, fun _ => ?_⟩
    · exact (hstep ht (moves_bind (moves_bump h.link _) fun _ => moves_pure _)).mono
        (fun _ _ hu => hpost hu) (fun _ _ h => h) fun _ h => h
    · rw [wp_bind, wp_logEvent, wp_ite]
      have ht' : isReset f.ctrl = false →
          R s { t with log := t.log ++ [.rx (.exchange q.message) f] } := fun hr =>
        IsTrans.trans _ _ _ ht (h.wire t _ (by
          simp [WireEvent.quiet, WireEvent.passive, WireEvent.calm, hr])
          (WireEvent.carries_of_none rfl))
      refine ⟨fun _ => ?_, fun hu => ?_⟩
      · unfold onUFrame
        rw [wp_ite]
        refine ⟨fun hr => ?_, fun hr => ht' (by simpa using hr)⟩
        rw [wp_bind, wp_setPeer, wp_bind, wp_bump, wp_raise]
        exact Or.inr ⟨t, f, ht, hr, rfl, rfl⟩
      · have ht' := ht' (isReset_of_kind hu)
        exact (hstep ht' (moves_bind (h.ackedOr _ _ _ _) fun _ => h.onSequenced rfl _ _ _)).mono
          (fun _ _ hu => hpost hu) (fun _ _ h => h) fun _ h => h
  · intro x t ht
    exact (hstep ht (h.passEnd rfl _ _)).mono (fun _ _ hu => hpost hu) (fun _ _ h => h) fun _ h => h

/-- One frame of a batch, of whichever kind. -/
theorem moves_onFrame (h : Exchanging q R) {frame : Frame} (hf : frame.payload = q.message)
    (ns : Seq) (x : Flight) (f : Rx) : Moves R (onFrame q frame ns x f) := by
  refine moves_ite (fun _ => moves_bind (moves_bump h.link _) fun _ => moves_pure _) fun _ => ?_
  by_cases hu : kind f.ctrl = .uFrame
  · simp only [if_pos hu]
    exact h.uFrame x f
  · simp only [if_neg hu]
    refine moves_bind (moves_logEvent fun s => h.wire s _ ?_ (WireEvent.carries_of_none rfl))
      fun _ => moves_bind (h.toPolling.ackedOr _ _ _ _) fun acked =>
        h.toPolling.onSequenced hf _ _ _
    simp [WireEvent.quiet, WireEvent.passive, WireEvent.calm, isReset_of_kind hu]

/-- One pass: the read, its frames one after the other, and the end. -/
theorem moves_pass (h : Exchanging q R) {frame : Frame} (hf : frame.payload = q.message)
    (ns : Seq) (x : Flight) : Moves R (pass q frame ns x) := by
  refine moves_bind (h.toPolling.readFrames _) fun fs =>
    moves_bind (moves_scan (fun x f => moves_onFrame h hf _ x f) _ _) fun r => ?_
  cases r with
  | done pl => exact moves_pure _
  | next x' => exact h.toPolling.passEnd hf _ _

/-- **The frame condition of a call**: whatever its parts keep, a call keeps, however long it is
and however it ends. -/
theorem moves_exchange (h : Exchanging q R) (fuel : ℕ) : Moves R (exchange fuel q) :=
  moves_bind (moves_read _) fun _ => moves_bind (h.toPolling.write (Or.inr rfl)) fun _ =>
    moves_bind (moves_monotonic h.world) fun _ => moves_loop (fun x => moves_pass h rfl _ x) _ _

end Moves

/-- `request`, the wrapper the CLI uses. -/
def request (fuel : ℕ) (addr : Byte) (message : Bytes) (timeout : Time := ms 3000)
    (retries : ℕ := 3) : LinkProg W υ Bytes :=
  handle (exchange fuel { addr := addr, message := message, timeout := timeout * (retries + 1) })
    fun e => match e with
      | .aisgTimeout .. => some (raise (.aisgError ("no layer-7 response from " ++ hex2 addr)))
      | _ => none

end OpenAisg.Link
