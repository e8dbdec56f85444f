import OpenAisg.Link.Exchange

/-!
# What an exchange raises, and what the log says about it

`exchange` raises an `AisgError` or passes on an `OSError` of the port.  Which of the
two, and the response it returned, can be read off the log.  Callers far above depend on
it: whether a session reports a lost link or a lost adapter, and whether a command was
answered, is decided by nothing but the exception that comes up from here.

* `Harmless` — nothing was logged that a caller would have to answer for.
* `Faulty` — an exception and the log it leaves: harmless below an `AisgError`, with a
  fault in it below anything else.
* `walks_write`, `walks_readFrames`, … — each primitive either moves harmlessly or raises
  over such a log.
* `exchange_told` — a response is logged as the last event, an `AisgError` leaves a
  harmless log, anything else leaves a fault in it.
* `request_told` — the wrapper of the command line ends in the same ways, and never with the
  `AisgTimeout` it translates.
-/

namespace OpenAisg.Link

open Hdlc Prog

variable {W υ : Type} [Line W]

/-- The event is neither a fault, nor a response, nor a one-shot transfer. -/
def WireEvent.harmless : WireEvent → Bool
  | .fault | .txFault _ | .accepted .. | .raw .. => false
  | _ => true

/-- Reading or writing a frame failed. -/
def WireEvent.failed : WireEvent → Bool
  | .fault | .txFault _ => true
  | _ => false

/-- Only harmless events were logged. -/
def Harmless (s t : LinkSt W υ) : Prop :=
  ∃ new, t.log = s.log ++ new ∧ ∀ e ∈ new, WireEvent.harmless e = true

instance : IsPreorder (LinkSt W υ) Harmless where
  refl s := ⟨[], (List.append_nil _).symm, fun _ h => nomatch h⟩
  trans s t u h h' := by
    obtain ⟨new, ht, hnew⟩ := h
    obtain ⟨new', hu, hnew'⟩ := h'
    refine ⟨new ++ new', by rw [hu, ht, List.append_assoc], fun e he => ?_⟩
    exact (List.mem_append.1 he).elim (hnew e) (hnew' e)

omit [Line W] in
/-- A step that logs nothing is harmless. -/
theorem Harmless.of_eq {s t : LinkSt W υ} (h : t.log = s.log) : Harmless s t :=
  ⟨[], by rw [h, List.append_nil], fun _ h => nomatch h⟩

omit [Line W] in
/-- So is one that logs a harmless event. -/
theorem Harmless.concat {s t : LinkSt W υ} {e : WireEvent} (h : t.log = s.log ++ [e])
    (he : e.harmless = true) : Harmless s t :=
  ⟨[e], h, fun _ he' => List.mem_singleton.1 he' ▸ he⟩

/-- An `AisgError` was raised over a harmless log, or something else over a fault. -/
def Faulty (e : Exn) (s t : LinkSt W υ) : Prop :=
  (e.isAisg = true ∧ Harmless s t) ∨
    (e.isAisg = false ∧ ∃ new, t.log = s.log ++ new ∧ ∃ a ∈ new, a.failed = true)

omit [Line W] in
/-- A harmless beginning takes nothing from what is raised after it. -/
theorem absorbs_faulty : Absorbs (Harmless (W := W) (υ := υ)) Faulty := by
  rintro e s t u h (⟨he, hu⟩ | ⟨he, new', hu, a, ha, hf⟩)
  · exact Or.inl ⟨he, IsTrans.trans _ _ _ h hu⟩
  · obtain ⟨new, ht, -⟩ := h
    exact Or.inr ⟨he, new ++ new', by rw [hu, ht, List.append_assoc], a,
      List.mem_append_right _ ha, hf⟩

/-- Handing a frame to the port is harmless, or fails over a fault in the log. -/
theorem walks_write (f : Frame) : Walks Harmless Faulty (write f : LinkProg W υ Unit) := by
  intro s
  rw [wp_write]
  exact wp_any (fun _ _ => Harmless.concat rfl rfl)
    (fun _ _ => Or.inr ⟨rfl, _, rfl, _, List.mem_singleton_self _, rfl⟩)
    (fun _ => trivial) _

/-- So is a read. -/
theorem walks_readFrames (b : Time) :
    Walks Harmless Faulty (readFrames b : LinkProg W υ (List Rx)) := by
  intro s
  rw [wp_readFrames]
  exact wp_any (fun _ _ => Harmless.concat rfl rfl)
    (fun _ _ => Or.inr ⟨rfl, _, rfl, _, List.mem_singleton_self _, rfl⟩) (fun _ => trivial) _

omit [Line W] in
theorem walks_logEvent {e : WireEvent} (he : e.harmless = true) :
    Walks Harmless Faulty (logEvent e : LinkProg W υ Unit) := fun _ => Harmless.concat rfl he

omit [Line W] in
theorem walks_setPeer (addr : Byte) (g : PeerState → PeerState) :
    Walks Harmless Faulty (setPeer addr g : LinkProg W υ Unit) := fun _ => Harmless.of_eq rfl

omit [Line W] in
theorem walks_bump (g : Stats → Stats) :
    Walks Harmless Faulty (bump g : LinkProg W υ Unit) := fun _ => Harmless.of_eq rfl

omit [Line W] in
theorem walks_callback (g : υ → υ) :
    Walks Harmless Faulty (callback g : LinkProg W υ Unit) := fun _ => Harmless.of_eq rfl

theorem walks_monotonic : Walks Harmless Faulty (monotonic : LinkProg W υ Time) :=
  fun _ => Harmless.of_eq rfl

theorem walks_sleep (d : Time) : Walks Harmless Faulty (sleep d : LinkProg W υ Unit) :=
  fun _ => Harmless.of_eq rfl

/-- The response `pl` was the last thing logged. -/
def Responded (m : Bytes) (s : LinkSt W υ) (pl : Bytes) (t : LinkSt W υ) : Prop :=
  ∃ u f, Harmless s u ∧ t.log = u.log ++ [.accepted m f] ∧ f.payload = pl

variable {q : Call υ}

/-- The I-frame path ends with a response or a harmless log. -/
theorem onIFrame_told (ns : Seq) (x : Flight) (f : Rx) {s t : LinkSt W υ} (h : Harmless s t) :
    wp (onIFrame q ns x f) (Step.post (Responded q.message s) fun _ u => Harmless s u)
      (fun e u => Faulty e s u) (fun _ => True) t := by
  have ha := absorbs_faulty (W := W) (υ := υ)
  unfold onIFrame
  rw [wp_bind, wp_peer, wp_ite]
  refine ⟨fun _ => ?_, fun _ => ?_⟩
  · exact (walks_bump _).bind_wp ha h fun _ _ h => (walks_write _).bind_wp ha h fun _ _ h => h
  refine (walks_logEvent rfl).bind_wp ha h fun _ _ h =>
    (walks_setPeer _ _).bind_wp ha h fun _ _ h => ?_
  cases q.router f.payload with
  | accept =>
      refine (walks_write _).bind_wp ha h fun _ _ h =>
        Walks.bind_wp ha (walks_onlyIf fun _ => walks_setPeer _ _) h fun _ u h => ?_
      rw [wp_bind, wp_logEvent]
      exact ⟨u, f, h, rfl, rfl⟩
  | indication =>
      exact (walks_write _).bind_wp ha h fun _ _ h => (walks_callback _).bind_wp ha h fun _ _ h =>
        walks_monotonic.bind_wp ha h fun _ _ h => h
  | unexpected =>
      exact (walks_write _).bind_wp ha h fun _ _ h => (walks_bump _).bind_wp ha h fun _ _ h => h

/-- An I- or S-frame: a REJ may have the command sent again, and an I-frame may be the response. -/
theorem onSequenced_told (frame : Frame) (ns : Seq) (x : Flight) (f : Rx) {s t : LinkSt W υ}
    (h : Harmless s t) :
    wp (onSequenced q frame ns x f) (Step.post (Responded q.message s) fun _ u => Harmless s u)
      (fun e u => Faulty e s u) (fun _ => True) t := by
  have ha := absorbs_faulty (W := W) (υ := υ)
  have hrej : wp (if !x.acked ∧ x.retxLeft ≠ 0 then do
        bump fun st => { st with retx := st.retx + 1 }
        write frame
        pure (.next { x with retxLeft := x.retxLeft - 1 })
      else pure (.next x) : LinkProg W υ (Step Bytes Flight))
      (Step.post (Responded q.message s) fun _ u => Harmless s u)
      (fun e u => Faulty e s u) (fun _ => True) t := by
    rw [wp_ite]
    exact ⟨fun _ => (walks_bump _).bind_wp ha h fun _ _ h =>
      (walks_write _).bind_wp ha h fun _ _ h => h, fun _ => h⟩
  unfold onSequenced
  cases kind f.ctrl with
  | rr => exact h
  | rnr => exact (walks_bump _).bind_wp ha h fun _ _ h => h
  | rej => exact hrej
  | srej => exact hrej
  | iFrame => exact onIFrame_told ns x f h
  | uFrame => exact onIFrame_told ns x f h

/-- One frame of a batch.  A DM or FRMR raises, over a log that is harmless still. -/
theorem onFrame_told (frame : Frame) (ns : Seq) (x : Flight) (f : Rx) {s t : LinkSt W υ}
    (h : Harmless s t) :
    wp (onFrame q frame ns x f) (Step.post (Responded q.message s) fun _ u => Harmless s u)
      (fun e u => Faulty e s u) (fun _ => True) t := by
  have ha := absorbs_faulty (W := W) (υ := υ)
  unfold onFrame
  rw [wp_ite]
  refine ⟨fun _ => (walks_bump _).bind_wp ha h fun _ _ h => h, fun _ =>
    (walks_logEvent rfl).bind_wp ha h fun _ _ h => ?_⟩
  rw [wp_ite]
  refine ⟨fun _ => ?_, fun _ => ?_⟩
  · unfold onUFrame
    rw [wp_ite]
    exact ⟨fun _ => (walks_setPeer _ _).bind_wp ha h fun _ _ h =>
      (walks_bump _).bind_wp ha h fun _ _ h => Or.inl ⟨rfl, h⟩, fun _ => h⟩
  · have hacked : Walks Harmless Faulty (ackedOr x.acked q.addr f.ctrl ns : LinkProg W υ Bool) :=
      walks_ite (fun _ => walks_pure _) fun _ => walks_ite
        (fun _ => (walks_setPeer _ _).bind ha fun _ => walks_pure _) fun _ => walks_pure _
    exact hacked.bind_wp ha h fun _ _ h => onSequenced_told _ _ _ _ h

/-- The end of a pass returns no response: it raises a timeout, or goes on. -/
theorem passEnd_told (frame : Frame) (ns : Seq) (x : Flight) {s t : LinkSt W υ}
    (h : Harmless s t) :
    wp (passEnd q frame ns x) (Step.post (Responded q.message s) fun _ u => Harmless s u)
      (fun e u => Faulty e s u) (fun _ => True) t := by
  have ha := absorbs_faulty (W := W) (υ := υ)
  refine walks_monotonic.bind_wp ha h fun now _ h => ?_
  rw [wp_ite, wp_ite]
  refine ⟨fun _ => (walks_bump _).bind_wp ha h fun _ _ h =>
    (walks_write _).bind_wp ha h fun _ _ h => h, fun _ => ⟨fun _ => Or.inl ⟨rfl, h⟩, fun _ => ?_⟩⟩
  exact (walks_bump _).bind_wp ha h fun _ _ h => (walks_callback _).bind_wp ha h fun _ _ h =>
    (walks_sleep _).bind_wp ha h fun _ _ h => Walks.bind_wp ha (walks_read _) h fun _ _ h =>
      (walks_write _).bind_wp ha h fun _ _ h => h

/-- **What a call tells.**  A response is the last thing logged; an `AisgError` leaves a
harmless log, and any other exception a fault in it. -/
theorem exchange_told (fuel : ℕ) (s : LinkSt W υ) :
    wp (exchange fuel q) (Responded q.message s) (fun e t => Faulty e s t) (fun _ => True) s := by
  have ha := absorbs_faulty (W := W) (υ := υ)
  refine wp_exchange (fun _ t => Harmless s t) (fun _ _ t => Harmless s t) ?_
    (fun _ _ _ => trivial) (fun _ _ h => (walks_readFrames _).after ha h)
    (fun f _ x _ h => onFrame_told _ _ x f h) fun x _ h => passEnd_told _ _ x h
  refine (walks_write _ s).mono (fun _ t ht => ?_) (fun _ _ h => h) fun _ h => h
  exact walks_monotonic.after ha ht

/-! ## The wrapper -/

/-- **`request` tells the same**, but for the timeout: its caller never learns whether the command
was acknowledged. -/
theorem request_told (fuel : ℕ) (addr : Byte) (message : Bytes) (timeout : Time) (retries : ℕ)
    (s : LinkSt W υ) :
    wp (request fuel addr message timeout retries) (Responded message s)
      (fun e t => Faulty e s t ∧ ∀ a ns acked polls, e ≠ .aisgTimeout a ns acked polls)
      (fun _ => True) s := by
  unfold request
  rw [wp_handle]
  refine (exchange_told fuel s).mono (fun _ _ h => h) (fun e t ht => ?_) fun _ h => h
  cases e with
  | aisgTimeout a ns acked polls =>
      -- the plain error is raised over the log that the timeout left
      have hlog : Harmless s t := by
        rcases ht with ⟨-, h⟩ | ⟨h, -⟩
        · exact h
        · cases h
      exact ⟨Or.inl ⟨rfl, hlog⟩, fun _ _ _ _ h => by cases h⟩
  | aisgError | portBusy | portLost | linkReset | sessionError | retError | frameError | osError
  | py => exact ⟨ht, fun _ _ _ _ h => by cases h⟩

end OpenAisg.Link
