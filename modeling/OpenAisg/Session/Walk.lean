import OpenAisg.Session.Sweep

/-!
# A walk over the worker

Every method of the worker is made of a few kinds of step, and what each kind keeps, the
methods keep.  This file lists the kinds once, and carries a preorder `R` over states through
every method, from the primitives up to a pass of `run`.  A result about runs then has to say
no more than what its relation makes of each kind.

* `QuietClosed`, `BusClosed`, `StateClosed`, `StepClosed` — the steps of the state machine, each
  list longer by one kind: the bus without connecting anybody, connecting, opening and closing
  the port, and the alarms and device data.
* `FrameClosed` — the list of the bus for most relations: a request is made of its frames.
* `FutureClosed`, `QueueClosed` — claiming and resolving a future, and with them taking a
  command from the queue.
* `CommandClosed`, `PassClosed` — a command that is executed, and all of it together.
* `StepClosed.step`, `QueueClosed.take`, `CommandClosed.execute`, `PassClosed.runPass` — the
  methods; a relation that has a list has the methods that are made of it.
* `StepClosed.passClosed`, `QuietClosed.queueClosed` — a relation that looks neither at the
  shared variables nor at `head` has the longer lists for nothing.

Two relations keep the lists short.  `Books` is an update of the worker that is not
about alarms, and `Lift` is a relation between worker states seen from the link
object, which `moves_onLink` carries back.
-/

namespace OpenAisg.Session

open Hdlc Link Retap Prog

variable {W : Type}

/-! ## Updates that are not about alarms -/

/-- The attributes of the worker that the results are about. -/
structure Core where
  state : LinkState
  address : Option Byte
  deviceData : List (String × String)
  alarms : AlarmTracker
  backoffUntil : Time
  indications : List Bytes
  head : Option Command
  emitted : List Event
  asked : List (LinkState × String)
  heard : List Heard
  indicated : List Bytes
  silent : List Silent

/-- Those attributes of a worker. -/
def Worker.core (wk : Worker) : Core :=
  { state := wk.state, address := wk.address, deviceData := wk.deviceData, alarms := wk.alarms
    backoffUntil := wk.backoffUntil, indications := wk.indications, head := wk.head
    emitted := wk.emitted, asked := wk.asked, heard := wk.heard, indicated := wk.indicated
    silent := wk.silent }

/-- The `link` events among the events. -/
def linksOf (es : List Event) : List (LinkState × String) :=
  es.filterMap fun
    | .link state error => some (state, error)
    | _ => none

/-- Bookkeeping: only other attributes change, and neither an alarm nor a `link` event is
emitted. -/
def Books (wk wk' : Worker) : Prop :=
  ∃ es, wk'.core = { wk.core with emitted := wk.emitted ++ es } ∧ alarmsOf es = [] ∧
    linksOf es = []

namespace Books

variable {wk wk' : Worker}

/-- Nothing is emitted at all. -/
theorem of_eq (h : wk'.core = wk.core) : Books wk wk' :=
  ⟨[], by rw [h, List.append_nil]; rfl, rfl, rfl⟩

/-- An event that is neither an alarm nor a `link` event. -/
theorem emit (wk : Worker) {ev : Event} (h : alarmsOf [ev] = []) (hl : linksOf [ev] = []) :
    Books wk (wk.emit ev) :=
  ⟨[ev], rfl, h, hl⟩

theorem emitted (h : Books wk wk') : ∃ es, wk'.emitted = wk.emitted ++ es ∧ alarmsOf es = [] := by
  obtain ⟨es, hc, he, -⟩ := h
  exact ⟨es, congrArg Core.emitted hc, he⟩

theorem state (h : Books wk wk') : wk'.state = wk.state := by
  obtain ⟨es, hc, -⟩ := h
  exact congrArg Core.state hc

theorem address (h : Books wk wk') : wk'.address = wk.address := by
  obtain ⟨es, hc, -⟩ := h
  exact congrArg Core.address hc

theorem deviceData (h : Books wk wk') : wk'.deviceData = wk.deviceData := by
  obtain ⟨es, hc, -⟩ := h
  exact congrArg Core.deviceData hc

theorem alarms (h : Books wk wk') : wk'.alarms = wk.alarms := by
  obtain ⟨es, hc, -⟩ := h
  exact congrArg Core.alarms hc

theorem backoffUntil (h : Books wk wk') : wk'.backoffUntil = wk.backoffUntil := by
  obtain ⟨es, hc, -⟩ := h
  exact congrArg Core.backoffUntil hc

theorem asked (h : Books wk wk') : wk'.asked = wk.asked := by
  obtain ⟨es, hc, -⟩ := h
  exact congrArg Core.asked hc

theorem links (h : Books wk wk') : linksOf wk'.emitted = linksOf wk.emitted := by
  obtain ⟨es, hc, -, hl⟩ := h
  rw [show wk'.emitted = wk.emitted ++ es from congrArg Core.emitted hc, linksOf,
    List.filterMap_append]
  exact (congrArg _ hl).trans (List.append_nil _)

theorem heard (h : Books wk wk') : wk'.heard = wk.heard := by
  obtain ⟨es, hc, -⟩ := h
  exact congrArg Core.heard hc

theorem indications (h : Books wk wk') : wk'.indications = wk.indications := by
  obtain ⟨es, hc, -⟩ := h
  exact congrArg Core.indications hc

theorem indicated (h : Books wk wk') : wk'.indicated = wk.indicated := by
  obtain ⟨es, hc, -⟩ := h
  exact congrArg Core.indicated hc

theorem silent (h : Books wk wk') : wk'.silent = wk.silent := by
  obtain ⟨es, hc, -⟩ := h
  exact congrArg Core.silent hc

theorem head (h : Books wk wk') : wk'.head = wk.head := by
  obtain ⟨es, hc, -⟩ := h
  exact congrArg Core.head hc

end Books

/-- `_set_state` emits a `link` event or does nothing. -/
theorem Worker.setState_core (wk : Worker) (state : LinkState) (error : String) :
    ∃ es, (wk.setState state error).core = { wk.core with
        state := state, emitted := wk.emitted ++ es, asked := wk.asked ++ [(state, error)] } ∧
      alarmsOf es = [] := by
  unfold Worker.setState
  dsimp only
  by_cases h : state = wk.state ∧ error = wk.lastError
  · rw [if_pos h, h.1]
    exact ⟨[], by rw [List.append_nil]; rfl, rfl⟩
  · rw [if_neg h]
    exact ⟨[.link state error], rfl, rfl⟩

@[simp] theorem Worker.setState_state (wk : Worker) (state : LinkState) (error : String) :
    (wk.setState state error).state = state := by
  obtain ⟨es, hc, -⟩ := wk.setState_core state error
  exact congrArg Core.state hc

@[simp] theorem Worker.setState_address (wk : Worker) (state : LinkState) (error : String) :
    (wk.setState state error).address = wk.address := by
  obtain ⟨es, hc, -⟩ := wk.setState_core state error
  exact congrArg Core.address hc

@[simp] theorem Worker.setState_backoffUntil (wk : Worker) (state : LinkState) (error : String) :
    (wk.setState state error).backoffUntil = wk.backoffUntil := by
  obtain ⟨es, hc, -⟩ := wk.setState_core state error
  exact congrArg Core.backoffUntil hc

@[simp] theorem Worker.setState_head (wk : Worker) (state : LinkState) (error : String) :
    (wk.setState state error).head = wk.head := by
  obtain ⟨es, hc, -⟩ := wk.setState_core state error
  exact congrArg Core.head hc

/-- `_drain_indications` is about alarms only. -/
theorem Worker.drainIndications_core (wk : Worker) :
    wk.drainIndications.state = wk.state ∧ wk.drainIndications.address = wk.address ∧
      wk.drainIndications.head = wk.head := by
  have h : ∀ (ps : List Bytes) (wk' : Worker), (ps.foldl Worker.indicate wk').state = wk'.state ∧
      (ps.foldl Worker.indicate wk').address = wk'.address ∧
        (ps.foldl Worker.indicate wk').head = wk'.head := by
    intro ps
    induction ps with
    | nil => exact fun _ => ⟨rfl, rfl, rfl⟩
    | cons p ps ih => exact fun wk' => ih (wk'.indicate p)
  exact h _ _

@[simp] theorem Worker.drainIndications_state (wk : Worker) :
    wk.drainIndications.state = wk.state := wk.drainIndications_core.1

@[simp] theorem Worker.drainIndications_address (wk : Worker) :
    wk.drainIndications.address = wk.address := wk.drainIndications_core.2.1

@[simp] theorem Worker.drainIndications_head (wk : Worker) :
    wk.drainIndications.head = wk.head := wk.drainIndications_core.2.2

/-- `on_poll` emits no alarm. -/
theorem Books.onPoll (name : CommandName) (polls : ℕ) (acked : Bool) (wk : Worker) :
    Books wk (onPoll name polls acked wk) := by
  unfold Session.onPoll
  split_ifs
  · exact Books.emit wk rfl rfl
  · exact Books.of_eq rfl

/-- The commands of `_execute` report progress, the others report nothing. -/
def Reports (p : ℕ → Bool → Worker → Worker) : Prop := ∀ n a wk, Books wk (p n a wk)

/-- A command without `onPoll` reports nothing. -/
theorem reports_nothing : Reports fun _ _ wk => wk :=
  fun _ _ _ => Books.of_eq rfl

/-! ## Seen from the link object -/

/-- `R`, between states that differ only in what a method of the link can reach. -/
def Lift (R : St W → St W → Prop) (a b : LinkSt W Worker) : Prop :=
  ∀ ports nextIdent sh, R (around a ports nextIdent sh) (around b ports nextIdent sh)

instance {R : St W → St W → Prop} [IsPreorder (St W) R] :
    IsPreorder (LinkSt W Worker) (Lift R) where
  refl _ _ _ _ := Std.Refl.refl _
  trans _ _ _ h h' ports nextIdent sh :=
    IsTrans.trans _ _ _ (h ports nextIdent sh) (h' ports nextIdent sh)

/-- What a method of the link object respects, the worker that calls it does. -/
theorem moves_onLink {R : St W → St W → Prop} [IsPreorder (St W) R] {α : Type}
    {c : LinkProg W Worker α} (h : Moves (Lift R) c) : Moves R (onLink c) := by
  intro s
  obtain ⟨world, log, link, ports, nextIdent, sh, wk⟩ := s
  cases link with
  | none => exact Std.Refl.refl _
  | some l => exact h ⟨world, l, log, wk⟩ ports nextIdent sh

/-- An I-frame of `_drain`, where its parts can be told apart. -/
theorem moves_drainTake [Line W] {υ : Type} {R : LinkSt W υ → LinkSt W υ → Prop}
    [IsPreorder (LinkSt W υ) R] (world : ∀ s w, R s { s with world := w })
    (log : ∀ s e, WireEvent.calm e = true → R s { s with log := s.log ++ [e] })
    (link : ∀ s l, AisgLink.Alike s.link l → R s { s with link := l }) (f : Rx) :
    Moves R (drainTake f) :=
  moves_bind (fun s => log s _ rfl) fun _ => moves_bind (moves_read _) fun _ =>
    moves_bind (fun s => log s _ rfl) fun _ => moves_bind (moves_setPeer link _ _ fun _ => rfl)
      fun _ => moves_write world fun s e he _ => log s e (WireEvent.calm_of_quiet he)

/-- The same of `_keepalive_poll`. -/
theorem moves_keepaliveTake [Line W] {R : St W → St W → Prop} [IsPreorder (St W) R]
    (world : ∀ s w, Lift R s { s with world := w })
    (log : ∀ s e, WireEvent.calm e = true → Lift R s { s with log := s.log ++ [e] })
    (link : ∀ s l, AisgLink.Alike s.link l → Lift R s { s with link := l })
    (heed : ∀ s pl, R s { s with wk := s.wk.heed pl }) (addr : Byte) (vr : Seq) (f : Rx) :
    Moves R (keepaliveTake addr vr f) := by
  refine moves_bind (moves_onLink (moves_bind (fun s => log s _ rfl) fun _ =>
    moves_bind (moves_setPeer link _ _ fun _ => rfl) fun _ =>
      moves_write world fun s e he _ => log s e (WireEvent.calm_of_quiet he))) fun _ => ?_
  exact moves_onlyIf fun _ s => heed s _

/-! ## The steps of the state machine -/

variable [Line W]

/-- What monitoring and bookkeeping are made of: no peer is connected or disconnected.  The world
moves on, the wire is logged, sequence numbers change, and alarms are tracked. -/
structure QuietClosed (R : St W → St W → Prop) : Prop where
  world : ∀ s w, R s { s with world := w }
  calls : ∀ s (calls : List ClientCall), R s { s with shared := calls.foldl Shared.apply s.shared }
  books : ∀ s wk, Books s.wk wk → R s { s with wk := wk }
  stored : ∀ s d, Swept s.log d → R s { s with wk := { s.wk with deviceData := d } }
  report : ∀ s names, R s { s with wk := s.wk.report names }
  baseline : ∀ s names, R s { s with wk := s.wk.baseline names }
  parked : ∀ s, R s { s with wk := s.wk.drainIndications }
  wire : ∀ s e, WireEvent.quiet e = true → R s { s with log := s.log ++ [e] }
  keepaliveTake : ∀ addr vr f, nsOf f.ctrl = vr → Moves R (keepaliveTake addr vr f)
  drainTake : ∀ f, Moves (Lift R) (drainTake f)

/-- A coarser relation has the same steps. -/
theorem QuietClosed.mono {R R' : St W → St W → Prop} (h : QuietClosed R)
    (hR : ∀ s t, R s t → R' s t) : QuietClosed R' where
  world s w := hR _ _ (h.world s w)
  calls s calls := hR _ _ (h.calls s calls)
  books s wk hw := hR _ _ (h.books s wk hw)
  stored s d hd := hR _ _ (h.stored s d hd)
  report s names := hR _ _ (h.report s names)
  baseline s names := hR _ _ (h.baseline s names)
  parked s := hR _ _ (h.parked s)
  wire s e he := hR _ _ (h.wire s e he)
  keepaliveTake addr vr f hf := (h.keepaliveTake addr vr f hf).mono hR
  drainTake f := (h.drainTake f).mono fun _ _ hl ports n sh => hR _ _ (hl ports n sh)

/-- What the methods that neither change the state nor open or close the port are
made of.  A request is one step. -/
structure BusClosed (R : St W → St W → Prop) : Prop extends QuietClosed R where
  log : ∀ s e, WireEvent.passive e = true → R s { s with log := s.log ++ [e] }
  link : ∀ s l l', s.link = some l → l'.ident = l.ident → R s { s with link := some l' }
  request : ∀ p, Reports p → ∀ addr m t n, Moves (Lift R) (exchange n (sessionCall p addr m t))

/-- The same for a relation that need not know which frames belong to one request: it has
the I-frame path of any. -/
structure FrameClosed (R : St W → St W → Prop) : Prop extends QuietClosed R where
  log : ∀ s e, WireEvent.passive e = true → R s { s with log := s.log ++ [e] }
  link : ∀ s l l', s.link = some l → l'.ident = l.ident → R s { s with link := some l' }
  iFrame : ∀ p addr m t ns x f, Moves (Lift R) (onIFrame (sessionCall p addr m t) ns x f)

/-- What the methods that open and close the port are made of. -/
structure StateClosed (R : St W → St W → Prop) : Prop extends BusClosed R where
  state : ∀ s state error, R s { s with wk := s.wk.setState state error }
  address : ∀ s a b, R s { s with wk := { s.wk with address := a, wantLink := b } }
  opened : ∀ s, R s { s with
    link := some { ident := s.nextIdent }, ports := s.nextIdent :: s.ports
    nextIdent := s.nextIdent + 1 }
  closed : ∀ s, R s { s with ports := s.ports.filter fun i => some i ≠ s.link.map (·.ident) }
  dropped : ∀ s, R s { s with link := none }

/-- What every method is made of, but for the futures and `head`. -/
structure StepClosed (R : St W → St W → Prop) : Prop extends StateClosed R where
  armed : ∀ s d, R s { s with wk := { s.wk with backoffUntil := d } }

section Steps

variable {R : St W → St W → Prop} [IsPreorder (St W) R]

omit [Line W] in
/-- What `_execute`, `_poll_alarms` and `_on_connected` catch is an `AisgError`. -/
theorem moves_onReset {α : Type} {c : WorkerProg W α} {d d' : Exn → WorkerProg W α}
    (hc : Moves R c) (hd : ∀ e, e.isAisg = true → Moves R (d e))
    (hd' : ∀ e, e.isAisg = true → Moves R (d' e)) : Moves R (handle c (onReset d d')) := by
  refine moves_handle hc fun e k hk => ?_
  unfold Session.onReset at hk
  split_ifs at hk with hreset haisg <;> cases hk
  · exact hd e (Exn.isAisg_of_isReset hreset)
  · exact hd' e haisg

omit [Line W] in
/-- A handler respects the relation when both of its bodies do. -/
theorem moves_onOsOrAisg {α : Type} {c : WorkerProg W α} {d : Exn → WorkerProg W α}
    (hc : Moves R c) (hd : ∀ e, Moves R (d e)) : Moves R (handle c (onOsOrAisg d)) := by
  refine moves_handle hc fun e k hk => ?_
  unfold Session.onOsOrAisg at hk
  split_ifs at hk
  cases hk
  exact hd e

omit [Line W] in
theorem moves_octet (a : Option Byte) : Moves R (octet a : WorkerProg W Byte) := by
  cases a with
  | none => exact moves_raise _
  | some a => exact moves_pure _

omit [Line W] in
/-- The sweep, when each of its questions does. -/
theorem moves_sweepDeviceData {r : Ret (St W)} (hr : ∀ fid, Moves R (r.getDeviceData fid))
    (last : ℕ) :
    Moves R (sweepDeviceData r last) := by
  unfold Session.sweepDeviceData
  generalize (1 : ℕ) = first
  induction last generalizing first with
  | zero => exact moves_pure _
  | succ n ih =>
      refine moves_bind (moves_onAisg (moves_bind (hr _) fun _ => moves_pure _)
        (moves_pure _)) fun d => moves_bind (ih _) fun _ => moves_pure _

/-! ## What a command does before it is resolved -/

omit [Line W] in
/-- Any command, on any transport that does. -/
theorem moves_callCommand {r : Ret (St W)} (hr : ∀ m t, Moves R (r.request m t))
    (name : CommandName) (args : List (String × PyVal)) : Moves R (callCommand r name args) := by
  unfold Session.callCommand
  split
  · exact moves_bind (moves_getInformation hr) fun _ => moves_pure _
  · exact moves_bind (moves_getTilt hr) fun _ => moves_pure _
  · exact moves_bind (moves_getAlarmStatus hr) fun _ => moves_pure _
  · exact moves_bind (moves_sweepDeviceData (moves_getDeviceData hr) _) fun _ => moves_pure _
  · exact moves_bind (moves_sweepDeviceData (moves_getDeviceData hr) _) fun _ => moves_pure _
  · refine moves_bind (moves_ofExcept _) fun _ => moves_bind ?_ fun _ => moves_pure _
    exact moves_bind (moves_setTiltUnits hr _) fun _ => moves_getTilt hr
  · exact moves_bind (moves_perform hr _ _ _) fun _ => moves_pure _
  · exact moves_bind (moves_perform hr _ _ _) fun _ => moves_pure _
  · exact moves_bind (moves_perform hr _ _ _) fun _ => moves_pure _
  · exact moves_bind (moves_perform hr _ _ _) fun _ => moves_pure _
  · exact moves_raise _

namespace QuietClosed

variable (h : QuietClosed R)

include h

omit [IsPreorder (St W) R] in
theorem clock : Moves R (clock : WorkerProg W Time) := fun s => h.world s _

omit [IsPreorder (St W) R] in
theorem pause (d : Time) : Moves R (pause d : WorkerProg W Unit) := fun s => h.world s _

variable [Clients W] in
theorem sync : Moves R (sync : WorkerProg W Unit) := fun s =>
  IsTrans.trans _ _ _ (h.calls s (Clients.others s.world).1) (h.world _ _)

variable [Clients W] in
theorem shared {α : Type} (f : Shared → α) : Moves R (shared f : WorkerProg W α) :=
  moves_bind h.sync fun _ => moves_read _

omit [IsPreorder (St W) R] in
theorem update {f : Worker → Worker} (hf : ∀ wk, Books wk (f wk)) :
    Moves R (update f : WorkerProg W Unit) := fun s => h.books s _ (hf s.wk)

omit [IsPreorder (St W) R] in
/-- An assignment to other attributes. -/
theorem assign {f : Worker → Worker} (hf : ∀ wk, (f wk).core = wk.core) :
    Moves R (Session.update f : WorkerProg W Unit) :=
  h.update fun wk => Books.of_eq (hf wk)

/-- `_execute` notes where `set_tilt` is to go, before its `try`. -/
theorem noteTarget (cmd : Command) : Moves R (onlyIf (cmd.name = .setTilt) do
    let target ← Link.ofExcept (pyFloat (cmd.args.lookup "degrees"))
    Session.update fun wk => { wk with targetTilt := target } : WorkerProg W Unit) :=
  moves_onlyIf fun _ => moves_bind (moves_ofExcept _) fun _ => h.assign fun _ => rfl

/-- The `finally` of `_execute`. -/
theorem wrapUp : Moves R (do
    let now ← Session.clock
    Session.update fun wk => { wk with lastCommandAt := now }
    Session.update Worker.drainIndications : WorkerProg W Unit) :=
  moves_bind h.clock fun _ => moves_bind (h.assign fun _ => rfl) fun _ s => h.parked s

omit [IsPreorder (St W) R] in
theorem liftWorld (s : LinkSt W Worker) (w : W) : Lift R s { s with world := w } :=
  fun ports n sh => h.world (around s ports n sh) w

omit [IsPreorder (St W) R] in
theorem liftWire (s : LinkSt W Worker) (e : WireEvent) (he : e.quiet = true) :
    Lift R s { s with log := s.log ++ [e] } :=
  fun ports n sh => h.wire (around s ports n sh) e he

theorem onPort {α : Type} (c : Prog W String α) :
    Moves R (onLink (portOp c []) : WorkerProg W α) :=
  moves_onLink (moves_portOp h.liftWorld fun s w => by simpa using h.liftWorld s w)

theorem onWrite (f : Frame) : Moves R (onLink (write f) : WorkerProg W Unit) :=
  moves_onLink (moves_write h.liftWorld fun s e he _ => h.liftWire s e he)

theorem onRead (b : Time) : Moves R (onLink (readFrames b) : WorkerProg W (List Rx)) :=
  moves_onLink (moves_readFrames h.liftWorld (fun s e he _ => h.liftWire s e he) b)

theorem drainPass (end_ : Time) : Moves R (drainPass end_ () : WorkerProg W (Step Unit Unit)) := by
  refine moves_bind h.clock fun _ => moves_ite (fun _ => moves_bind (h.onRead _) fun frames =>
    moves_ite (fun _ => moves_pure _) fun _ => moves_bind (moves_forEach _ fun f _ => ?_)
      fun _ => moves_pure _) fun _ => moves_pure _
  exact moves_bind (moves_read _) fun held => moves_onlyIf fun _ => moves_onLink (h.drainTake f)

variable [Clients W] in
theorem shouldOpen (cfg : Config) (now : Time) : Moves R (shouldOpen cfg now : WorkerProg W Bool) := by
  refine moves_bind (moves_read _) fun _ => moves_ite (fun _ => moves_pure _) fun _ =>
    moves_bind (h.shared _) fun _ => moves_ite (fun _ => moves_pure _) fun _ => ?_
  exact moves_bind (moves_read _) fun _ => moves_pure _

variable [Clients W] in
/-- Device data must be known to have come in, or not to matter. -/
theorem absorb {result : Result} {s : St W}
    (hd : ∀ d, result = .deviceData d → R s { s with wk := { s.wk with deviceData := d } }) :
    R s (absorb result s).2 := by
  have hstore : R s { s with wk := s.wk.store result } := by
    cases result with
    | alarms names => exact h.report s names
    | information d => exact h.books s _ (Books.of_eq rfl)
    | tilt t => exact h.books s _ (Books.of_eq rfl)
    | deviceData d => exact hd d rfl
    | none => exact h.books s _ (Books.of_eq rfl)
  have hrest : Moves R (do
      let snap ← snapshot
      Session.update fun wk => wk.emit (.status snap) : WorkerProg W Unit) :=
    moves_bind (moves_bind (h.shared _) fun _ => moves_bind h.clock fun _ =>
      moves_bind (moves_read _) fun _ => moves_bind (moves_read _) fun _ => moves_pure _)
      fun snap => h.update fun wk => Books.emit wk rfl rfl
  exact IsTrans.trans _ _ _ hstore (hrest _)

theorem subscribe {r : Ret (St W)} (hr : Moves R r.alarmSubscribe) :
    Moves R (subscribe r) := by
  refine moves_bind (moves_read _) fun _ => moves_ite (fun _ => moves_pure _) fun _ =>
    moves_handle (moves_bind hr fun _ => moves_pure _) fun e k hk => ?_
  split_ifs at hk
  cases hk
  exact moves_bind (moves_onlyIf fun _ => h.assign fun _ => rfl)
    fun _ => moves_pure _

end QuietClosed

namespace FrameClosed

variable (h : FrameClosed R)

include h

/-- A request of the session, seen from the link object. -/
theorem exchanging {p : ℕ → Bool → Worker → Worker} (hp : Reports p)
    (addr : Byte) (m : Bytes) (t : Time) : Exchanging (sessionCall p addr m t) (Lift R) where
  world := h.liftWorld
  wire s e he _ := h.liftWire s e he
  link s l hl ports nextIdent sh := h.link (around s ports nextIdent sh) s.link l rfl hl.1
  poll n a s ports nextIdent sh := h.books (around s ports nextIdent sh) _ (hp n a s.user)
  iFrame := h.iFrame p addr m t
  uFrame x f := by
    refine moves_bind (fun s ports n sh => h.log (around s ports n sh) _ rfl) fun _ =>
      moves_ite (fun _ => moves_bind ?_ fun _ => ?_) fun _ => moves_pure _
    · exact fun s ports n sh => h.link (around s ports n sh) s.link _ rfl rfl
    · exact moves_bind (fun s ports n sh => h.link (around s ports n sh) s.link _ rfl rfl)
        fun _ => moves_raise _

/-- A request of such a relation is made of its frames. -/
theorem busClosed : BusClosed R where
  toQuietClosed := h.toQuietClosed
  log := h.log
  link := h.link
  request _ hp addr m t n := moves_exchange (h.exchanging hp addr m t) n

end FrameClosed

namespace BusClosed

variable (h : BusClosed R)

include h

omit [IsPreorder (St W) R] in
theorem oneShot : OneShot (Lift R) where
  world := h.liftWorld
  raw s f r ports n sh := h.log (around s ports n sh) (.raw f r) rfl
  reset _ _ s ports nextIdent sh := h.link (around s ports nextIdent sh) s.link _ rfl rfl

/-- A request, as the worker makes it. -/
theorem transport (cfg : Config) {p : ℕ → Bool → Worker → Worker}
    (hp : Reports p) (addr : Option Byte) (m : Bytes) (t : Time) :
    Moves R (transport cfg p addr m t : WorkerProg W Bytes) :=
  moves_bind (moves_octet _) fun _ => moves_onLink (h.request p hp _ _ _ _)

theorem ret (cfg : Config) (a : Option Byte) {p : ℕ → Bool → Worker → Worker} (hp : Reports p) :
    ∀ m t, Moves R ((ret cfg a p).request m t : WorkerProg W Bytes) :=
  h.transport cfg hp a

theorem assignAll (addr : ℕ) (devs : List Device) :
    Moves R (assignAll addr devs : WorkerProg W (List Device)) := by
  induction devs generalizing addr with
  | nil => exact moves_pure _
  | cons dev devs ih =>
      exact moves_bind (moves_onLink (moves_assignAddress h.oneShot _ _)) fun _ =>
        moves_bind (ih _) fun _ => moves_pure _

theorem discover (cfg : Config) : Moves R (discover cfg : WorkerProg W (Option Byte)) := by
  refine moves_bind (moves_onLink (moves_scanBus h.oneShot _)) fun devices => ?_
  cases devices with
  | cons d ds =>
      refine moves_bind (h.assignAll _ _) fun _ => moves_bind ?_ fun _ => moves_pure _
      exact h.assign fun _ => rfl
  | nil =>
      refine moves_bind (moves_onLink (moves_scanAssigned h.oneShot _ _)) fun found =>
        moves_bind (moves_forEach _ fun dev _ => ?_) fun _ => moves_pure _
      cases dev.address with
      | none => exact moves_pure _
      | some a => exact moves_onAisg (moves_onLink (moves_disconnect h.oneShot _ _)) (moves_pure _)

theorem entryActions {r : Ret (St W)} (hr : ∀ m t, Moves R (r.request m t)) (hl : Logging r) :
    Moves R (entryActions r) := by
  refine moves_bind (moves_read _) fun _ => moves_bind (moves_onlyIf fun _ =>
    moves_bind (moves_getInformation hr) fun _ =>
      h.assign fun _ => rfl) fun _ => ?_
  refine moves_bind (moves_read _) fun _ => moves_bind (moves_onlyIf fun _ =>
    moves_bind_of (moves_sweepDeviceData (moves_getDeviceData hr) _) (fun s =>
      (wp_sweepFrom hl _ _ s).mono (fun _ _ ht => ht.2) (fun _ _ _ => trivial) fun _ h => h)
      fun d s hd => h.stored s d hd) fun _ => ?_
  refine moves_bind (h.subscribe (moves_perform hr _ _ _)) fun _ =>
    moves_bind (h.assign fun _ => rfl) fun _ => ?_
  refine moves_bind (moves_getAlarmStatus hr) fun names =>
    moves_bind (fun s => h.baseline s names) fun _ => ?_
  exact moves_bind (moves_getTilt hr) fun _ =>
    h.assign fun _ => rfl

theorem onConnected (cfg : Config) : Moves R (onConnected cfg : WorkerProg W Bool) := by
  refine moves_bind (moves_read _) fun a => ?_
  have hentry : Moves R (Session.entryActions (Session.ret cfg a fun _ _ wk => wk)) :=
    h.entryActions (h.ret cfg a reports_nothing) (logging_ret cfg a _)
  refine moves_onReset (moves_bind hentry fun _ => moves_pure _) (fun e _ => ?_)
    fun _ _ => moves_pure _
  exact moves_bind (h.assign fun _ => rfl) fun _ => moves_pure _

end BusClosed

namespace StateClosed

variable (h : StateClosed R)

include h

omit [IsPreorder (St W) R] in
theorem setState (state : LinkState) (error : String) :
    Moves R (setState state error : WorkerProg W Unit) := fun s => h.state s _ _

theorem openLink (cfg : Config) : Moves R (openLink cfg : WorkerProg W Unit) := by
  intro s
  unfold Session.openLink
  rcases Line.serialOpen s.world with ⟨r, w⟩
  cases r with
  | error e => exact h.world s w
  | ok u =>
      dsimp only
      rcases (Line.setDtr w : Outcome String Unit × W) with ⟨o, w'⟩
      cases o with
      | ret a => exact IsTrans.trans _ _ _ (h.world s w') (h.opened { s with world := w' })
      | raise msg => exact h.world s w'
      | stall => exact h.world s w'

theorem closeLink : Moves R (closeLink : WorkerProg W Unit) :=
  moves_bind h.closed fun _ => h.onPort _

theorem release : Moves R (release : WorkerProg W Unit) := by
  unfold Session.release
  refine moves_bind (moves_read _) fun _ => moves_onlyIf fun _ =>
    moves_bind (h.setState _ _) fun _ => moves_bind (moves_onOsOrAisg ?_ fun _ => moves_pure _)
      fun _ => moves_bind ?_ fun _ => h.dropped
  · refine moves_bind (moves_read _) fun a => ?_
    cases a with
    | none => exact moves_pure _
    | some a => exact moves_onLink (moves_disconnect h.oneShot _ _)
  · refine moves_handle h.closeLink fun e k hk => ?_
    cases e <;> simp only [reduceCtorEq, Option.some.injEq] at hk
    subst hk
    exact moves_pure _

theorem clearStaleLinks (cfg : Config) : Moves R (clearStaleLinks cfg : WorkerProg W Unit) := by
  refine moves_bind (moves_read _) fun held => moves_bind (moves_forEach _ fun addr _ =>
    moves_onAisg (moves_bind (moves_ofExcept _) fun a => moves_onLink (moves_disconnect h.oneShot _ _))
      (moves_pure _)) fun _ => ?_
  exact fun s => h.address s none _

theorem giveBack : Moves R (giveBack : WorkerProg W Unit) :=
  moves_bind h.release fun _ => h.setState _ _

variable [Clients W] in
theorem refreshLease : Moves R (refreshLease : WorkerProg W Unit) :=
  moves_bind (moves_read _) fun _ => moves_onlyIf fun _ => moves_bind (h.shared _) fun _ =>
    moves_bind h.clock fun _ => moves_onlyIf fun _ => h.setState _ _

end StateClosed

namespace StepClosed

variable (h : StepClosed R)

include h

theorem armBackoff : Moves R (armBackoff : WorkerProg W Unit) := by
  refine moves_bind (h.assign fun _ => rfl) fun _ =>
    moves_bind h.clock fun _ => moves_bind (fun s => h.armed s _)
      fun _ => moves_bind (moves_read _) fun _ => moves_onlyIf fun _ => h.setState _ _

theorem failLink (why : String) : Moves R (failLink why : WorkerProg W Unit) :=
  moves_bind h.release fun _ => moves_bind (h.setState _ _) fun _ => h.armBackoff

theorem giveUp (state : LinkState) (error : String) :
    Moves R (giveUp state error : WorkerProg W Unit) :=
  moves_bind (h.setState _ _) fun _ => h.armBackoff

theorem releaseAndGiveUp (state : LinkState) (error : String) :
    Moves R (releaseAndGiveUp state error : WorkerProg W Unit) :=
  moves_bind h.release fun _ => h.giveUp _ _

theorem connectSession (cfg : Config) (addr : Byte) :
    Moves R (connectSession cfg addr : WorkerProg W Unit) := by
  refine moves_bind (h.setState _ _) fun _ => moves_bind (moves_handle
    (moves_bind (moves_onLink (moves_connect h.oneShot _)) fun _ => moves_pure _) ?_) fun up =>
      moves_onlyIf fun _ => ?_
  · intro e k hk
    split_ifs at hk
    cases hk
    exact moves_bind (h.releaseAndGiveUp _ _) fun _ => moves_pure _
  · refine moves_bind (fun s => h.address s _ _) fun _ =>
      moves_bind (h.onConnected cfg) fun _ => moves_ite (fun _ => ?_) fun _ => ?_
    · exact moves_bind (moves_read _) fun _ => h.failLink _
    · exact moves_bind (h.assign fun _ => rfl) fun _ => h.setState _ _

theorem discoverSession (cfg : Config) : Moves R (discoverSession cfg : WorkerProg W Unit) := by
  refine moves_bind (h.clearStaleLinks cfg) fun _ => moves_bind (h.setState _ _) fun _ =>
    moves_bind (moves_handle (moves_bind (h.discover cfg) fun _ => moves_pure _) ?_) fun found => ?_
  · intro e k hk
    split_ifs at hk
    cases hk
    exact moves_bind (h.releaseAndGiveUp _ _) fun _ => moves_pure _
  · rcases found with _ | _ | addr
    · exact moves_pure _
    · exact h.releaseAndGiveUp _ _
    · exact h.connectSession cfg addr

variable [Clients W] in
/-- `_open_and_connect`, with each of its exits. -/
theorem openAndConnect (cfg : Config) : Moves R (openAndConnect cfg : WorkerProg W Unit) := by
  refine moves_bind (h.setState _ _) fun _ => moves_bind h.sync fun _ => moves_bind (moves_handle
    (moves_bind (h.openLink cfg) fun _ => moves_pure _) ?_) fun _ =>
      moves_onlyIf fun _ => h.discoverSession cfg
  intro e k hk
  split_ifs at hk
  cases hk
  exact moves_bind (h.giveUp _ _) fun _ => moves_pure _

theorem pollAlarms (cfg : Config) : Moves R (pollAlarms cfg : WorkerProg W Unit) := by
  refine moves_bind (moves_read _) fun a => moves_ensure (moves_onReset ?_
    (fun e _ => h.failLink _) fun _ _ => moves_pure _) fun s => h.parked s
  refine moves_bind (moves_getAlarmStatus (h.ret cfg a reports_nothing)) fun names =>
    moves_bind (fun s => h.report s names) fun _ => ?_
  exact moves_bind (moves_getTilt (h.ret cfg a reports_nothing)) fun _ =>
    h.assign fun _ => rfl

theorem keepaliveFrame (addr : Byte) (f : Rx) :
    Moves R (keepaliveFrame addr () f : WorkerProg W (Step Unit Unit)) := by
  unfold Session.keepaliveFrame
  refine moves_ite (fun _ => moves_pure _) fun _ => moves_bind (moves_onLink
    (moves_logEvent fun s ports n sh => h.wire (around s ports n sh) _ rfl)) fun _ =>
      moves_ite (fun _ => ?_) fun _ => moves_ite (fun _ => ?_) fun _ => moves_pure _
  · exact moves_bind (h.failLink _) fun _ => moves_pure _
  · refine moves_bind (moves_onLink (moves_read _)) fun p => moves_bind ?_ fun _ => moves_pure _
    exact moves_onlyIf fun hb => h.keepaliveTake addr p.vr f (by simpa using hb)

theorem keepalivePoll : Moves R (keepalivePoll : WorkerProg W Unit) := by
  refine moves_onOsOrAisg (moves_bind (moves_read _) fun held => moves_bind (moves_octet _) fun a =>
    moves_bind (moves_onLink (moves_read _)) fun p => moves_bind (h.onWrite _) fun _ =>
      moves_bind (h.onRead _) fun frames => moves_bind (moves_scan (fun _ f => ?_) _ _)
        fun _ => moves_pure _) fun e => h.failLink _
  exact h.keepaliveFrame a f

theorem drain (cfg : Config) : Moves R (drain cfg : WorkerProg W Unit) := by
  refine moves_bind h.clock fun now => moves_bind (moves_onOsOrAisg (moves_bind
    (moves_loop (fun _ => h.drainPass _) _ _) fun _ => moves_pure _) fun e => ?_) fun _ =>
      moves_onlyIf fun _ => h.setState _ _
  exact moves_bind (h.failLink _) fun _ => moves_pure _

theorem keepOrRelease (cfg : Config) (now : Time) :
    Moves R (keepOrRelease cfg now : WorkerProg W Unit) := by
  unfold Session.keepOrRelease
  refine moves_ite (fun _ => ?_) fun _ => ?_
  · refine moves_bind (moves_read _) fun _ => moves_onlyIf fun _ => moves_bind ?_ fun _ =>
      h.keepalivePoll
    exact h.assign fun _ => rfl
  · exact moves_bind (moves_read _) fun _ => moves_onlyIf fun _ => h.giveBack

variable [Clients W] in
theorem connectedHousekeeping (cfg : Config) (now : Time) :
    Moves R (connectedHousekeeping cfg now : WorkerProg W Unit) := by
  refine moves_bind (moves_read _) fun wk => moves_ite (fun _ => ?_) fun _ => h.keepOrRelease _ _
  refine moves_bind (h.assign fun _ => rfl) fun _ =>
    moves_bind (h.pollAlarms cfg) fun _ => moves_ite (fun _ => ?_) fun _ => h.keepOrRelease _ _
  exact moves_bind (h.shared _) fun _ =>
    moves_ite (fun _ => h.giveBack) fun _ => h.keepOrRelease _ _

variable [Clients W] in
/-- What the machine does in each state. -/
theorem stepState (cfg : Config) (now : Time) : Moves R (stepState cfg now : WorkerProg W Unit) := by
  have hopen : Moves R (do
      let wanted ← Session.shouldOpen cfg now
      onlyIf wanted (Session.openAndConnect cfg) : WorkerProg W Unit) :=
    moves_bind (h.shouldOpen _ _) fun _ => moves_onlyIf fun _ => h.openAndConnect cfg
  refine moves_bind (moves_read _) fun wk => ?_
  cases wk.state with
  | closed | portBusy | portLost | noDevices => exact hopen
  | backoff => exact moves_onlyIf fun _ => h.setState _ _
  | draining => exact h.drain cfg
  | connected => exact h.connectedHousekeeping cfg now
  | opening | discovering | connecting | releasing | leased | shutdown => exact moves_pure _

variable [Clients W] in
/-- One step, whatever the state. -/
theorem step (cfg : Config) : Moves R (step cfg : WorkerProg W Unit) := by
  refine moves_bind h.clock fun now => moves_bind (h.shared _) fun _ =>
    moves_bind (moves_read _) fun _ => moves_ite (fun _ => ?_) fun _ => ?_
  · exact moves_bind (moves_onlyIf fun _ => h.release) fun _ => h.setState _ _
  · exact moves_bind (moves_onlyIf fun _ => h.setState _ _) fun _ => h.stepState cfg now

theorem lastResort : Moves R (lastResort : WorkerProg W Unit) :=
  moves_bind (h.failLink _) fun _ => h.pause _

end StepClosed

/-! ## The futures and the queue -/

/-- What a future is resolved with: a result or an `AisgError`, for `_execute` catches nothing
else before it resolves one. -/
def Answer : Except Exn Result → Prop
  | .ok _ => True
  | .error e => e.isAisg = true

variable [Clients W]

/-- What the methods about the futures are made of.  Each is taken as a whole, since what it keeps
depends on the state in which it finds the future. -/
structure FutureClosed (R : St W → St W → Prop) : Prop extends QuietClosed R where
  claim : ∀ seq, Moves R (claim seq : WorkerProg W Bool)
  resolve : ∀ seq o, Answer o → Moves R (resolve seq o : WorkerProg W Unit)

/-- What the methods about the futures, the queue and `head` are made of: the steps of a future,
taking the smallest command, and writing `head`. -/
structure QueueClosed (R : St W → St W → Prop) : Prop extends FutureClosed R where
  pop : Moves R (pop : WorkerProg W (Option Command))
  setHead : ∀ c, Moves R (setHead c : WorkerProg W Unit)

/-- What a command is executed with, once it is taken. -/
structure CommandClosed (R : St W → St W → Prop) : Prop extends StepClosed R, FutureClosed R

/-- All of it. -/
structure PassClosed (R : St W → St W → Prop) : Prop extends CommandClosed R, QueueClosed R

namespace QuietClosed

variable (h : QuietClosed R)

include h

/-- `set_running_or_notify_cancel` writes one future. -/
theorem claim (hf : ∀ s n f, R s { s with shared := s.shared.setFuture n f }) (seq : ℕ) :
    Moves R (claim seq : WorkerProg W Bool) := by
  refine moves_bind (h.shared _) fun f => ?_
  cases f.state with
  | pending | cancelled => exact moves_bind (fun s => hf s seq _) fun _ => moves_pure _
  | running | notified | finished => exact moves_raise _

/-- So do `set_result` and `set_exception`. -/
theorem resolve (hf : ∀ s n f, R s { s with shared := s.shared.setFuture n f }) (seq : ℕ)
    (o : Except Exn Result) : Moves R (resolve seq o : WorkerProg W Unit) := by
  refine moves_bind (h.shared _) fun f => ?_
  cases f.state with
  | pending | running => exact fun s => hf s seq _
  | cancelled | notified | finished => exact moves_raise _

/-- `get_nowait` writes the queue. -/
theorem pop (hq : ∀ s q, R s { s with shared := { s.shared with queue := q } }) :
    Moves R (pop : WorkerProg W (Option Command)) := by
  refine moves_bind h.sync fun _ s => ?_
  dsimp only
  cases popMin s.shared.queue with
  | none => exact Std.Refl.refl _
  | some r => exact hq s r.2

/-- A relation that does not look at the shared variables nor at `head`. -/
theorem queueClosed (hf : ∀ s sh, R s { s with shared := sh })
    (hh : ∀ s c, R s { s with wk := { s.wk with head := c } }) : QueueClosed R where
  toQuietClosed := h
  claim := h.claim fun s _ _ => hf s _
  resolve seq o _ := h.resolve (fun s _ _ => hf s _) seq o
  pop := h.pop fun s _ => hf s _
  setHead c s := hh s c

end QuietClosed

namespace FutureClosed

variable (h : FutureClosed R)

include h

/-- `_abandon`. -/
theorem abandon (cmd : Command) {e : Exn} (he : e.isAisg = true) :
    Moves R (abandon cmd e : WorkerProg W Unit) :=
  moves_bind (h.claim _) fun _ => moves_onlyIf fun _ => h.resolve _ _ he

end FutureClosed

namespace QueueClosed

variable (h : QueueClosed R)

include h

/-- `_take`: the other threads have their turn, and a command may leave the queue. -/
theorem take (cfg : Config) : Moves R (take cfg : WorkerProg W (Option Command)) := by
  refine moves_bind (moves_read _) fun _ => moves_ite (fun _ => moves_raise _) fun _ =>
    moves_bind h.pop fun c => ?_
  cases c with
  | some c => exact moves_pure _
  | none => exact moves_bind (h.pause _) fun _ => h.pop

/-- Each round of the loop of `_teardown` fails one command. -/
theorem flushQueue (cfg : Config) : Moves R (flushQueue cfg : WorkerProg W Unit) := by
  refine moves_loop (fun _ => moves_bind h.pop fun c => ?_) _ _
  cases c with
  | none => exact moves_pure _
  | some cmd => exact moves_bind (h.abandon cmd rfl) fun _ => moves_pure _

end QueueClosed

/-! ## A command -/

namespace CommandClosed

variable (h : CommandClosed R)

include h

/-- The `try` of `_execute`.  Only an `AisgError` is caught, so only such errors resolve the
future, and device data that is stored was swept in this very call. -/
theorem runCommand (cfg : Config) (cmd : Command) (a : Option Byte) :
    Moves R (runCommand cfg cmd a : WorkerProg W Unit) := by
  have hs := h.toStepClosed
  have hcall : Moves R (do
      let x ← callCommand (Session.ret cfg a (onPoll cmd.name)) cmd.name cmd.args
      pure (some x) : WorkerProg W (Option Result)) := by
    refine moves_bind ?_ fun _ => moves_pure _
    exact moves_callCommand (hs.ret cfg a (Books.onPoll cmd.name)) _ _
  have hfail : ∀ e : Exn, e.isAisg = true → Moves R (do
      Session.resolve cmd.seq (.error e)
      pure none : WorkerProg W (Option Result)) :=
    fun e he => moves_bind (h.resolve _ _ he) fun _ => moves_pure _
  have hnote : ∀ e : Exn, Moves R
      (Session.update fun wk => { wk with lastError := e.str } : WorkerProg W Unit) :=
    fun e => hs.assign fun _ => rfl
  refine moves_bind_of (moves_onReset hcall (fun e he => ?_) fun e he => ?_)
    ((logging_ret cfg a (onPoll cmd.name)).handled fun e c hc => ?_) fun result s hd => ?_
  · -- the link was reset
    exact moves_bind (hnote e) fun _ => moves_bind (hs.failLink _) fun _ => hfail e he
  · -- any other `AisgError`
    refine moves_bind (hnote e) fun _ => moves_bind ?_ fun _ => hfail e he
    exact moves_onlyIf fun _ => hs.setState _ _
  · -- a handler has no result to absorb
    have hthen : ∀ {α : Type} {c : WorkerProg W α} {f : α → WorkerProg W (Option Result)},
        (∀ a t, wp (f a) (fun x _ => x = none) (fun _ _ => True) (fun _ => True) t) →
        ∀ t, wp (c >>= f) (fun x _ => x = none) (fun _ _ => True) (fun _ => True) t :=
      fun hf t => (wp_bind _ _).2 (wp_any hf (fun _ _ => trivial) (fun _ => trivial) t)
    unfold Session.onReset at hc
    split_ifs at hc <;> cases hc
    all_goals exact hthen fun _ => hthen fun _ => hthen fun _ _ => rfl
  · cases result with
    | none => exact Std.Refl.refl _
    | some x =>
        have habsorb : R s (absorb x s).2 :=
          hs.absorb fun d hx => hs.stored s d (hd d (congrArg some hx))
        exact moves_bind_at (P := fun _ _ => True) habsorb
          (wp_any (fun _ _ => trivial) (fun _ _ => trivial) (fun _ => trivial) s)
          fun _ t _ => h.resolve cmd.seq (.ok x) trivial t

/-- `_execute`, around the `try`. -/
theorem execute (cfg : Config) (cmd : Command) : Moves R (execute cfg cmd : WorkerProg W Unit) := by
  have hs := h.toStepClosed
  refine moves_bind (moves_read _) fun a => moves_bind (hs.noteTarget cmd) fun _ => ?_
  exact moves_ensure (h.runCommand cfg cmd a) hs.wrapUp

/-- The first half of `_try_execute`. -/
theorem attempt (cmd : Command) : Moves R (attempt cmd : WorkerProg W Verdict) := by
  have hs := h.toStepClosed
  unfold Session.attempt
  refine moves_bind hs.refreshLease fun _ => moves_bind (moves_read _) fun state => ?_
  refine moves_ite (fun _ => ?_) fun _ => moves_ite (fun _ => ?_) fun _ => ?_
  · -- CONNECTED: the caller is told that the command runs
    exact moves_bind (h.claim _) fun _ => moves_pure _
  · -- a state that cannot come up soon
    refine moves_bind (moves_read _) fun error => ?_
    exact moves_bind (h.abandon cmd rfl) fun _ => moves_pure _
  · -- the command waits for the link, until its deadline
    refine moves_bind hs.clock fun now => moves_ite (fun _ => ?_) fun _ => ?_
    · exact moves_bind (h.abandon cmd rfl) fun _ => moves_pure _
    · exact moves_bind (hs.assign fun _ => rfl) fun _ => moves_pure _

end CommandClosed

/-! ## A whole pass -/

/-- A relation that looks neither at the shared variables nor at `head` needs only the steps of the
state machine. -/
theorem StepClosed.passClosed (h : StepClosed R) (hf : ∀ s sh, R s { s with shared := sh })
    (hh : ∀ s c, R s { s with wk := { s.wk with head := c } }) : PassClosed R :=
  { h, h.toQuietClosed.queueClosed hf hh with }

namespace PassClosed

variable (h : PassClosed R)

include h

/-- The first half of a pass. -/
theorem dispatch (cfg : Config) : Moves R (dispatch cfg : WorkerProg W Verdict) := by
  refine moves_bind h.refreshLease fun _ => moves_bind (moves_read _) fun _ => ?_
  refine moves_bind (moves_onlyIf fun _ => ?_) fun _ => moves_bind (moves_read _) fun head => ?_
  · exact moves_bind (h.toQueueClosed.take cfg) fun c => h.setHead c
  · cases head with
    | none => exact moves_pure _
    | some cmd => exact h.attempt cmd

/-- The second half. -/
theorem finish (cfg : Config) (v : Verdict) : Moves R (finish cfg v : WorkerProg W Unit) := by
  cases v with
  | execute cmd => exact moves_bind (h.execute cfg cmd) fun _ => h.setHead none
  | finished => exact h.setHead none
  | goOn => exact h.step cfg

/-- Both of them. -/
theorem passBody (cfg : Config) : Moves R (passBody cfg : WorkerProg W Unit) := by
  rw [passBody_eq]
  exact moves_bind (h.dispatch cfg) fun v => h.finish cfg v

/-- `_teardown`: hang up, release the port, fail what is left in the queue. -/
theorem teardown (cfg : Config) : Moves R (teardown cfg : WorkerProg W Unit) :=
  moves_bind (h.toQueueClosed.flushQueue cfg) fun _ => h.release

/-- The pass, with the handler that catches whatever it raises. -/
theorem loopPass (cfg : Config) : Moves R (loopPass cfg : WorkerProg W Unit) := by
  refine moves_bind h.clock fun _ => moves_bind (h.assign fun _ => rfl) fun _ => ?_
  refine moves_handle (h.passBody cfg) fun e k hk => ?_
  cases hk
  exact h.lastResort

/-- **The walk.**  Every pass of `run` respects the relation. -/
theorem runPass (cfg : Config) : Moves R (runPass cfg : WorkerProg W Bool) := by
  refine moves_bind (h.shared _) fun _ => moves_ite (fun _ => ?_) fun _ => ?_
  · refine moves_bind (h.teardown cfg) fun _ => ?_
    exact moves_bind (h.setState _ _) fun _ => moves_pure _
  · exact moves_bind (h.loopPass cfg) fun _ => moves_pure _

/-- The same of a whole run. -/
theorem run {cfg : Config} {s t : St W} (hr : Relation.ReflTransGen (Pass cfg) s t) : R s t := by
  induction hr with
  | refl => exact Std.Refl.refl _
  | @tail t u _ hp ih =>
      have hu := h.runPass cfg t
      rw [hp] at hu
      exact IsTrans.trans _ _ _ ih hu

end PassClosed

end Steps

end OpenAisg.Session
