import OpenAisg.Session.State

/-!
# The methods of `SerialWorker`

A translation of `openaisg/session.py`, method by method and in the order in
which they call each other: the shared variables, the link, the device, the entry
actions, monitoring, command execution.  `OpenAisg.Session.Run` adds `run`.

* `sync`, `shared` — an access to a shared variable, before which the other threads
  have their turn.
* `onLink` — a call of a method of the link object.  Without one it raises the
  `AttributeError` of `None`, which nothing but the catch-all handler of `run` takes.
* `onReset`, `onOsOrAisg` — two of the three ways in which the source writes its
  handlers; the third is `onAisg` of the one-shot path.
* `claim`, `resolve` — the two steps in the life of a future that the worker takes.
* `openAndConnect`, `connectedHousekeeping`, `drain` — what each state of the machine
  does, with the methods they call before them.
* `execute`, `tryExecute` — a command, from the test of the state to its outcome.
-/

namespace OpenAisg.Session

open Hdlc Link Retap Prog

variable {W : Type} [Line W] [Clients W]

/-! ## Building blocks -/

/-- `time.monotonic()`. -/
def clock : WorkerProg W Time := fun s =>
  (.ret (Line.monotonic s.world).1, { s with world := (Line.monotonic s.world).2 })

/-- `time.sleep`, and a wait for the queue that nothing ends. -/
def pause (d : Time) : WorkerProg W Unit :=
  Prog.modify fun s => { s with world := Line.sleep d s.world }

/-- Let the other threads run up to this access to a shared variable. -/
def sync : WorkerProg W Unit :=
  Prog.modify fun s => { s with
    world := (Clients.others s.world).2
    shared := (Clients.others s.world).1.foldl Shared.apply s.shared }

/-- Read a shared variable. -/
def shared {α : Type} (f : Shared → α) : WorkerProg W α := do
  sync
  Prog.read fun s => f s.shared

/-- Read an attribute of the worker. -/
def self {α : Type} (f : Worker → α) : WorkerProg W α := Prog.read fun s => f s.wk

/-- Write attributes of the worker. -/
def update (f : Worker → Worker) : WorkerProg W Unit :=
  Prog.modify fun s => { s with wk := f s.wk }

/-- Call a method of `self.link`. -/
def onLink {α : Type} (c : LinkProg W Worker α) : WorkerProg W α := fun s =>
  match s.link with
  | none => (.raise (.py .attributeError "'NoneType' object has no attribute"), s)
  | some l =>
      let r := c ⟨s.world, l, s.log, s.wk⟩
      (r.1, { s with
        world := r.2.world, link := some r.2.link, log := r.2.log, wk := r.2.user })

/-- `bytes([addr, …])` of an address that may be `None`. -/
def octet : Option Byte → WorkerProg W Byte
  | some a => pure a
  | none => raise (.py .typeError "'NoneType' object cannot be interpreted as an integer")

/-- `except LinkReset as e: d e`, before `except AisgError as e: d' e`. -/
def onReset {α : Type} (d d' : Exn → WorkerProg W α) (e : Exn) : Option (WorkerProg W α) :=
  if e.isReset then some (d e) else if e.isAisg then some (d' e) else none

/-- `except (OSError, AisgError) as e: d e`. -/
def onOsOrAisg {α : Type} (d : Exn → WorkerProg W α) (e : Exn) : Option (WorkerProg W α) :=
  if e.isOsOrAisg then some (d e) else none

/-- `_set_state`. -/
def setState (state : LinkState) (error : String := "") : WorkerProg W Unit :=
  update fun wk => wk.setState state error

section Wp

variable {E : Exn → St W → Prop} {S : St W → Prop} {s : St W}

omit [Clients W] in
@[simp] theorem wp_clock {Q : Time → St W → Prop} :
    wp clock Q E S s ↔
      Q (Line.monotonic s.world).1 { s with world := (Line.monotonic s.world).2 } := Iff.rfl

omit [Clients W] in
@[simp] theorem wp_pause {d : Time} {Q : Unit → St W → Prop} :
    wp (pause d) Q E S s ↔ Q () { s with world := Line.sleep d s.world } := Iff.rfl

omit [Line W] in
@[simp] theorem wp_sync {Q : Unit → St W → Prop} :
    wp sync Q E S s ↔ Q () { s with
      world := (Clients.others s.world).2
      shared := (Clients.others s.world).1.foldl Shared.apply s.shared } := Iff.rfl

omit [Line W] in
@[simp] theorem wp_shared {α : Type} {f : Shared → α} {Q : α → St W → Prop} :
    wp (shared f) Q E S s ↔ Q (f ((Clients.others s.world).1.foldl Shared.apply s.shared)) { s with
      world := (Clients.others s.world).2
      shared := (Clients.others s.world).1.foldl Shared.apply s.shared } := Iff.rfl

omit [Line W] [Clients W] in
@[simp] theorem wp_self {α : Type} {f : Worker → α} {Q : α → St W → Prop} :
    wp (self f) Q E S s ↔ Q (f s.wk) s := Iff.rfl

omit [Line W] [Clients W] in
@[simp] theorem wp_update {f : Worker → Worker} {Q : Unit → St W → Prop} :
    wp (update f) Q E S s ↔ Q () { s with wk := f s.wk } := Iff.rfl

omit [Line W] [Clients W] in
@[simp] theorem wp_setState {state : LinkState} {error : String} {Q : Unit → St W → Prop} :
    wp (setState state error) Q E S s ↔ Q () { s with wk := s.wk.setState state error } := Iff.rfl

/-- The state of the worker around a method of the link object. -/
def around (a : LinkSt W Worker) (ports : List ℕ) (nextIdent : ℕ) (sh : Shared) : St W :=
  { world := a.world, log := a.log, link := some a.link, ports := ports
    nextIdent := nextIdent, shared := sh, wk := a.user }

omit [Line W] [Clients W] in
/-- A method of the link object, as the worker runs it. -/
theorem wp_onLink {α : Type} {c : LinkProg W Worker α} {Q : α → St W → Prop}
    (hnone : s.link = none → ∀ e : Exn, e.isReset = false → E e s)
    (hsome : ∀ l, s.link = some l → wp c (fun a b => Q a (around b s.ports s.nextIdent s.shared))
      (fun e b => E e (around b s.ports s.nextIdent s.shared))
      (fun b => S (around b s.ports s.nextIdent s.shared)) ⟨s.world, l, s.log, s.wk⟩) :
    wp (onLink c) Q E S s := by
  cases hl : s.link with
  | none =>
      have h := hnone hl (.py .attributeError "'NoneType' object has no attribute") rfl
      simpa [wp, onLink, hl] using h
  | some l =>
      have h := hsome l hl
      unfold wp at h ⊢
      simp only [onLink, hl]
      rcases hc : c ⟨s.world, l, s.log, s.wk⟩ with ⟨o, b⟩
      rw [hc] at h
      cases o <;> exact h

end Wp

/-! ## Futures -/

/-- `future.set_running_or_notify_cancel()`: it raises on a future that has been claimed before.
`false` says that the client has cancelled the command. -/
def claim (seq : ℕ) : WorkerProg W Bool := do
  let f ← shared fun sh => sh.futures seq
  match f.state with
  | .pending => do
      Prog.modify fun s => { s with
        shared := s.shared.setFuture seq { f with state := .running } }
      pure true
  | .cancelled => do
      Prog.modify fun s => { s with
        shared := s.shared.setFuture seq { f with state := .notified } }
      pure false
  | _ => raise (.py .runtimeError "Future in unexpected state")

/-- `future.set_result` and `future.set_exception`: a future is resolved once. -/
def resolve (seq : ℕ) (outcome : Except Exn Result) : WorkerProg W Unit := do
  let f ← shared fun sh => sh.futures seq
  match f.state with
  | .pending | .running =>
      Prog.modify fun s => { s with
        shared := s.shared.setFuture seq
          { state := .finished, outcome := some outcome, resolved := f.resolved + 1 } }
  | _ => raise (.py .invalidState "invalid state")

/-- `_abandon`. -/
def abandon (cmd : Command) (exc : Exn) : WorkerProg W Unit := do
  let claimed ← claim cmd.seq
  onlyIf claimed (resolve cmd.seq (.error exc))

/-! ## Opening and releasing the link -/

/-- `self.link = AisgLink(self.port, …)`.  When the constructor raises, the worker
gets no link object. -/
def openLink (cfg : Config) : WorkerProg W Unit := fun s =>
  match Line.serialOpen s.world with
  | (.error e, w) => (.raise (openError cfg.port e), { s with world := w })
  | (.ok (), w) =>
      match (Line.setDtr w : Outcome String Unit × W) with
      | (.raise msg, w') => (.raise (.osError msg), { s with world := w' })
      | (.stall, w') => (.stall, { s with world := w' })
      | (.ret (), w') => (.ret (), { s with
          world := w'
          link := some { ident := s.nextIdent }
          ports := s.nextIdent :: s.ports
          nextIdent := s.nextIdent + 1 })

/-- `self.link.close()`. -/
def closeLink : WorkerProg W Unit := do
  Prog.modify fun s => { s with ports := s.ports.filter fun i => some i ≠ s.link.map (·.ident) }
  onLink (portOp Line.serialClose [])

/-- `_arm_backoff`. -/
def armBackoff : WorkerProg W Unit := do
  update fun wk => { wk with backoff := min (wk.backoff * 2) (ms 60000) }
  let now ← clock
  update fun wk => { wk with backoffUntil := now + wk.backoff }
  let state ← self (·.state)
  onlyIf (state ∉ [.portBusy, .portLost, .noDevices]) (setState .backoff)

/-- `_release`. -/
def release : WorkerProg W Unit := do
  let link ← Prog.read (·.link)
  onlyIf link.isSome do
    setState .releasing
    handle (do
      match ← self (·.address) with
      | some a => onLink (disconnect a)
      | none => pure ()) (onOsOrAisg fun _ => pure ())
    handle closeLink fun e => match e with
      | .osError _ => some (pure ())
      | _ => none
    Prog.modify fun s => { s with link := none }

/-- `_fail_link`: release the port and go to BACKOFF.  The DISC of the release may raise what no
handler takes. -/
def failLink (why : String) : WorkerProg W Unit := do
  release
  setState .backoff why
  armBackoff

/-! ## The device -/

/-- The `exchange` that `SerialTransport.request` asks for. -/
def sessionCall (onPoll : ℕ → Bool → Worker → Worker) (addr : Byte) (message : Bytes)
    (timeout : Time) : Call Worker :=
  { addr := addr, message := message, timeout := timeout
    router := retapRouter message.head?
    onPoll := onPoll
    onIndication := Worker.queueIndication }

/-- `SerialTransport.request` at an address, which may be `None`. -/
def transport (cfg : Config) (onPoll : ℕ → Bool → Worker → Worker) (addr : Option Byte)
    (message : Bytes) (timeout : Time) : WorkerProg W Bytes := do
  let a ← octet addr
  onLink (exchange cfg.fuel (sessionCall onPoll a message timeout))

/-- `Ret(transport, self.address)`; commands pass their own `onPoll`. -/
def ret (cfg : Config) (addr : Option Byte) (onPoll : ℕ → Bool → Worker → Worker :=
    fun _ _ wk => wk) : Ret (St W) :=
  { request := transport cfg onPoll addr }

/-- `_sweep_device_data`: fields `fid … fid + n - 1`, an `AisgError` skipping one. -/
def sweepFrom (r : Ret (St W)) : ℕ → ℕ → WorkerProg W (List (String × String))
  | _, 0 => pure []
  | fid, n + 1 => do
      let d ← handle (do
        let d ← r.getDeviceData fid
        pure [(hex2 (BitVec.ofNat 8 fid), hexSp d)]) (onAisg (pure []))
      let rest ← sweepFrom r (fid + 1) n
      pure (d ++ rest)

/-- `_sweep_device_data`. -/
def sweepDeviceData (r : Ret (St W)) (last : ℕ := 0x0B) :
    WorkerProg W (List (String × String)) :=
  sweepFrom r 1 last

/-- `_set_tilt`, once `round(degrees * 10)` is known. -/
def setTiltCommand (r : Ret (St W)) (units : ℤ) : WorkerProg W ℚ := do
  r.setTiltUnits units
  r.getTilt

/-! ## Connecting -/

/-- The addresses of `_clear_stale_links`, as a set in its iteration order. -/
def staleAddresses (cfg : Config) (held : Option Byte) : List ℕ :=
  match held with
  | none => [cfg.firstAddress]
  | some a =>
      if a.toNat = cfg.firstAddress then [a.toNat]
      else if cfg.heldFirst then [a.toNat, cfg.firstAddress]
      else [cfg.firstAddress, a.toNat]

/-- `_clear_stale_links`. -/
def clearStaleLinks (cfg : Config) : WorkerProg W Unit := do
  let held ← self (·.address)
  forEach (fun addr => handle (do
    let a ← ofExcept (pyByte addr)
    onLink (disconnect a (some (ms 300)))) (onAisg (pure ()))) (staleAddresses cfg held)
  update fun wk => { wk with address := none }

/-- The assignments of `_discover`: `first + i` to the `i`-th device. -/
def assignAll : ℕ → List Device → WorkerProg W (List Device)
  | _, [] => pure []
  | addr, dev :: devs => do
      let dev' ← onLink (assignAddress dev addr)
      let rest ← assignAll (addr + 1) devs
      pure (dev' :: rest)

/-- `_discover`: the devices without an address are given one, and if there are none, somebody is
looked for who holds one already.  The first device found is the one to talk to. -/
def discover (cfg : Config) : WorkerProg W (Option Byte) := do
  let devices ← onLink scanBus
  match devices with
  | _ :: _ => do
      let devices ← assignAll cfg.firstAddress devices
      update fun wk => { wk with device := devices.head? }
      pure (devices.head?.bind (·.address))
  | [] => do
      let found ← onLink (scanAssigned cfg.firstAddress cfg.probeCount)
      forEach (fun dev => match dev.address with
        | some a => handle (onLink (disconnect a)) (onAisg (pure ()))
        | none => pure ()) found.tail
      pure (found.head?.bind (·.address))

/-- The words of a rejected AlarmSubscribe that are remembered. -/
def permanentRejections : List String := ["UnknownProcedure", "UnsupportedProcedure"]

/-- `k in text`. -/
def isSubstring (k text : String) : Bool := text.toList.tails.any fun t => k.toList.isPrefixOf t

/-- `_subscribe`.  A rejection that names one of two return codes is remembered, and monitoring
polls from then on. -/
def subscribe (r : Ret (St W)) : WorkerProg W AlarmMode := do
  let unsupported ← self (·.subscribeUnsupported)
  if unsupported then pure .polled
  else handle (do r.alarmSubscribe; pure .subscribed) fun e =>
    if e.isAisg then some (do
      onlyIf (permanentRejections.any fun k => isSubstring k e.str)
        (update fun wk => { wk with subscribeUnsupported := true })
      pure .polled)
    else none

/-- The body of `_on_connected`. -/
def entryActions (r : Ret (St W)) : WorkerProg W Unit := do
  let identity ← self (·.identity)
  onlyIf (identity = []) do
    let d ← r.getInformation
    update fun wk => { wk with identity := d }
  let deviceData ← self (·.deviceData)
  onlyIf (deviceData = []) do
    let d ← sweepDeviceData r
    update fun wk => { wk with deviceData := d }
  let mode ← subscribe r
  update fun wk => { wk with alarmMode := mode }
  let names ← r.getAlarmStatus
  update fun wk => wk.baseline names
  let tilt ← r.getTilt
  update fun wk => { wk with tilt := some tilt }

/-- `_on_connected`: `false` when the link died during the entry actions. -/
def onConnected (cfg : Config) : WorkerProg W Bool := do
  let a ← self (·.address)
  handle (do entryActions (ret cfg a); pure true)
    (onReset (fun e => do
      update fun wk => { wk with lastError := e.str }
      pure false) fun _ => pure true)

/-- An exit of `_open_and_connect`: note the failure and arm the backoff. -/
def giveUp (state : LinkState) (error : String) : WorkerProg W Unit := do
  setState state error
  armBackoff

/-- The exits of `_open_and_connect` that have a port to give back. -/
def releaseAndGiveUp (state : LinkState) (error : String) : WorkerProg W Unit := do
  release
  giveUp state error

/-- The second half of `_open_and_connect`: connect and enter the session. -/
def connectSession (cfg : Config) (addr : Byte) : WorkerProg W Unit := do
  setState .connecting
  let up ← handle (do onLink (connect addr); pure true) fun e =>
    if e.isAisg then some (do releaseAndGiveUp .backoff e.str; pure false) else none
  onlyIf up do
    update fun wk => { wk with address := some addr, wantLink := false }
    let alive ← onConnected cfg
    if !alive then do
      let error ← self (·.lastError)
      failLink (if error = "" then "entry actions failed" else error)
    else do
      update fun wk => { wk with backoff := ms 1000 }
      setState .connected

/-- The first half of `_open_and_connect`: find a device on an open port. -/
def discoverSession (cfg : Config) : WorkerProg W Unit := do
  clearStaleLinks cfg
  setState .discovering
  let found ← handle (do let addr ← discover cfg; pure (some addr)) fun e =>
    if e.isAisg then some (do releaseAndGiveUp .backoff e.str; pure none) else none
  match found with
  | none => pure ()
  | some none =>
      releaseAndGiveUp .noDevices "no AISG devices answered (power feed? RS-485 wiring?)"
  | some (some addr) => connectSession cfg addr

/-- The state a failed `AisgLink()` leads to. -/
def openFailure : Exn → LinkState
  | .portBusy _ => .portBusy
  | .portLost _ => .portLost
  | _ => .backoff

/-- `_open_and_connect`. -/
def openAndConnect (cfg : Config) : WorkerProg W Unit := do
  setState .opening
  -- other threads run up to the opening of the port
  sync
  let up ← handle (do openLink cfg; pure true) fun e =>
    if e.isAisg then some (do giveUp (openFailure e) e.str; pure false) else none
  onlyIf up (discoverSession cfg)

/-! ## Monitoring -/

/-- `_poll_alarms`. -/
def pollAlarms (cfg : Config) : WorkerProg W Unit := do
  let a ← self (·.address)
  ensure (handle (do
      let names ← (ret cfg a).getAlarmStatus
      update fun wk => wk.report names
      let tilt ← (ret cfg a).getTilt
      update fun wk => { wk with tilt := some tilt })
    (onReset (fun e => failLink e.str) fun _ => pure ()))
    (update Worker.drainIndications)

/-- An in-sequence I-frame of `_keepalive_poll`. -/
def keepaliveTake (addr : Byte) (vr : Seq) (f : Rx) : WorkerProg W Unit := do
  onLink (do
    logEvent (.taken .keepalive vr f)
    setPeer addr fun p => { p with vr := nsOf f.ctrl + 1 }
    write (rrFrame addr (nsOf f.ctrl + 1) false))
  onlyIf (isIndication f.payload) (update (Worker.heed · f.payload))

/-- What `_keepalive_poll` does with one frame; `done` is its early return. -/
def keepaliveFrame (addr : Byte) (_ : Unit) (f : Rx) : WorkerProg W (Step Unit Unit) :=
  if f.addr ≠ addr then pure (.next ())
  else do
    onLink (logEvent (.rx .keepalive f))
    if isReset f.ctrl then do
      failLink "DM/FRMR on keepalive"
      pure (.done ())
    else if kind f.ctrl = .iFrame then do
      let p ← onLink (peer addr)
      onlyIf (nsOf f.ctrl = p.vr) (keepaliveTake addr p.vr f)
      pure (.next ())
    else pure (.next ())

/-- `_keepalive_poll`. -/
def keepalivePoll : WorkerProg W Unit :=
  handle (do
    let held ← self (·.address)
    let a ← octet held
    let p ← onLink (peer a)
    onLink (write (rrFrame a p.vr))
    let frames ← onLink (readFrames (ms 200))
    let _ ← scan (keepaliveFrame a) () frames
    pure ()) (onOsOrAisg fun e => failLink e.str)

/-- An I-frame of `_drain`: acknowledged, whatever its N(S), and dropped.  An indication in it is
lost. -/
def drainTake {υ : Type} (f : Rx) : LinkProg W υ Unit := do
  logEvent (.rx .drain f)
  let p ← peer f.addr
  logEvent (.taken .drain p.vr f)
  setPeer f.addr fun p => { p with vr := nsOf f.ctrl + 1 }
  write (rrFrame f.addr (nsOf f.ctrl + 1))

/-- What `_drain` does with one frame. -/
def drainFrame (f : Rx) : WorkerProg W Unit := do
  let held ← self (·.address)
  onlyIf (held = some f.addr && kind f.ctrl = .iFrame) (onLink (drainTake f))

/-- One pass of the `while` of `_drain`. -/
def drainPass (end_ : Time) (_ : Unit) : WorkerProg W (Step Unit Unit) := do
  let now ← clock
  if now < end_ then do
    let frames ← onLink (readFrames (ms 200))
    if frames = [] then pure (.done ())
    else do
      forEach drainFrame frames
      pure (.next ())
  else pure (.done ())

/-- `_drain`. -/
def drain (cfg : Config) : WorkerProg W Unit := do
  let now ← clock
  let quiet ← handle (do
      loop (drainPass (now + ms 1500)) cfg.fuel ()
      pure true) (onOsOrAisg fun e => do
    failLink e.str
    pure false)
  onlyIf quiet (setState .connected)

/-- `release` and go to CLOSED. -/
def giveBack : WorkerProg W Unit := do
  release
  setState .closed

/-- What follows the alarm poll in `_connected_housekeeping`. -/
def keepOrRelease (cfg : Config) (now : Time) : WorkerProg W Unit :=
  if cfg.monitor = .continuous then do
    let last ← self (·.lastKeepaliveAt)
    onlyIf (cfg.keepalive ≤ now - last) do
      update fun wk => { wk with lastKeepaliveAt := now }
      keepalivePoll
  else do
    let busyAt ← self fun wk => max wk.lastCommandAt wk.lastMonitorAt
    onlyIf (cfg.monitor = .off && cfg.idleRelease ≤ now - busyAt) giveBack

/-- `_connected_housekeeping`. -/
def connectedHousekeeping (cfg : Config) (now : Time) : WorkerProg W Unit := do
  let wk ← self id
  let late := decide (cfg.monitorPeriod ≤ now - wk.lastMonitorAt)
  if late && (cfg.monitor = .dutyCycled ||
      (cfg.monitor = .continuous && wk.alarmMode = .polled)) then do
    update fun wk => { wk with lastMonitorAt := now }
    pollAlarms cfg
    if cfg.monitor = .dutyCycled then do
      let empty ← shared (·.queue.isEmpty)
      if empty then giveBack else keepOrRelease cfg now
    else keepOrRelease cfg now
  else keepOrRelease cfg now

/-! ## Executing commands -/

/-- `FAIL_FAST`. -/
def failFast : List LinkState :=
  [.portBusy, .portLost, .noDevices, .backoff, .leased, .shutdown]

/-- `float(value)`; a missing argument is `None`. -/
def pyFloat : Option PyVal → Except Exn (Option ℚ)
  | some (.int n) =>
      if n.natAbs < 2 ^ 1024 - 2 ^ 970 then .ok (some n)
      else .error (.py .overflowError "int too large to convert to float")
  | some (.float q) => .ok (some q)
  | some .infinite | some .nan => .ok none
  | some (.other true) => .ok none
  | some (.other false) | none =>
      .error (.py .typeError "float() argument must be a string or a real number")

/-- `round(value * 10)`. -/
def pyRoundTenths : PyVal → Except Exn ℤ
  | .int n => .ok (n * 10)
  | .float q => .ok (pyRound (q * 10))
  | .infinite => .error (.py .overflowError "cannot convert float infinity to integer")
  | .nan => .error (.py .valueError "cannot convert float NaN to integer")
  | .other _ => .error (.py .typeError "type doesn't define __round__ method")

/-- A call with arguments the function does not take. -/
def badCall {α : Type} : WorkerProg W α :=
  raise (.py .typeError "unexpected keyword argument")

/-- `fn(ret, **cmd.args)`. -/
def callCommand (r : Ret (St W)) (name : CommandName) (args : List (String × PyVal)) :
    WorkerProg W Result :=
  match name, args with
  | .getInformation, [] => do let d ← r.getInformation; pure (.information d)
  | .getTilt, [] => do let t ← r.getTilt; pure (.tilt t)
  | .getAlarmStatus, [] => do let names ← r.getAlarmStatus; pure (.alarms names)
  | .getDeviceData, [] => do let d ← sweepDeviceData r; pure (.deviceData d)
  | .getDeviceData, [("last", .int n)] => do
      let d ← sweepDeviceData r n.toNat
      pure (.deviceData d)
  | .setTilt, [("degrees", v)] => do
      let units ← ofExcept (pyRoundTenths v)
      let t ← setTiltCommand r units
      pure (.tilt t)
  | .clearAlarms, [] => do r.clearAlarms; pure .none
  | .calibrate, [] => do r.calibrate; pure .none
  | .selfTest, [] => do r.selfTest; pure .none
  | .reset, [] => do r.reset; pure .none
  | _, _ => badCall

/-- `snapshot`: what a client sees of the worker. -/
def snapshot : WorkerProg W Snapshot := do
  let sh ← shared id
  let now ← clock
  let link ← Prog.read (·.link)
  let wk ← self id
  pure { state := wk.state, alarmMode := wk.alarmMode, address := wk.address, tilt := wk.tilt
         targetTilt := wk.targetTilt, alarms := sorted wk.alarms.active, identity := wk.identity
         queueDepth := sh.queue.length, leasedFor := max 0 (sh.leaseUntil - now)
         lastError := wk.lastError, heartbeatAge := now - wk.heartbeat
         stats := link.map (·.stats) }

/-- The cached state a result goes to. -/
def Worker.store (wk : Worker) : Result → Worker
  | .information d => { wk with identity := d }
  | .tilt t => { wk with tilt := some t }
  | .deviceData d => { wk with deviceData := d }
  | .alarms names => wk.report names
  | .none => wk

/-- `_absorb`. -/
def absorb (result : Result) : WorkerProg W Unit := do
  update fun wk => wk.store result
  let snap ← snapshot
  update fun wk => wk.emit (.status snap)

/-- `on_poll` of `_execute`: a progress event every twenty polls. -/
def onPoll (name : CommandName) (polls : ℕ) (acked : Bool) (wk : Worker) : Worker :=
  if polls % 20 = 0 then wk.emit (.progress name polls acked) else wk

/-- The `try` of `_execute`, up to its `finally`. -/
def runCommand (cfg : Config) (cmd : Command) (a : Option Byte) : WorkerProg W Unit := do
  let result ← handle (do
      let x ← callCommand (ret cfg a (onPoll cmd.name)) cmd.name cmd.args
      pure (some x))
    (onReset (fun e => do
      update fun wk => { wk with lastError := e.str }
      failLink e.str
      resolve cmd.seq (.error e)
      pure none) fun e => do
      update fun wk => { wk with lastError := e.str }
      -- an acknowledged command may still be answered: quarantine the link
      onlyIf e.isAckedTimeout (setState .draining "late response expected")
      resolve cmd.seq (.error e)
      pure none)
  match result with
  | some x => do
      absorb x
      resolve cmd.seq (.ok x)
  | none => pure ()

/-- `_execute`: run the claimed command, and note the moment, whatever happens.  The future is
resolved by `runCommand`, unless what it raises is no `AisgError`. -/
def execute (cfg : Config) (cmd : Command) : WorkerProg W Unit := do
  let a ← self (·.address)
  onlyIf (cmd.name = .setTilt) do
    let target ← ofExcept (pyFloat (cmd.args.lookup "degrees"))
    update fun wk => { wk with targetTilt := target }
  ensure (runCommand cfg cmd a) do
    let now ← clock
    update fun wk => { wk with lastCommandAt := now }
    update Worker.drainIndications

/-- `_refresh_lease`. -/
def refreshLease : WorkerProg W Unit := do
  let state ← self (·.state)
  onlyIf (state = .leased) do
    let until_ ← shared (·.leaseUntil)
    let now ← clock
    onlyIf (until_ ≤ now) (setState .closed)

/-- `_try_execute`: `true` when the command is finished with.  In a state in which it cannot be
executed yet, the command waits or fails by its deadline. -/
def tryExecute (cfg : Config) (cmd : Command) : WorkerProg W Bool := do
  refreshLease
  let state ← self (·.state)
  if state = .connected then do
    let claimed ← claim cmd.seq
    onlyIf claimed (execute cfg cmd)
    pure true
  else if state ∈ failFast then do
    let error ← self (·.lastError)
    abandon cmd (.sessionError state error)
    pure true
  else do
    let now ← clock
    if cmd.linkDeadline < now then do
      abandon cmd (.sessionError state "timed out waiting for link")
      pure true
    else do
      update fun wk => { wk with wantLink := true }
      pure false

end OpenAisg.Session
