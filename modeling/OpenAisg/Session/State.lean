import OpenAisg.Session.Reports

/-!
# The state of the session worker

`SerialWorker` is one thread that owns the port; everything else talks to it
through a few shared variables.

* `Command`, `Future` — a queued command and the life of its future.
* `PyVal` — the values that clients pass as arguments, as far as they are told apart.
* `Shared`, `ClientCall`, `Clients` — the variables that other threads write, what
  they may do to them, and the scheduler: `Clients.others` says which calls of
  other threads fall before the worker's next access.
* `Worker` — the attributes only the worker thread writes, with the local
  variable `head` of `run`.
* `St` — all of it, with the world, the log and the link.

A statement about every world of a `Line` with `Clients` is one about every
interleaving of the worker with the other threads, at the granularity of the
worker's accesses to the shared variables.

Five components are a record of what happened and are read by no modelled
function: `Worker.emitted` (what `emit` was called with), `Worker.asked` (the calls
of `_set_state`), `Worker.heard` (the alarm reports, as they came in),
`Worker.indicated` and `Worker.silent` (the payloads and baselines the alarm tracker
was given), and `St.ports` (the ports opened and not yet closed).
-/

namespace OpenAisg.Session

open Link Retap

/-- `session.MonitorMode`. -/
inductive MonitorMode where
  | off
  | dutyCycled
  | continuous
  deriving DecidableEq, Repr

/-- `alarm_mode`. -/
inductive AlarmMode where
  | unknown
  | subscribed
  | polled
  deriving DecidableEq, Repr

/-- The arguments of `SerialWorker.__init__`, and the number of passes after which
a loop that waits for its environment counts as stalled. -/
structure Config where
  port : String := "/dev/ttyUSB0"
  monitor : MonitorMode := .dutyCycled
  monitorPeriod : Time := ms 60000
  keepalive : Time := ms 1000
  idleRelease : Time := ms 60000
  firstAddress : ℕ := 1
  probeCount : ℕ := 4
  /-- Which of two addresses a Python set yields first. -/
  heldFirst : Bool := true
  fuel : ℕ

/-! ## Commands -/

/-- The keys of `ALL_COMMANDS`. -/
inductive CommandName where
  | getInformation
  | getTilt
  | getAlarmStatus
  | getDeviceData
  | setTilt
  | clearAlarms
  | calibrate
  | selfTest
  | reset
  deriving DecidableEq, Repr

/-- A Python value, as far as the commands tell values apart. -/
inductive PyVal where
  | int (n : ℤ)
  | float (q : ℚ)
  /-- An infinity. -/
  | infinite
  | nan
  /-- Anything else; `floats` says whether `float()` accepts it. -/
  | other (floats : Bool)
  deriving DecidableEq

/-- `session.Command`, without its future (which `Shared.futures` holds). -/
structure Command where
  priority : ℕ
  seq : ℕ
  name : CommandName
  args : List (String × PyVal) := []
  linkDeadline : Time := 0
  deriving DecidableEq

/-- The order of the priority queue. -/
def Command.before (a b : Command) : Bool :=
  a.priority < b.priority || (a.priority = b.priority && a.seq < b.seq)

/-- What a command returns. -/
inductive Result where
  | information (d : List (String × String))
  | tilt (t : ℚ)
  | alarms (names : List String)
  | deviceData (d : List (String × String))
  | none
  deriving DecidableEq

/-- The states of a `concurrent.futures.Future`. -/
inductive FutureState where
  | pending
  | running
  | cancelled
  /-- `CANCELLED_AND_NOTIFIED`. -/
  | notified
  | finished
  deriving DecidableEq, Repr

/-- A future: its state, its outcome, and how often it was resolved. -/
structure Future where
  state : FutureState := .pending
  outcome : Option (Except Exn Result) := none
  resolved : ℕ := 0

/-- `Future.done()`. -/
def Future.done (f : Future) : Bool :=
  match f.state with
  | .cancelled | .notified | .finished => true
  | .pending | .running => false

/-! ## The variables other threads write -/

/-- `_q`, `_seq`, `_stop`, `_lease_until`, and the futures by sequence number.  A future that was
never handed out is a new one. -/
structure Shared where
  queue : List Command := []
  nextSeq : ℕ := 0
  stop : Bool := false
  leaseUntil : Time := 0
  futures : ℕ → Future := fun _ => {}

/-- A call another thread makes; `now` is the clock it read. -/
inductive ClientCall where
  | submit (name : CommandName) (args : List (String × PyVal)) (priority : ℕ)
      (now linkWait : Time)
  | lease (now seconds : Time)
  | unlease
  | stop
  /-- `Future.cancel()`. -/
  | cancel (seq : ℕ)

/-- Write one future. -/
def Shared.setFuture (sh : Shared) (seq : ℕ) (f : Future) : Shared :=
  { sh with futures := fun n => if n = seq then f else sh.futures n }

/-- `Future.cancel()`: only a future that has not been claimed can be cancelled. -/
def Future.cancel (f : Future) : Future :=
  match f.state with
  | .pending => { f with state := .cancelled }
  | _ => f

/-- What a call does.  `submit` numbers its command under the lock, so numbers are given out in
order. -/
def Shared.apply (sh : Shared) : ClientCall → Shared
  | .submit name args priority now linkWait =>
      { sh with
        queue := sh.queue ++ [⟨priority, sh.nextSeq, name, args, now + linkWait⟩]
        nextSeq := sh.nextSeq + 1
        futures := fun n => if n = sh.nextSeq then {} else sh.futures n }
  | .lease now seconds => { sh with leaseUntil := now + seconds }
  | .unlease => { sh with leaseUntil := 0 }
  | .stop => { sh with stop := true }
  | .cancel seq => sh.setFuture seq (sh.futures seq).cancel

/-- The other threads: what they do before the worker's next access to a shared variable.  Nothing
is assumed of it. -/
class Clients (W : Type) where
  others : W → List ClientCall × W

/-! ## Events -/

/-- `SerialWorker.snapshot()`. -/
structure Snapshot where
  state : LinkState
  alarmMode : AlarmMode
  address : Option Byte
  tilt : Option ℚ
  targetTilt : Option ℚ
  alarms : List String
  identity : List (String × String)
  queueDepth : ℕ
  leasedFor : Time
  lastError : String
  heartbeatAge : Time
  stats : Option Stats
  deriving DecidableEq

/-- What the worker emits. -/
inductive Event where
  | link (state : LinkState) (error : String)
  | alarm (e : AlarmEvent)
  | progress (command : CommandName) (polls : ℕ) (acked : Bool)
  | status (snap : Snapshot)
  deriving DecidableEq

/-- The alarm edges among the events. -/
def alarmsOf (es : List Event) : List AlarmEvent :=
  es.filterMap fun
    | .alarm e => some e
    | _ => none

/-! ## The worker -/

/-- A silent baseline: the active set before and after it, and how many events had
been emitted. -/
structure Silent where
  old : Finset String
  new : Finset String
  emitted : ℕ
  deriving DecidableEq

/-- An alarm report that came in, and the indications that were parked at the time. -/
structure Heard where
  report : Report
  parked : List Bytes
  deriving DecidableEq

/-- The attributes that only the worker thread writes. -/
structure Worker where
  state : LinkState := .closed
  device : Option Device := none
  address : Option Byte := none
  identity : List (String × String) := []
  deviceData : List (String × String) := []
  tilt : Option ℚ := none
  targetTilt : Option ℚ := none
  alarms : AlarmTracker := {}
  alarmMode : AlarmMode := .unknown
  subscribeUnsupported : Bool := false
  lastError : String := ""
  lastCommandAt : Time := 0
  lastMonitorAt : Time := 0
  lastKeepaliveAt : Time := 0
  backoff : Time := ms 1000
  backoffUntil : Time := 0
  heartbeat : Time := 0
  indications : List Bytes := []
  wantLink : Bool := false
  /-- The local variable of `run`. -/
  head : Option Command := none
  emitted : List Event := []
  asked : List (LinkState × String) := []
  heard : List Heard := []
  indicated : List Bytes := []
  silent : List Silent := []

/-- `_emit`. -/
def Worker.emit (wk : Worker) (ev : Event) : Worker := { wk with emitted := wk.emitted ++ [ev] }

/-- An alarm report comes in. -/
def Worker.hear (wk : Worker) (r : Report) : Worker :=
  { wk with heard := wk.heard ++ [⟨r, wk.indications⟩] }

/-- Take over what the alarm tracker returned, emitting its edges. -/
def Worker.track (wk : Worker) (r : List AlarmEvent × AlarmTracker) : Worker :=
  { wk with alarms := r.2, emitted := wk.emitted ++ r.1.map .alarm }

/-- `for ev in self.alarms.indicate(payload): self._emit(ev)`. -/
def Worker.indicate (wk : Worker) (payload : Bytes) : Worker :=
  { wk.track (wk.alarms.indicate payload) with indicated := wk.indicated ++ [payload] }

/-- The same of an indication that has just come in, which is put on record as heard. -/
def Worker.heed (wk : Worker) (payload : Bytes) : Worker :=
  (wk.indicate payload).hear (.indicate payload)

/-- `_queue_indication`. -/
def Worker.queueIndication (payload : Bytes) (wk : Worker) : Worker :=
  { wk.hear (.indicate payload) with indications := wk.indications ++ [payload] }

/-- `_drain_indications`. -/
def Worker.drainIndications (wk : Worker) : Worker :=
  wk.indications.foldl Worker.indicate { wk with indications := [] }

/-- `for ev in self.alarms.snapshot(names): self._emit(ev)`. -/
def Worker.report (wk : Worker) (names : List String) : Worker :=
  (wk.track (wk.alarms.snapshot names.toFinset)).hear (.snapshot names)

/-- `self.alarms.snapshot(names, emit=False)`. -/
def Worker.baseline (wk : Worker) (names : List String) : Worker :=
  { wk.hear (.snapshot names) with
    alarms := (wk.alarms.snapshot names.toFinset false).2
    silent := wk.silent ++ [⟨wk.alarms.active, reported names.toFinset, wk.emitted.length⟩] }

/-- `_set_state`. -/
def Worker.setState (wk : Worker) (state : LinkState) (error : String) : Worker :=
  let asked := wk.asked ++ [(state, error)]
  if state = wk.state ∧ error = wk.lastError then { wk with asked := asked }
  else
    { wk with
      state := state
      lastError := if error = "" then wk.lastError else error
      emitted := wk.emitted ++ [.link state error]
      asked := asked }

/-! ## The whole state -/

/-- The state of the worker thread and everything it can reach. -/
structure St (W : Type) where
  world : W
  log : List WireEvent := []
  link : Option AisgLink := none
  ports : List ℕ := []
  nextIdent : ℕ := 0
  shared : Shared := {}
  wk : Worker := {}

/-- A method of `SerialWorker`. -/
abbrev WorkerProg (W α : Type) := Prog (St W) Exn α

/-- A freshly constructed worker. -/
def St.init {W : Type} (w : W) : St W := { world := w }

end OpenAisg.Session
