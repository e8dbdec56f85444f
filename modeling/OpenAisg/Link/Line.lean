import OpenAisg.Hdlc
import OpenAisg.Lib.Prog

/-!
# The line and the link object

What `AisgLink` owns, and what it sees of the world.  Every method of the link
object is a program over the state `LinkSt`; the port and the clock below it are
whatever a type of worlds says they are.

* `Line` — the serial port and the clock.  A type of worlds with one function
  per operation: nothing is assumed of them, so a statement about every `Line`
  is one about every byte the bus can deliver, every `OSError` the port can
  raise and every reading of the clock.
* `PeerState`, `AisgLink` — the sequence state per address and the counters.
* `LinkSt` — the state of a running method: the world, the link object, the
  variables `user` that its callbacks write to, and the `log`.
* `WireEvent` — the log records what was sent and what came in.  No modelled
  function reads it.
* `readFrames`, `write`, `peer`, … — the primitives every method is written in,
  each with its weakest precondition (`wp_write`, `wp_readFrames`, …) and with
  what it takes to stay in a relation (`moves_write`, `moves_readFrames`, …).
  Proofs about methods use these and unfold no primitive.
-/

namespace OpenAisg.Link

open Hdlc

/-- A frame taken from the line.  The `tag` is a mark a world may put on what it
delivers, to follow one transmission through the code; nothing reads it. -/
structure Rx extends Frame where
  tag : Option ℕ := none
  deriving DecidableEq, Repr

/-- `serial.SerialException`: its `errno` and its text. -/
structure SerialException where
  errno : Option ℕ
  msg : String

/-- The serial port and the clock, as the link layer uses them. -/
class Line (W : Type) where
  /-- `time.monotonic()`. -/
  monotonic : W → Time × W
  /-- `time.sleep`, or a blocking wait of that length. -/
  sleep : Time → W → W
  /-- `serial.Serial(port, …, exclusive=True)`. -/
  serialOpen : W → Except SerialException Unit × W
  /-- `ser.dtr = dtr`, which may raise `OSError`. -/
  setDtr : Prog W String Unit
  /-- `AisgLink._read_frames(budget)`: the whole frames that arrived. -/
  readFrames : Time → Prog W String (List Rx)
  /-- `AisgLink._write`: one frame onto the wire. -/
  write : Frame → Prog W String Unit
  /-- `AisgLink._xfer`: send one frame, collect raw octets. -/
  xfer : Frame → Time → Prog W String Bytes
  /-- `ser.close()`. -/
  serialClose : Prog W String Unit

/-! ## The link object -/

/-- Per-address sequence state. -/
structure PeerState where
  /-- V(S), the next N(S) we will send. -/
  vs : Seq := 0
  /-- V(R), the next N(S) we expect to receive. -/
  vr : Seq := 0
  connected : Bool := false
  deriving DecidableEq, Repr, Inhabited

/-- Both sequence numbers back at 0: what a connect, a disconnect, a DM and an FRMR do. -/
def PeerState.reset (p : PeerState) : PeerState := { p with vs := 0, vr := 0 }

/-- `AisgLink.stats`. -/
structure Stats where
  polls : ℕ := 0
  dupI : ℕ := 0
  unexpected : ℕ := 0
  foreign : ℕ := 0
  rnr : ℕ := 0
  retx : ℕ := 0
  linkResets : ℕ := 0
  deriving DecidableEq, Repr, Inhabited

/-- The attributes of an `AisgLink` beside its port.  `_peer` makes a fresh
`PeerState` on first use of an address, so the map is total. -/
structure AisgLink where
  peers : Byte → PeerState := fun _ => {}
  stats : Stats := {}
  timeout : Time := ms 1000
  /-- The identity of the object. -/
  ident : ℕ := 0

/-- The same object, with the same peers connected.  Sequence numbers and counters may differ. -/
def AisgLink.Alike (l l' : AisgLink) : Prop :=
  l'.ident = l.ident ∧ ∀ a, (l'.peers a).connected = (l.peers a).connected

/-! ## The log -/

/-- Who took a frame from the line. -/
inductive Receiver where
  /-- `AisgLink.exchange`, waiting for the response to a message. -/
  | exchange (message : Bytes)
  /-- `SerialWorker._keepalive_poll`. -/
  | keepalive
  /-- `SerialWorker._drain`. -/
  | drain
  deriving DecidableEq, Repr

/-- What the log records.  `tx` and `txFault` are frames handed to the port, taken and refused;
`batch` is what one read brought, `rx` is one frame of it when its turn comes; `taken` and
`accepted` are what the link layer made of an I-frame. -/
inductive WireEvent where
  /-- A frame was handed to the port. -/
  | tx (f : Frame)
  /-- Handing over this frame raised `OSError`, or did not come back. -/
  | txFault (f : Frame)
  /-- A call of `_read_frames` returned. -/
  | batch (fs : List Rx)
  /-- A frame from the addressed peer was taken up. -/
  | rx (who : Receiver) (f : Rx)
  /-- V(R), which was `vr`, moved past an I-frame. -/
  | taken (who : Receiver) (vr : Seq) (f : Rx)
  /-- `exchange` returned a frame's payload as the response to a message. -/
  | accepted (message : Bytes) (f : Rx)
  /-- Reading raised `OSError`, or did not come back. -/
  | fault
  /-- The one-shot path: a frame was sent and these octets came back. -/
  | raw (f : Frame) (reply : Bytes)
  deriving DecidableEq, Repr

/-- The event is about the wire only: nothing was taken over from it. -/
def WireEvent.passive : WireEvent → Bool
  | .taken .. | .accepted .. => false
  | _ => true

/-- The event connects or disconnects no peer: no one-shot transfer, and no DM or
FRMR in an exchange. -/
def WireEvent.calm : WireEvent → Bool
  | .raw .. => false
  | .rx (.exchange _) f => !isReset f.ctrl
  | _ => true

/-- Both: the event is about the wire only, and connects or disconnects nobody. -/
def WireEvent.quiet (e : WireEvent) : Bool := e.passive && e.calm

/-- The frame that was handed to the port. -/
def WireEvent.sent : WireEvent → Option Frame
  | .tx f | .txFault f => some f
  | _ => none

/-- A frame that was handed to the port carries the message, or nothing.  Every frame of an exchange
is so, which is how a statement about requests reaches the port. -/
def WireEvent.Carries (m : Bytes) (e : WireEvent) : Prop :=
  ∀ f, e.sent = some f → f.payload = [] ∨ f.payload = m

/-- An event that sent a frame carries what the frame does. -/
theorem WireEvent.carries_of_sent {m : Bytes} {e : WireEvent} {f : Frame} (h : e.sent = some f)
    (hf : f.payload = [] ∨ f.payload = m) : e.Carries m := by
  intro g hg
  cases h.symm.trans hg
  exact hf

/-- An event that sent no frame carries nothing. -/
theorem WireEvent.carries_of_none {m : Bytes} {e : WireEvent} (h : e.sent = none) :
    e.Carries m := by
  intro g hg
  cases h.symm.trans hg

theorem WireEvent.passive_of_quiet {e : WireEvent} (h : e.quiet = true) : e.passive = true :=
  (Bool.and_eq_true_iff.1 h).1

theorem WireEvent.calm_of_quiet {e : WireEvent} (h : e.quiet = true) : e.calm = true :=
  (Bool.and_eq_true_iff.1 h).2

/-! ## The state of a running method -/

/-- The world, the link object, the log, and the callbacks' variables. -/
structure LinkSt (W υ : Type) where
  world : W
  link : AisgLink
  log : List WireEvent
  user : υ

/-- A method of `AisgLink`. -/
abbrev LinkProg (W υ α : Type) := Prog (LinkSt W υ) Exn α

section Primitives

variable {W υ : Type} [Line W]

/-- Record an event. -/
def logEvent (e : WireEvent) : LinkProg W υ Unit :=
  Prog.modify fun s => { s with log := s.log ++ [e] }

/-- `time.monotonic`. -/
def monotonic : LinkProg W υ Time := fun s =>
  (.ret (Line.monotonic s.world).1, { s with world := (Line.monotonic s.world).2 })

/-- `time.sleep`. -/
def sleep (d : Time) : LinkProg W υ Unit :=
  Prog.modify fun s => { s with world := Line.sleep d s.world }

/-- An operation of the port: its `OSError` is raised here, and `marks` goes to the log unless it
returns. -/
def portOp {α : Type} (c : Prog W String α) (marks : List WireEvent) : LinkProg W υ α := fun s =>
  match c s.world with
  | (.ret a, w) => (.ret a, { s with world := w })
  | (.raise msg, w) => (.raise (.osError msg), { s with world := w, log := s.log ++ marks })
  | (.stall, w) => (.stall, { s with world := w, log := s.log ++ marks })

/-- `_read_frames`. -/
def readFrames (budget : Time) : LinkProg W υ (List Rx) := do
  let fs ← portOp (Line.readFrames budget) [.fault]
  logEvent (.batch fs)
  pure fs

/-- `_write`. -/
def write (f : Frame) : LinkProg W υ Unit := do
  portOp (Line.write f) [.txFault f]
  logEvent (.tx f)

/-- `_peer`. -/
def peer (addr : Byte) : LinkProg W υ PeerState := Prog.read fun s => s.link.peers addr

/-- Assign to attributes of a peer's state. -/
def setPeer (addr : Byte) (g : PeerState → PeerState) : LinkProg W υ Unit :=
  Prog.modify fun s =>
    { s with link := { s.link with
        peers := fun a => if a = addr then g (s.link.peers a) else s.link.peers a } }

/-- Count something in `stats`. -/
def bump (g : Stats → Stats) : LinkProg W υ Unit :=
  Prog.modify fun s => { s with link := { s.link with stats := g s.link.stats } }

/-- Let a callback act on its variables. -/
def callback (g : υ → υ) : LinkProg W υ Unit :=
  Prog.modify fun s => { s with user := g s.user }

/-- Raise the error of a pure computation. -/
def ofExcept {σ α : Type} : Except Exn α → Prog σ Exn α
  | .ok a => pure a
  | .error e => Prog.raise e

end Primitives

/-! ## Weakest preconditions of the primitives -/

section Wp

variable {W υ : Type} {E : Exn → LinkSt W υ → Prop} {S : LinkSt W υ → Prop} {s : LinkSt W υ}

open Prog

@[simp] theorem wp_logEvent {e : WireEvent} {Q : Unit → LinkSt W υ → Prop} :
    wp (logEvent e) Q E S s ↔ Q () { s with log := s.log ++ [e] } := Iff.rfl

@[simp] theorem wp_peer {addr : Byte} {Q : PeerState → LinkSt W υ → Prop} :
    wp (peer addr) Q E S s ↔ Q (s.link.peers addr) s := Iff.rfl

@[simp] theorem wp_setPeer {addr : Byte} {g : PeerState → PeerState}
    {Q : Unit → LinkSt W υ → Prop} :
    wp (setPeer addr g) Q E S s ↔ Q () { s with link := { s.link with
      peers := fun a => if a = addr then g (s.link.peers a) else s.link.peers a } } := Iff.rfl

@[simp] theorem wp_bump {g : Stats → Stats} {Q : Unit → LinkSt W υ → Prop} :
    wp (bump g) Q E S s ↔ Q () { s with link := { s.link with stats := g s.link.stats } } :=
  Iff.rfl

@[simp] theorem wp_callback {g : υ → υ} {Q : Unit → LinkSt W υ → Prop} :
    wp (callback g) Q E S s ↔ Q () { s with user := g s.user } := Iff.rfl

@[simp] theorem wp_monotonic [Line W] {Q : Time → LinkSt W υ → Prop} :
    wp monotonic Q E S s ↔
      Q (Line.monotonic s.world).1 { s with world := (Line.monotonic s.world).2 } := Iff.rfl

@[simp] theorem wp_sleep [Line W] {d : Time} {Q : Unit → LinkSt W υ → Prop} :
    wp (sleep d) Q E S s ↔ Q () { s with world := Line.sleep d s.world } := Iff.rfl

/-- A pure computation ends in its value or its error, and leaves the state as it was. -/
theorem wp_ofExcept {σ α : Type} {r : Except Exn α} {Q : α → σ → Prop} {E : Exn → σ → Prop}
    {S : σ → Prop} {s : σ} :
    wp (ofExcept r) Q E S s ↔ match r with
      | .ok a => Q a s
      | .error e => E e s := by
  cases r <;> rfl

/-- The port is asked, and the answer is either a value of it, an error that `marks` records, or
nothing at all. -/
theorem wp_portOp {α : Type} {c : Prog W String α} {marks : List WireEvent}
    {Q : α → LinkSt W υ → Prop} :
    wp (portOp c marks) Q E S s ↔
      wp c (fun a w => Q a { s with world := w })
        (fun msg w => E (.osError msg) { s with world := w, log := s.log ++ marks })
        (fun w => S { s with world := w, log := s.log ++ marks }) s.world := by
  unfold wp portOp
  rcases c s.world with ⟨o, w⟩
  cases o <;> rfl

/-- `_write` returns with the frame in the log as sent, and raises with the frame in the log as
refused. -/
theorem wp_write [Line W] {f : Frame} {Q : Unit → LinkSt W υ → Prop} :
    wp (write f) Q E S s ↔
      wp (Line.write f : Prog W String Unit)
        (fun _ w => Q () { s with world := w, log := s.log ++ [.tx f] })
        (fun msg w => E (.osError msg) { s with world := w, log := s.log ++ [.txFault f] })
        (fun w => S { s with world := w, log := s.log ++ [.txFault f] }) s.world := by
  unfold write
  rw [wp_bind, wp_portOp]
  rfl

/-- `_read_frames` logs what it brought in, also when that is nothing. -/
theorem wp_readFrames [Line W] {b : Time} {Q : List Rx → LinkSt W υ → Prop} :
    wp (readFrames b) Q E S s ↔
      wp (Line.readFrames b : Prog W String (List Rx))
        (fun fs w => Q fs { s with world := w, log := s.log ++ [.batch fs] })
        (fun msg w => E (.osError msg) { s with world := w, log := s.log ++ [.fault] })
        (fun w => S { s with world := w, log := s.log ++ [.fault] }) s.world := by
  unfold readFrames
  rw [wp_bind, wp_portOp]
  rfl

end Wp

/-! ## What each primitive can change

Every method is made of the primitives above, so a relation that they respect is
one that every method respects. -/

section Moves

variable {W υ : Type} {R : LinkSt W υ → LinkSt W υ → Prop}

open Prog

theorem moves_logEvent {e : WireEvent} (h : ∀ s, R s { s with log := s.log ++ [e] }) :
    Moves R (logEvent e) := h

theorem moves_monotonic [Line W] (h : ∀ s w, R s { s with world := w }) :
    Moves R (monotonic : LinkProg W υ Time) := fun s => h s _

theorem moves_sleep [Line W] (h : ∀ s w, R s { s with world := w }) (d : Time) :
    Moves R (sleep d : LinkProg W υ Unit) := fun s => h s _

theorem moves_portOp {α : Type} {c : Prog W String α} {marks : List WireEvent}
    (h : ∀ s w, R s { s with world := w })
    (hm : ∀ s w, R s { s with world := w, log := s.log ++ marks }) :
    Moves R (portOp c marks : LinkProg W υ α) := by
  intro s
  unfold portOp
  rcases c s.world with ⟨o, w⟩
  cases o with
  | ret a => exact h s w
  | raise msg => exact hm s w
  | stall => exact hm s w

/-- To write stays in a relation that allows the world to move and the frame to be logged. -/
theorem moves_write [Line W] [IsPreorder (LinkSt W υ) R] {f : Frame}
    (h : ∀ s w, R s { s with world := w })
    (hl : ∀ s e, WireEvent.quiet e = true → e.sent = some f → R s { s with log := s.log ++ [e] }) :
    Moves R (write f : LinkProg W υ Unit) := by
  unfold write
  refine moves_bind (moves_portOp h fun s w =>
    IsTrans.trans _ _ _ (h s w) (hl _ (.txFault f) rfl rfl)) fun _ => ?_
  exact moves_logEvent fun s => hl s _ rfl rfl

/-- To read stays in a relation that allows the world to move and a batch to be logged. -/
theorem moves_readFrames [Line W] [IsPreorder (LinkSt W υ) R]
    (h : ∀ s w, R s { s with world := w })
    (hl : ∀ s e, WireEvent.quiet e = true → e.sent = none → R s { s with log := s.log ++ [e] })
    (b : Time) : Moves R (readFrames b : LinkProg W υ (List Rx)) := by
  unfold readFrames
  refine moves_bind (moves_portOp h fun s w =>
    IsTrans.trans _ _ _ (h s w) (hl _ .fault rfl rfl)) fun fs => ?_
  exact moves_bind (moves_logEvent fun s => hl s _ rfl rfl) fun _ => moves_pure _

/-- Assignments to the sequence numbers of a peer. -/
theorem moves_setPeer (h : ∀ s l, AisgLink.Alike s.link l → R s { s with link := l })
    (addr : Byte) (g : PeerState → PeerState) (hg : ∀ p, (g p).connected = p.connected) :
    Moves R (setPeer addr g : LinkProg W υ Unit) := by
  refine fun s => h s _ ⟨rfl, fun a => ?_⟩
  by_cases ha : a = addr
  · simp only [if_pos ha, hg]
  · simp only [if_neg ha]

theorem moves_bump (h : ∀ s l, AisgLink.Alike s.link l → R s { s with link := l })
    (g : Stats → Stats) : Moves R (bump g : LinkProg W υ Unit) :=
  fun s => h s _ ⟨rfl, fun _ => rfl⟩

theorem moves_callback {g : υ → υ} (h : ∀ s, R s { s with user := g s.user }) :
    Moves R (callback g : LinkProg W υ Unit) := h

/-- A pure computation moves nothing. -/
theorem moves_ofExcept {σ α : Type} {R : σ → σ → Prop} [IsPreorder σ R] (r : Except Exn α) :
    Moves R (ofExcept r : Prog σ Exn α) := by
  cases r with
  | ok a => exact moves_pure a
  | error e => exact moves_raise e

end Moves

end OpenAisg.Link
