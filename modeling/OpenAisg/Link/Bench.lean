import OpenAisg.Link.Exchange

/-!
# A device on the bench

An executable world for runs on fixed inputs: one device whose behaviour is laid
down in a `Plan`, on a line that loses nothing.  General results are about every
`Line`; this one is for the runs that show a condition to be met, or to be needed.

* `Plan.answer` — the response to the n-th I-frame, if it is to be answered.
* `Plan.arrives` — the frames that arrive for the n-th read besides.
* `Plan.reply` — the octets that come back on the one-shot path.
* `Plan.calls` — what other threads do before the n-th access to a shared variable.

Time passes while the primary waits, and by a microsecond with each look at the
clock, so that no two readings are the same.
-/

namespace OpenAisg.Link

open Hdlc

/-- What the device and the other threads do. -/
structure Plan (κ : Type) where
  answer : ℕ → Bytes → Option Bytes := fun _ _ => none
  arrives : ℕ → List Rx := fun _ => []
  reply : ℕ → Frame → Bytes := fun _ _ => []
  calls : ℕ → List κ := fun _ => []

/-- The device, the line and the clock. -/
structure Bench (κ : Type) where
  plan : Plan κ
  now : Time := 0
  inbox : List Rx := []
  /-- The device's V(S). -/
  vs : Seq := 0
  commands : ℕ := 0
  reads : ℕ := 0
  transfers : ℕ := 0
  accesses : ℕ := 0

namespace Bench

variable {κ : Type}

/-- The device hears a frame.  An I-frame is counted, and its response, if there is one, is on the
line at once. -/
def hear (b : Bench κ) (f : Frame) : Bench κ :=
  if kind f.ctrl = .iFrame then
    match b.plan.answer b.commands f.payload with
    | some pl => { b with
        commands := b.commands + 1
        vs := b.vs + 1
        inbox := b.inbox ++ [{ addr := f.addr, ctrl := iCtrl b.vs (nsOf f.ctrl + 1), payload := pl }] }
    | none => { b with commands := b.commands + 1 }
  else b

/-- A read empties the line; one that finds nothing takes its whole budget. -/
def read (b : Bench κ) (budget : Time) : List Rx × Bench κ :=
  let fs := b.inbox ++ b.plan.arrives b.reads
  (fs, { b with
    inbox := [], reads := b.reads + 1, now := if fs = [] then b.now + budget else b.now })

/-- One transfer on the one-shot path.  A SNRM restarts the device's numbering. -/
def transfer (b : Bench κ) (f : Frame) (budget : Time) : Bytes × Bench κ :=
  (b.plan.reply b.transfers f, { b with
    transfers := b.transfers + 1
    now := b.now + budget
    vs := if f.ctrl = ctrlSnrm ||| pf then 0 else b.vs
    inbox := [] })

instance : Line (Bench κ) where
  monotonic b := (b.now, { b with now := b.now + 1 })
  sleep d b := { b with now := b.now + d }
  serialOpen b := (.ok (), b)
  setDtr := pure ()
  readFrames d := fun b => (.ret (b.read d).1, (b.read d).2)
  write f := Prog.modify fun b => b.hear f
  xfer f d := fun b => (.ret (b.transfer f d).1, (b.transfer f d).2)
  serialClose := pure ()

end Bench

/-- A frame from the device at address 1. -/
def fromDevice (ctrl : Byte) (payload : Bytes := []) : Rx :=
  { addr := 1, ctrl := ctrl, payload := payload }

end OpenAisg.Link
