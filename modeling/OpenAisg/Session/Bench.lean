import OpenAisg.Link.Bench
import OpenAisg.Session.Run

/-!
# A worker on the bench

The scheduler of the executable world, and a device that answers every procedure the
session uses.  The calls of the other threads are laid down in `Plan.calls`, before which
access of the worker each of them falls.
-/

namespace OpenAisg.Session

open Hdlc Link Retap

instance : Clients (Bench ClientCall) where
  others b := (b.plan.calls b.accesses, { b with accesses := b.accesses + 1 })

/-- A well-formed response: code, length, return code OK, data. -/
def okResponse (code : Byte) (data : Bytes := []) : Bytes :=
  code :: BitVec.ofNat 8 (data.length + 1) :: 0 :: 0 :: data

/-- What the device answers; `alarms` are the codes of its active alarms. -/
def deviceAnswer (alarms : Bytes) : Bytes → Option Bytes
  | [] => none
  | code :: _ => some (okResponse code (
      if code = getInformation then [1, 65]
      else if code = Retap.getTilt then [30, 0]
      else if code = getDeviceData then [0x64]
      else if code = getAlarmStatus then alarms
      else []))

/-- Only a SNRM to address 1 is answered. -/
def deviceReply (f : Frame) : Bytes :=
  if f.addr = 1 ∧ f.ctrl = ctrlSnrm ||| pf then buildFrame ⟨1, ctrlUa ||| pf, []⟩ else []

end OpenAisg.Session
