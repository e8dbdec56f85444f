import OpenAisg.Link.Connect
import OpenAisg.Session.ExactlyOnce

/-!
# Requests over a serial port

`connect` and the calls of the tests, through the port of the tests: every frame is stuffed,
checked and cut into reads, any may be lost, noise may come in the place of an answer that is
lost, and the sequence numbers of the two ends need not agree at the start.

* `connectAndCall` — the whole conversation.
* `connectAndCall_delivered` — what `callEach_delivered` says of the calls holds of it.

Nothing is proved again here: `wp_connect_cabled` brings the two ends level, and `channelBus`
makes the port a line of the kind that the calls are about.
-/

namespace OpenAisg.Session

open Hdlc Link Prog

section

variable {fuel : ℕ} {addr : Byte} {rs : List Request} {s t : LinkSt Bus (List Bytes)}

/-- `connect`, and the calls up to the first that raises. -/
def connectAndCall (fuel : ℕ) (addr : Byte) (rs : List Request) :
    LinkProg Bus (List Bytes) (List Bytes × Option Exn) := do
  connect addr
  callEach fuel addr rs

/-- What `connect` leaves is level. -/
theorem level_of_restarted (h : Restarted addr s.world t.world)
    (hstation : s.world.world.sec.addr = addr) (hstrict : s.world.world.sec.strict = true)
    (hrejects : ∀ what, s.world.world.sec.rejectWith = some what → kind (what ||| pf) = .uFrame)
    (hvs : (t.link.peers addr).vs = 0) : Level addr (scene addr t) := by
  have hsec : (scene addr t).sec = s.world.world.sec.restarted := h.sec
  have hin : (scene addr t).inbox = [] := congrArg (List.map Rx.ofFrame) h.nothing
  have hpeer : (scene addr t).peer = t.link.peers addr := rfl
  refine ⟨?_, ?_, ?_, ?_, ?_, ?_, ?_, ?_⟩
  · rw [hsec]
    exact hstation
  · rw [hsec]
    exact hstrict
  · rw [hsec]
    exact hrejects
  · rw [hsec]
    rfl
  · rw [hsec, hpeer, hvs]
    rfl
  · rw [hin]
    exact fun _ hf => absurd hf List.not_mem_nil
  · rw [hin]
    exact fun _ hf => absurd hf List.not_mem_nil
  · rw [hin]
    rfl

/-- Only what was acted on and reported before counts. -/
theorem Delivered.since {a b c : Scene} {out : List Bytes × Option Exn}
    (hex : b.executed = a.executed) (hseen : b.seen = a.seen) (h : Delivered addr rs b out c) :
    Delivered addr rs a out c := by
  have hacted : ∀ k, ActedOn rs k b c → ActedOn rs k a c := by
    intro k hk
    rwa [ActedOn, hex] at hk
  refine ⟨h.payloads, fun hnone => ?_, fun e he => ?_, ?_⟩
  · obtain ⟨hlen, hlevel, hall⟩ := h.complete hnone
    exact ⟨hlen, hlevel, hacted _ hall⟩
  · obtain ⟨hlen, hbroken, hall⟩ := h.failed e he
    exact ⟨hlen, hbroken, hall.imp (fun hk => ⟨hacted _ hk.1, hk.2⟩) (hacted _)⟩
  · obtain ⟨d, hd, hsub⟩ := h.seen
    exact ⟨d, hseen ▸ hd, hsub⟩

/-- The conversation. -/
theorem wp_connectAndCall (h : Cabled addr s.world) (hstrict : s.world.world.sec.strict = true)
    (hrejects : ∀ what, s.world.world.sec.rejectWith = some what → kind (what ||| pf) = .uFrame)
    (hr : ∀ r ∈ rs, r.Proper) (hfit : ∀ r ∈ rs, r.FitsIn (·.length ≤ 251)) :
    wp (connectAndCall fuel addr rs)
      (fun out t => Delivered addr rs (scene addr s) out (scene addr t))
      (fun _ t => ActedOn rs 0 (scene addr s) (scene addr t))
      (fun t => ∃ k, ActedOn rs k (scene addr s) (scene addr t)) s := by
  have hnone : ∀ t : LinkSt Bus (List Bytes), t.world.world.executed = s.world.world.executed →
      ActedOn rs 0 (scene addr s) (scene addr t) := by
    intro t ht
    rw [ActedOn, List.take_zero, List.map_nil, List.append_nil]
    exact ht
  unfold connectAndCall
  rw [wp_bind]
  refine (wp_connect_cabled h).mono (fun _ t ht => ?_) (fun _ t ht => hnone t ht.1)
    fun t ht => ⟨0, hnone t ht.1⟩
  obtain ⟨hre, hvs, -, huser⟩ := ht
  have hlevel := level_of_restarted hre h.station hstrict hrejects hvs
  have hex : (scene addr t).executed = (scene addr s).executed := hre.executed
  refine (wp_callEach hre.inOrder hlevel hr hfit).mono (fun out u hu => hu.since hex huser)
    (fun _ _ hu => hu.elim) fun u hu => ?_
  obtain ⟨k, hk⟩ := hu
  exact ⟨k, by rwa [ActedOn, hex] at hk⟩

/-- **Exactly once over a serial port.**  Whatever the two ends were at before, however the octets
are cut into reads, whichever frames to the device are lost, and whichever frames from it are lost
or replaced by noise, which starts with a flag and holds no frame: once `connect` has returned,
the messages whose responses were returned were acted on once each and in order, each response is
that of its own request, and of all other messages at most the one whose call failed was acted on.
Without `connect` none was. -/
theorem connectAndCall_delivered (h : Cabled addr s.world)
    (hstrict : s.world.world.sec.strict = true)
    (hrejects : ∀ what, s.world.world.sec.rejectWith = some what → kind (what ||| pf) = .uFrame)
    (hr : ∀ r ∈ rs, r.Proper) (hfit : ∀ r ∈ rs, r.FitsIn (·.length ≤ 251)) :
    (∀ out t, connectAndCall fuel addr rs s = (.ret out, t) →
        Delivered addr rs (scene addr s) out (scene addr t)) ∧
      (∀ e t, connectAndCall fuel addr rs s = (.raise e, t) →
        ActedOn rs 0 (scene addr s) (scene addr t)) ∧
      ∀ t, connectAndCall fuel addr rs s = (.stall, t) →
        ∃ k, ActedOn rs k (scene addr s) (scene addr t) :=
  wp_iff.1 (wp_connectAndCall h hstrict hrejects hr hfit)

end

/-- The two ends disagree, a response is owed to nobody, the rest of a frame is still to be
read, and the answer to the command is lost: three octets of noise come in its place. -/
def noisyBus : LinkSt Bus (List Bytes) where
  world :=
    { world :=
        { sec := { vs := 5, vr := 3, pending := some [0x33, 1, 0, 0] }
          clock := fun n => ms 40 * n
          lost := fun n => n = 3
          noise := fun _ => [0x7E, 0x55, 0x01]
          arrived := fun _ => 6
          fuel := 8
          rx := [0x01, 0x73, 0x7E, 0x01] }
      deframer := {} }
  link := { peers := fun _ => { vs := 6, vr := 1 } }
  log := []
  user := []

/-- The secondary is on the bus, its noise is garbled, and the port listens. -/
theorem cabled_noisyBus : Cabled 1 noisyBus.world where
  station := rfl
  noise _ := Or.inr ⟨[0x55, 0x01], rfl, by decide, by decide, by decide⟩
  listens := ⟨[], whole_nil, rfl, Hdlc.Deframer.fed_nil rfl⟩

/-- GetTilt, with an alarm that is sent twice before the response. -/
def tiltRequests : List Request :=
  [{ message := [0x34, 0, 0], responses := some [(0x34, retapResponse 0x34 [30, 0])]
     indications := [([0x07, 1, 0, 2], true)] }]

/-- The response comes with the poll after the one that was not answered. -/
theorem connectAndCall_delivered_noisy : ∃ c, Delivered 1 tiltRequests (scene 1 noisyBus)
    ([retapResponse 0x34 [30, 0]], none) c := by
  have hproper : ∀ r ∈ tiltRequests, r.Proper := by decide +kernel
  have hfits : ∀ r ∈ tiltRequests, r.FitsIn (·.length ≤ 251) := by
    unfold Request.FitsIn
    decide +kernel
  have hret : (connectAndCall 8 1 tiltRequests noisyBus).1 =
      .ret ([retapResponse 0x34 [30, 0]], none) := by decide +kernel
  have hdelivered := (@connectAndCall_delivered 8 1 tiltRequests noisyBus cabled_noisyBus rfl
    (fun _ h => (by cases h)) hproper hfits).1
  rcases hrun : connectAndCall 8 1 tiltRequests noisyBus with ⟨o, t⟩
  rw [hrun] at hret
  exact ⟨scene 1 t, hdelivered _ t (by rw [hrun, ← hret])⟩

end OpenAisg.Session
