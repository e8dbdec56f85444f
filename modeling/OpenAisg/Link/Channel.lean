import OpenAisg.Link.FakeSecondary

/-!
# A line that loses and delays frames

The strict secondary of the tests again, now behind a line on which any frame may be lost, in
either direction, and on which what arrived may come in late.  The line keeps the order, and its
port may raise `OSError`.

* `Channel` — what is assumed of such a line.  Its worlds differ in what they are made of; what
  counts is the secondary, the frames on their way, and the messages acted on.
* `Arriving` — an answer and whatever part of it gets through: what is taken up of it by a
  receiver that expects *any* N(S), with what is still to come, is no more than what was to
  come before.
* `FakeSecondary.arriving_rrFrame`, `FakeSecondary.arriving_command`,
  `FakeSecondary.hear_command` — this holds of all that the secondary answers in a call.
* `Lossy` — the plainest such line: which frames are lost, and how many a read returns, are
  parameters, and so is the clock.
-/

namespace OpenAisg.Link

open Hdlc Prog

/-! ## The secondary acts on a message -/

/-- The I-frames that the secondary acts on: not swallowed, not rejected, and with the N(S) it
expects. -/
def FakeSecondary.takes (s : FakeSecondary) (f : Frame) : Bool :=
  decide (f.addr = s.addr ∨ f.addr = addrBroadcast) && decide (kind f.ctrl = .iFrame) &&
    !decide (s.swallowFirst ∧ s.iFramesSeen + 1 = 1) && s.rejectWith.isNone &&
    !decide (s.strict ∧ nsOf f.ctrl ≠ s.vr)

/-- The secondary once it acted on a message; it has not answered yet. -/
def FakeSecondary.took (s : FakeSecondary) (message : Bytes) : FakeSecondary :=
  { s with
    iFramesSeen := s.iFramesSeen + 1
    vr := s.vr + 1
    pending := some (s.responseFor message)
    owedRr := s.rrBeforeResponse }

/-- No request is taken from an RR. -/
theorem FakeSecondary.takes_rrFrame (s : FakeSecondary) (addr : Byte) (vr : Seq) (poll : Bool) :
    s.takes (rrFrame addr vr poll) = false := by
  simp [takes, rrFrame]

/-! ## The line -/

/-- What there is to see of a line. -/
class Medium (W : Type) where
  /-- The payloads the line has room for. -/
  Fits : Bytes → Prop
  /-- The parts of the world belong together. -/
  Sound : W → Prop
  sec : W → FakeSecondary
  /-- The frames that are on their way to the primary, as it will read them. -/
  inbox : W → List Rx
  /-- The messages the secondary acted on, in order. -/
  executed : W → List Bytes
  /-- The attributes of the secondary are set. -/
  setSec : (FakeSecondary → FakeSecondary) → W → W

section

variable {W : Type} [Medium W]

open Medium

/-- Nothing happened on the line. -/
structure Still (w w' : W) : Prop where
  sound : Sound w'
  sec : Medium.sec w' = Medium.sec w
  inbox : Medium.inbox w' = Medium.inbox w
  executed : Medium.executed w' = Medium.executed w

/-- The secondary hears a frame, and `gs` is what gets through of its answer. -/
structure Heard (w : W) (f : Frame) (gs : List Rx) (w' : W) : Prop where
  sound : Sound w'
  sec : Medium.sec w' = ((Medium.sec w).hear f).2
  inbox : Medium.inbox w' = Medium.inbox w ++ gs
  executed : Medium.executed w' = if (Medium.sec w).takes f then
    Medium.executed w ++ [f.payload] else Medium.executed w
  sublist : gs.Sublist ((Medium.sec w).hear f).1

/-- A frame of the primary is lost, or heard. -/
def Sent (w : W) (f : Frame) (w' : W) : Prop := Still w w' ∨ ∃ gs, Heard w f gs w'

/-- A read returns some of the frames that are there, from the first on. -/
structure Came (w : W) (fs : List Rx) (w' : W) : Prop where
  sound : Sound w'
  sec : Medium.sec w' = Medium.sec w
  inbox : fs ++ Medium.inbox w' = Medium.inbox w
  executed : Medium.executed w' = Medium.executed w

end

/-- A line that may lose and delay frames, and whose port may fail. -/
class Channel (W : Type) [Line W] extends Medium W where
  fits_nil : Fits []
  monotonic : ∀ {w : W}, Sound w → Still w (Line.monotonic w).2
  sleep : ∀ {w : W} (d : Time), Sound w → Still w (Line.sleep d w)
  write : ∀ {w : W} {f : Frame}, Sound w → Fits f.payload →
    (∀ r ∈ ((sec w).hear f).1, Fits r.payload) →
      wp (Line.write f) (fun _ => Sent w f) (fun _ => Sent w f) (Sent w f) w
  readFrames : ∀ {w : W} (b : Time), Sound w →
    wp (Line.readFrames b) (Came w) (fun _ => Still w) (Still w) w
  setSec_spec : ∀ {w : W} (g : FakeSecondary → FakeSecondary), Sound w →
    Sound (setSec g w) ∧ sec (setSec g w) = g (sec w) ∧ inbox (setSec g w) = inbox w ∧
      executed (setSec g w) = executed w

section Wp

variable {W υ : Type} [Line W] [Channel W] {Q : Unit → LinkSt W υ → Prop}
  {E : Exn → LinkSt W υ → Prop} {S : LinkSt W υ → Prop} {s : LinkSt W υ}

open Medium

/-- What a proof about any `Channel` knows of a write: the frame was lost or heard, or the port
raised. -/
theorem wp_write_channel {f : Frame} (hs : Sound s.world) (hf : Fits W f.payload)
    (hr : ∀ r ∈ ((sec s.world).hear f).1, Fits W r.payload)
    (hQ : ∀ w log, Sent s.world f w → Q () { s with world := w, log := log })
    (hE : ∀ w log msg, Sent s.world f w → E (.osError msg) { s with world := w, log := log })
    (hS : ∀ w log, Sent s.world f w → S { s with world := w, log := log }) :
    wp (write f) Q E S s := by
  rw [wp_write]
  exact (Channel.write hs hf hr).mono (fun _ w h => hQ w _ h) (fun msg w h => hE w _ msg h)
    fun w h => hS w _ h

/-- And of a read: some of what is on its way has come in, from the first frame on. -/
theorem wp_readFrames_channel {b : Time} {Q : List Rx → LinkSt W υ → Prop}
    (hs : Sound s.world)
    (hQ : ∀ fs w log, Came s.world fs w → Q fs { s with world := w, log := log })
    (hE : ∀ w log msg, Still s.world w → E (.osError msg) { s with world := w, log := log })
    (hS : ∀ w log, Still s.world w → S { s with world := w, log := log }) :
    wp (readFrames b) Q E S s := by
  rw [wp_readFrames]
  exact (Channel.readFrames b hs).mono (fun fs w h => hQ fs w _ h) (fun msg w h => hE w _ msg h)
    fun w h => hS w _ h

end Wp

/-! ## What a receiver takes up of a part of the frames -/

/-- No frame has the N(S) that is expected. -/
theorem reads_of_ne {vr : Seq} {fs : List Rx} (h : ∀ f ∈ fs, nsOf f.ctrl ≠ vr) :
    reads vr fs = ([], vr) := by
  induction fs with
  | nil => rfl
  | cons f fs ih =>
      rw [reads, if_neg fun hf => h f (List.mem_cons_self ..) hf.2]
      exact ih fun g hg => h g (List.mem_cons_of_mem _ hg)

/-- Of copies of one I-frame at most one is taken up, whichever N(S) is expected. -/
theorem reads_copies {n : Seq} {payload : Bytes} {fs : List Rx} (vr : Seq)
    (h : ∀ f ∈ fs, nsOf f.ctrl = n ∧ f.payload = payload) :
    (reads vr fs).1.Sublist [payload] := by
  have hnext : ∀ n : Seq, n ≠ n + 1 := by decide
  induction fs generalizing vr with
  | nil => exact List.nil_sublist _
  | cons f fs ih =>
      obtain ⟨hns, hpl⟩ := h f (List.mem_cons_self ..)
      have hrest : ∀ g ∈ fs, nsOf g.ctrl = n ∧ g.payload = payload := fun g hg =>
        h g (List.mem_cons_of_mem _ hg)
      rw [reads]
      split_ifs with hf
      · have hvr : n = vr := hns.symm.trans hf.2
        have hnone : reads (vr + 1) fs = ([], vr + 1) :=
          reads_of_ne fun g hg => by
            rw [(hrest g hg).1, hvr]
            exact hnext vr
        simp [hnone, hpl]
      · exact ih vr hrest

/-- Frames that are no I-frames are not taken up. -/
theorem reads_of_kind {fs : List Rx} (vr : Seq) (h : ∀ f ∈ fs, kind f.ctrl ≠ .iFrame) :
    reads vr fs = ([], vr) := by
  induction fs with
  | nil => rfl
  | cons f fs ih =>
      rw [reads, if_neg fun hf => h f (List.mem_cons_self ..) hf.1]
      exact ih fun g hg => h g (List.mem_cons_of_mem _ hg)

/-! ## What the secondary sends -/

/-- A frame whose N(R) can only be `n`. -/
def Old (n : Seq) (f : Rx) : Prop := kind f.ctrl = .uFrame ∨ nrOf f.ctrl = n

/-- What no answer changes. -/
structure Steady (s s' : FakeSecondary) : Prop where
  addr : s'.addr = s.addr
  vr : s'.vr = s.vr
  strict : s'.strict = s.strict
  response : s'.response = s.response
  responses : s'.responses = s.responses
  rejectWith : s'.rejectWith = s.rejectWith ∨ s'.rejectWith = none
  pending : s.pending = none → s'.pending = none

/-- The answer `fs`, whatever part of it gets through: with any N(S) that a receiver expects, it
takes up no more than the secondary has less to send.  The receiver may be out of step, since what
it missed is lost for good. -/
structure Arriving (s : FakeSecondary) (fs : List Rx) (s' : FakeSecondary) : Prop
    extends Steady s s' where
  source : ∀ f ∈ fs, f.addr = s.addr
  old : ∀ f ∈ fs, Old s.vr f
  carries : ∀ f ∈ fs, f.payload = [] ∨ f.payload ∈ s.coming
  coming : ∀ vr gs, gs.Sublist fs → ((reads vr gs).1 ++ s'.coming).Sublist s.coming

namespace FakeSecondary

variable {s u : FakeSecondary}

/-- The N(S) and the payload of what `send` sends. -/
theorem send_copies (s : FakeSecondary) (payload : Bytes) (twice : Bool) :
    ∀ f ∈ (s.send payload twice).1, nsOf f.ctrl = s.vs ∧ f.payload = payload := by
  have hback : ∀ n : Seq, n + 1 - 1 = n := by decide
  have hsub := hback s.vs
  cases twice with
  | false => simp [send, iFrame]
  | true => simp [send, iFrame, hsub]

/-- No frame that could be taken up. -/
theorem arriving_idle {fs : List Rx} (h : Steady s u) (hc : u.coming = s.coming)
    (hk : ∀ f ∈ fs, f.addr = s.addr ∧ kind f.ctrl ≠ .iFrame ∧ Old s.vr f ∧ f.payload = []) :
    Arriving s fs u := by
  refine ⟨h, fun f hf => (hk f hf).1, fun f hf => (hk f hf).2.2.1,
    fun f hf => Or.inl (hk f hf).2.2.2, fun vr gs hgs => ?_⟩
  rw [reads_of_kind vr fun f hf => (hk f (hgs.subset hf)).2.1, hc]
  exact List.Sublist.refl _

/-- An RR. -/
theorem arriving_rr (h : Steady s u) (hc : u.coming = s.coming) : Arriving s [s.rr] u := by
  refine arriving_idle h hc fun f hf => ?_
  rw [List.mem_singleton.1 hf]
  exact ⟨rfl, by simp [rr], Or.inr (by simp [rr]), rfl⟩

/-- A payload that was owed. -/
theorem arriving_send (h : Steady s u) {payload : Bytes} {twice : Bool}
    (hc : payload :: u.coming = s.coming) :
    Arriving s (u.send payload twice).1 (u.send payload twice).2 := by
  obtain ⟨-, hstate, -, hall⟩ := u.send_reads payload twice
  have hcopies := u.send_copies payload twice
  rw [hstate]
  refine ⟨⟨h.addr, h.vr, h.strict, h.response, h.responses, h.rejectWith, h.pending⟩,
    fun f hf => (hall f hf).1.1.trans h.addr, fun f hf => Or.inr ((hall f hf).2.trans h.vr),
    fun f hf => Or.inr ?_, fun vr gs hgs => ?_⟩
  · rw [(hcopies f hf).2, ← hc]
    exact List.mem_cons_self ..
  rw [← hc]
  exact (reads_copies vr fun f hf => hcopies f (hgs.subset hf)).append (List.Sublist.refl _)

/-- The answer to a poll. -/
theorem arriving_next (s : FakeSecondary) : Arriving s s.next.1 s.next.2 := by
  unfold next
  rcases hi : s.indications with _ | ⟨⟨payload, twice⟩, rest⟩
  · rcases hp : s.pending with _ | payload
    · exact arriving_rr ⟨rfl, rfl, rfl, rfl, rfl, Or.inl rfl, fun h => h⟩ rfl
    · dsimp only
      split_ifs
      · exact arriving_rr ⟨rfl, rfl, rfl, rfl, rfl, Or.inl rfl, fun h => hp ▸ h⟩
          (by simp [coming, hi, hp])
      · refine arriving_send ?_ ?_
        · exact ⟨rfl, rfl, rfl, rfl, rfl, Or.inl rfl, fun _ => rfl⟩
        · simp [coming, hi, hp]
  · refine arriving_send ?_ ?_
    · exact ⟨rfl, rfl, rfl, rfl, rfl, Or.inl rfl, fun h => h⟩
    · simp [coming, hi]

/-- An RR is a poll, or it is not answered. -/
theorem arriving_rrFrame (s : FakeSecondary) (vr : Seq) (poll : Bool) :
    Arriving s (s.hear (rrFrame s.addr vr poll)).1 (s.hear (rrFrame s.addr vr poll)).2 := by
  cases poll with
  | false =>
      rw [hear_release]
      exact arriving_idle ⟨rfl, rfl, rfl, rfl, rfl, Or.inl rfl, fun h => h⟩ rfl
        fun f hf => absurd hf List.not_mem_nil
  | true =>
      have hhear : s.hear (rrFrame s.addr vr) = { s with pollsSeen := s.pollsSeen + 1 }.next := by
        simp [hear, rrFrame]
      have h := arriving_next { s with pollsSeen := s.pollsSeen + 1 }
      rw [hhear]
      exact ⟨⟨h.addr, h.vr, h.strict, h.response, h.responses, h.rejectWith, h.pending⟩,
        h.source, h.old, h.carries, h.coming⟩

/-- A command that the secondary does not act on: swallowed, rejected, or with a wrong N(S).  It is
answered with nothing, with the frame that rejects it, or with an RR. -/
theorem arriving_command {ns vr : Seq} {message : Bytes}
    (hr : ∀ what, s.rejectWith = some what → kind (what ||| pf) = .uFrame)
    (h : s.takes ⟨s.addr, iCtrl ns vr, message⟩ = false) :
    Arriving s (s.hear ⟨s.addr, iCtrl ns vr, message⟩).1
      (s.hear ⟨s.addr, iCtrl ns vr, message⟩).2 := by
  have hhear : s.hear ⟨s.addr, iCtrl ns vr, message⟩ =
      s.request ⟨s.addr, iCtrl ns vr, message⟩ := by simp [hear]
  rw [hhear]
  unfold request
  dsimp only
  by_cases hswallow : s.swallowFirst = true ∧ s.iFramesSeen + 1 = 1
  · rw [if_pos hswallow]
    exact arriving_idle ⟨rfl, rfl, rfl, rfl, rfl, Or.inl rfl, fun h => h⟩ rfl
      fun f hf => absurd hf List.not_mem_nil
  rw [if_neg hswallow]
  rcases hw : s.rejectWith with _ | what
  · dsimp only
    have hns : s.strict = true ∧ nsOf (iCtrl ns vr) ≠ s.vr := by
      by_contra hns
      have htakes : s.takes ⟨s.addr, iCtrl ns vr, message⟩ = true := by
        simp only [takes, hw, kind_iCtrl, decide_eq_false hswallow, decide_eq_false hns]
        simp
      rw [htakes] at h
      cases h
    rw [if_pos hns]
    exact arriving_rr ⟨rfl, rfl, rfl, rfl, rfl, Or.inl hw.symm, fun h => h⟩ rfl
  · refine arriving_idle ⟨rfl, rfl, rfl, rfl, rfl, Or.inr rfl, fun h => h⟩ rfl fun f hf => ?_
    have hu := hr what hw
    rw [List.mem_singleton.1 hf]
    refine ⟨rfl, fun hi => ?_, Or.inl hu, rfl⟩
    rw [hu] at hi
    cases hi

/-- A command that it acts on has the N(S) it expects; from then on the response is owed. -/
theorem hear_command {ns vr : Seq} {message : Bytes} (hs : s.strict = true)
    (h : s.takes ⟨s.addr, iCtrl ns vr, message⟩ = true) :
    ns = s.vr ∧ s.hear ⟨s.addr, iCtrl ns vr, message⟩ = (s.took message).next := by
  simp only [takes, Bool.and_eq_true, Bool.not_eq_true', decide_eq_true_eq, decide_eq_false_iff_not,
    nsOf_iCtrl, Option.isNone_iff_eq_none] at h
  obtain ⟨⟨⟨-, hswallow⟩, hr⟩, hns⟩ := h
  have hns : s.vr = ns := by
    by_contra hne
    exact hns ⟨hs, fun h => hne h.symm⟩
  subst hns
  have hhear : s.hear ⟨s.addr, iCtrl s.vr vr, message⟩ =
      s.request ⟨s.addr, iCtrl s.vr vr, message⟩ := by simp [hear]
  refine ⟨rfl, ?_⟩
  rw [hhear]
  unfold request
  dsimp only
  rw [if_neg hswallow, hr]
  simp [responseFor, took, hr]

end FakeSecondary

/-! ## The plainest line -/

/-- A secondary behind a line that loses frames and delays them. -/
structure Lossy where
  sec : FakeSecondary
  clock : ℕ → Time
  /-- Which frames are lost, by their number on the line. -/
  lost : ℕ → Bool
  /-- How many of the frames that are there each read returns. -/
  ready : ℕ → ℕ
  inbox : List Rx := []
  ticks : ℕ := 0
  frames : ℕ := 0
  reads : ℕ := 0
  /-- The messages the secondary acted on, in order. -/
  executed : List Bytes := []

/-- The frames that get through, where the first has the number `k`. -/
def arrivals (lost : ℕ → Bool) : ℕ → List Rx → List Rx
  | _, [] => []
  | k, f :: fs => if lost k then arrivals lost (k + 1) fs else f :: arrivals lost (k + 1) fs

/-- What gets through comes in order. -/
theorem arrivals_sublist (lost : ℕ → Bool) (k : ℕ) (fs : List Rx) :
    (arrivals lost k fs).Sublist fs := by
  induction fs generalizing k with
  | nil => exact List.Sublist.refl _
  | cons f fs ih =>
      unfold arrivals
      split_ifs
      · exact (ih (k + 1)).cons f
      · exact (ih (k + 1)).cons_cons f

namespace Lossy

/-- A frame of the primary, and the answer to it. -/
def hear (w : Lossy) (f : Frame) : Lossy :=
  if w.lost w.frames then { w with frames := w.frames + 1 }
  else
    { w with
      sec := (w.sec.hear f).2
      frames := w.frames + 1 + (w.sec.hear f).1.length
      inbox := w.inbox ++ arrivals w.lost (w.frames + 1) (w.sec.hear f).1
      executed := if w.sec.takes f then w.executed ++ [f.payload] else w.executed }

instance : Line Lossy where
  monotonic w := (w.clock w.ticks, { w with ticks := w.ticks + 1 })
  sleep _ w := w
  serialOpen w := (.ok (), w)
  setDtr := pure ()
  readFrames _ := fun w =>
    (.ret (w.inbox.take (w.ready w.reads)),
      { w with inbox := w.inbox.drop (w.ready w.reads), reads := w.reads + 1 })
  write f := modify fun w => w.hear f
  xfer f _ := fun w =>
    (.ret ((w.hear f).inbox.flatMap fun r => buildFrame r.toFrame), { w.hear f with inbox := [] })
  serialClose := pure ()

instance : Medium Lossy where
  Fits _ := True
  Sound _ := True
  sec w := w.sec
  inbox w := w.inbox
  executed w := w.executed
  setSec g w := { w with sec := g w.sec }

instance : Channel Lossy where
  fits_nil := trivial
  monotonic _ := ⟨trivial, rfl, rfl, rfl⟩
  sleep _ _ := ⟨trivial, rfl, rfl, rfl⟩
  write := by
    intro w f _ _ _
    show Sent w f (w.hear f)
    by_cases hlost : w.lost w.frames = true
    · refine Or.inl ?_
      rw [hear, if_pos hlost]
      exact ⟨trivial, rfl, rfl, rfl⟩
    · refine Or.inr ⟨arrivals w.lost (w.frames + 1) (w.sec.hear f).1, ?_⟩
      rw [hear, if_neg hlost]
      exact ⟨trivial, rfl, rfl, rfl, arrivals_sublist _ _ _⟩
  readFrames _ _ := ⟨trivial, rfl, List.take_append_drop _ _, rfl⟩
  setSec_spec _ _ := ⟨trivial, rfl, rfl, rfl⟩

end Lossy

end OpenAisg.Link
