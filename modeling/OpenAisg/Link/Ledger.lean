import Mathlib.Data.List.Induction
import OpenAisg.Link.Retransmission

/-!
# The books of one call

An observer reads the log of one `exchange` event by event and keeps a `Ledger`:
V(R), whether the command is acknowledged, how often it was sent, and the P bits
since the last read.

* `Ledger.step`, `ledger` — one event, and a whole log.
* `Ledger.prompted` — the frames that `exchange` answers with a P bit.
* `Lawful` — every frame handed to the port is the command, or an RR with the
  ledger's V(R).
* `Turns`, `Reserved` — a read between any two frames with P, and what the peer must
  refrain from for that.
* `Books`, `Owing` — the invariants that tie the ledger to the call's variables.
* `wp_exchange_booked` — they hold at every moment of every call.
-/

namespace OpenAisg.Link

open Hdlc Prog Trace

/-! ## The ledger -/

/-- The frame an event hands to the port, whether or not the port took it. -/
def WireEvent.handed : WireEvent → Option Frame
  | .tx g => some g
  | .txFault g => some g
  | _ => none

/-- A frame went out. -/
def WireEvent.isTx : WireEvent → Bool
  | .tx _ => true
  | _ => false

/-- A frame with P went out. -/
def WireEvent.polling : WireEvent → Bool
  | .tx g => polls g.ctrl
  | _ => false

/-- `_read_frames` was called. -/
def WireEvent.reading : WireEvent → Bool
  | .batch _ => true
  | .fault => true
  | _ => false

/-- A response was accepted. -/
def WireEvent.isAccepted : WireEvent → Bool
  | .accepted .. => true
  | _ => false

/-- What the observer knows of a call: V(R), whether the command was acknowledged, and since the
last read the frames with P that went out and the frames that prompted one. -/
structure Ledger where
  /-- V(R): one further for each I-frame taken up. -/
  vr : Seq
  /-- The peer has acknowledged the command. -/
  acked : Bool := false
  /-- Transmissions of the command. -/
  sent : ℕ := 0
  /-- Frames with P that went out since the last read. -/
  polls : ℕ := 0
  /-- Frames heard since the last read that are answered with P. -/
  prompts : ℕ := 0

variable {υ : Type}

/-- `exchange` answers this frame with P: an I-frame out of sequence or not for this
call is acknowledged so, and a REJ has the command sent again. -/
def Ledger.prompted (ℓ : Ledger) (q : Call υ) (f : Rx) : Bool :=
  match kind f.ctrl with
  | .iFrame => nsOf f.ctrl ≠ ℓ.vr || q.router f.payload ≠ .accept
  | .rej => !ℓ.acked && ℓ.sent < 4
  | .srej => !ℓ.acked && ℓ.sent < 4
  | _ => false

/-- One event of a call that began with the peer in state `p`.  A read opens a new turn, and the two
counts start over. -/
def Ledger.step (q : Call υ) (p : PeerState) (ℓ : Ledger) : WireEvent → Ledger
  | .tx g => { ℓ with
      sent := ℓ.sent + if g = commandFrame q p then 1 else 0
      polls := ℓ.polls + if Hdlc.polls g.ctrl then 1 else 0 }
  | .txFault g => { ℓ with sent := ℓ.sent + if g = commandFrame q p then 1 else 0 }
  | .batch _ => { ℓ with polls := 0, prompts := 0 }
  | .fault => { ℓ with polls := 0, prompts := 0 }
  | .rx who f =>
      let heard := { ℓ with acked := ℓ.acked || acks q.addr p.vs (.rx who f) }
      { heard with prompts := ℓ.prompts + if heard.prompted q f then 1 else 0 }
  | .taken .. => { ℓ with vr := ℓ.vr + 1 }
  | _ => ℓ

/-- The ledger after the events `L` of the call. -/
def ledger (q : Call υ) (p : PeerState) (L : List WireEvent) : Ledger :=
  L.foldl (Ledger.step q p) { vr := p.vr }

variable {q : Call υ} {p : PeerState} {L : List WireEvent} {x : Flight}

@[simp] theorem ledger_nil : ledger q p [] = { vr := p.vr } := rfl

@[simp] theorem ledger_concat (e : WireEvent) :
    ledger q p (L ++ [e]) = (ledger q p L).step q p e := by
  simp [ledger, List.foldl_append]

/-- The ledger knows of an acknowledgement exactly when the log holds one. -/
theorem ledger_acked : (ledger q p L).acked = L.any (acks q.addr p.vs) := by
  induction L using List.reverseRecOn with
  | nil => rfl
  | append_singleton L e ih =>
      rw [ledger_concat, List.any_append, ← ih]
      cases e <;> simp [Ledger.step, acks, numbered]

/-- The P bits since the last read. -/
theorem ledger_polls :
    (ledger q p L).polls = (since WireEvent.reading L).countP WireEvent.polling := by
  induction L using List.reverseRecOn with
  | nil => rfl
  | append_singleton L e ih =>
      rw [ledger_concat, since_concat]
      cases e with
      | tx g =>
          by_cases hg : polls g.ctrl = true <;>
            simp [Ledger.step, WireEvent.reading, WireEvent.polling, List.countP_append, ih, hg]
      | _ => simp [Ledger.step, WireEvent.reading, WireEvent.polling, List.countP_append, ih]

/-! ## The laws -/

/-- Every frame handed to the port is the command, or an RR with the current V(R).
The command is built once, with the V(R) of the beginning. -/
def Lawful (q : Call υ) (p : PeerState) : List WireEvent → Prop :=
  Always fun past e => ∀ g, e.handed = some g →
    g = commandFrame q p ∨ ∃ poll, g = rrFrame q.addr (ledger q p past).vr poll

/-- Between two frames with P there is a read: nobody asks twice before it has listened. -/
def Turns : List WireEvent → Prop :=
  Always fun past e => e.polling = true → ∀ a ∈ since WireEvent.reading past, a.polling = false

/-- Of the frames of one read, none prompts an answer with P when another read
follows, and at most one when anything is sent after it. -/
def Reserved (q : Call υ) (p : PeerState) : List WireEvent → Prop :=
  Always fun past e => (e.reading = true → (ledger q p past).prompts = 0) ∧
    (e.isTx = true → (ledger q p past).prompts ≤ 1)

/-- Every response accepted was acknowledged before, or is itself the
acknowledgement. -/
def AckedFirst (q : Call υ) (p : PeerState) : List WireEvent → Prop :=
  Always fun past e => e.isAccepted = true → ∃ a ∈ past, acks q.addr p.vs a = true

instance : Decidable (Turns L) := inferInstanceAs (Decidable (Always _ L))

instance : Decidable (Reserved q p L) := inferInstanceAs (Decidable (Always _ L))

theorem turns_concat (e : WireEvent) :
    Turns (L ++ [e]) ↔ Turns L ∧ (e.polling = true → (ledger q p L).polls = 0) := by
  rw [Turns, always_concat, ledger_polls, List.countP_eq_zero]
  simp only [Bool.not_eq_true]

theorem reserved_concat (e : WireEvent) :
    Reserved q p (L ++ [e]) ↔ Reserved q p L ∧
      (e.reading = true → (ledger q p L).prompts = 0) ∧
      (e.isTx = true → (ledger q p L).prompts ≤ 1) :=
  always_concat e

/-- A turn has one P bit. -/
theorem Turns.polls_le (q : Call υ) (p : PeerState) (h : Turns L) : (ledger q p L).polls ≤ 1 := by
  induction L using List.reverseRecOn with
  | nil => exact Nat.zero_le 1
  | append_singleton L e ih =>
      obtain ⟨hL, he⟩ := (turns_concat (q := q) (p := p) e).1 h
      have := ih hL
      rw [ledger_concat]
      cases e with
      | tx g =>
          simp only [Ledger.step]
          split_ifs with hg
          · have := he hg
            omega
          · omega
      | _ => simp [Ledger.step, this]

/-! ## The invariants -/

/-- What the log `L` of a call says of its variables and of the peer's state `now`.  This is the
invariant of the call: V(R), V(S), the acknowledgement and the resends left are all what the
ledger of the log makes them. -/
structure Books (q : Call υ) (p : PeerState) (L : List WireEvent) (x : Flight)
    (now : PeerState) : Prop where
  vr : now.vr = (ledger q p L).vr
  vs : now.vs = if x.acked then p.vs + 1 else p.vs
  acked : x.acked = (ledger q p L).acked
  sent : (ledger q p L).sent + x.retxLeft = 4
  pending : ∀ e ∈ L, e.isAccepted = false
  lawful : Lawful q p L

/-- Each frame with P since the last read was prompted, and `d` prompts are still to be answered.
`d` is 1 while a frame is being handled that asks for an answer, and 0 between two frames. -/
structure Owing (q : Call υ) (p : PeerState) (d : ℕ) (L : List WireEvent) : Prop where
  owed : (ledger q p L).polls + d = (ledger q p L).prompts
  fair : Turns L ↔ Reserved q p L

/-- The call is about to read: it has sent one frame with P more than was prompted. -/
structure Passing (q : Call υ) (p : PeerState) (L : List WireEvent) : Prop where
  owed : (ledger q p L).polls = (ledger q p L).prompts + 1
  fair : Turns L ↔ Reserved q p L ∧ (ledger q p L).prompts = 0

section Steps

variable {now : PeerState} {d : ℕ}

/-- An event that neither transmits nor is a response. -/
theorem Books.concat (h : Books q p L x now) {e : WireEvent} (hh : e.handed = none)
    (ha : e.isAccepted = false) {y : Flight} {now' : PeerState}
    (hvr : now'.vr = ((ledger q p L).step q p e).vr)
    (hvs : now'.vs = if y.acked then p.vs + 1 else p.vs)
    (hack : y.acked = ((ledger q p L).step q p e).acked)
    (hsent : ((ledger q p L).step q p e).sent + y.retxLeft = 4) :
    Books q p (L ++ [e]) y now' where
  vr := by rw [ledger_concat, hvr]
  vs := hvs
  acked := by rw [ledger_concat, hack]
  sent := by rw [ledger_concat, hsent]
  pending a hmem := by
    rcases List.mem_append.1 hmem with hl | hl
    · exact h.pending a hl
    · rw [List.mem_singleton.1 hl]
      exact ha
  lawful := (always_concat e).2 ⟨h.lawful, fun g hg => by rw [hh] at hg; cases hg⟩

/-- A transmission, whether or not the port took the frame. -/
theorem Books.transmit (h : Books q p L x now) {e : WireEvent} {g : Frame}
    (he : e = .tx g ∨ e = .txFault g)
    (hg : g = commandFrame q p ∨ ∃ poll, g = rrFrame q.addr now.vr poll)
    {y : Flight} (hack : y.acked = x.acked)
    (hsent : y.retxLeft + (if g = commandFrame q p then 1 else 0) = x.retxLeft) :
    Books q p (L ++ [e]) y now := by
  have hstep : ((ledger q p L).step q p e).vr = (ledger q p L).vr ∧
      ((ledger q p L).step q p e).acked = (ledger q p L).acked ∧
      ((ledger q p L).step q p e).sent =
        (ledger q p L).sent + (if g = commandFrame q p then 1 else 0) ∧
      e.handed = some g ∧ e.isAccepted = false := by
    rcases he with rfl | rfl <;> exact ⟨rfl, rfl, rfl, rfl, rfl⟩
  obtain ⟨hvr, ha, hs, hh, hacc⟩ := hstep
  refine ⟨by rw [ledger_concat, hvr, h.vr], by rw [hack, h.vs], by rw [ledger_concat, ha, hack,
    h.acked], ?_, fun a hmem => ?_, (always_concat e).2 ⟨h.lawful, fun g' hg' => ?_⟩⟩
  · have := h.sent
    rw [ledger_concat, hs]
    omega
  · rcases List.mem_append.1 hmem with hl | hl
    · exact h.pending a hl
    · rw [List.mem_singleton.1 hl]
      exact hacc
  · rw [hh] at hg'
    cases hg'
    rw [← h.vr]
    exact hg

/-- An event that is neither a read nor a transmission. -/
theorem Owing.concat (h : Owing q p d L) {e : WireEvent} (hr : e.reading = false)
    (ht : e.isTx = false) {d' : ℕ}
    (hd : ((ledger q p L).step q p e).polls + d' = ((ledger q p L).step q p e).prompts) :
    Owing q p d' (L ++ [e]) where
  owed := by rw [ledger_concat, hd]
  fair := by
    have hp : e.polling = false := by cases e <;> simp_all [WireEvent.isTx, WireEvent.polling]
    rw [turns_concat (q := q) (p := p), reserved_concat, h.fair]
    simp [hr, ht, hp]

/-- The answer to a prompt. -/
theorem Owing.answer (h : Owing q p 1 L) {g : Frame} (hg : polls g.ctrl = true) :
    Owing q p 0 (L ++ [.tx g]) where
  owed := by
    simpa [Ledger.step, hg] using h.owed
  fair := by
    have := h.owed
    rw [turns_concat (q := q) (p := p), reserved_concat, h.fair]
    refine and_congr_right fun _ => ⟨fun hp => ?_, fun hr _ => ?_⟩
    · have hp := hp hg
      exact ⟨fun hr => absurd hr Bool.false_ne_true, fun _ => by omega⟩
    · have hr := hr.2 rfl
      omega

/-- A frame without P. -/
theorem Owing.release (h : Owing q p 0 L) {g : Frame} (hg : polls g.ctrl = false) :
    Owing q p 0 (L ++ [.tx g]) where
  owed := by
    simpa [Ledger.step, hg] using h.owed
  fair := by
    rw [turns_concat (q := q) (p := p), reserved_concat, ← h.fair]
    simp only [WireEvent.polling, WireEvent.reading, WireEvent.isTx, hg]
    have hle : Turns L → (ledger q p L).prompts ≤ 1 := fun ht => by
      have := ht.polls_le q p
      have := h.owed
      omega
    simpa using hle

/-- The frame that ends a pass. -/
theorem Owing.pass (h : Owing q p 0 L) {g : Frame} (hg : polls g.ctrl = true) :
    Passing q p (L ++ [.tx g]) where
  owed := by
    simpa [Ledger.step, hg] using h.owed
  fair := by
    have := h.owed
    rw [turns_concat (q := q) (p := p), reserved_concat, h.fair, ledger_concat, and_assoc]
    refine and_congr_right fun _ => ⟨fun hp => ?_, fun hr _ => ?_⟩
    · have hz : (ledger q p L).prompts = 0 := by rw [← h.owed, hp hg]
      refine ⟨⟨fun hr => absurd hr Bool.false_ne_true, fun _ => ?_⟩, hz⟩
      rw [hz]
      exact Nat.zero_le 1
    · have hz : (ledger q p L).prompts = 0 := hr.2
      omega

/-- A read. -/
theorem Passing.read (h : Passing q p L) {e : WireEvent} (he : e.reading = true) :
    Owing q p 0 (L ++ [e]) where
  owed := by
    rw [ledger_concat]
    cases e <;> first | rfl | cases he
  fair := by
    rw [turns_concat (q := q) (p := p), reserved_concat, h.fair]
    cases e <;> simp_all [WireEvent.reading, WireEvent.polling, WireEvent.isTx]

end Steps

/-! ## The whole call -/

/-- What holds of the log `L` of a call and of the peer's state `now`, wherever the call
is; once a DM or FRMR has reset the numbering, of the log only. -/
structure Told (q : Call υ) (p : PeerState) (L : List WireEvent) (reset : Bool)
    (now : PeerState) : Prop where
  lawful : Lawful q p L
  fair : Turns L ↔ Reserved q p L
  vr : reset = false → now.vr = (ledger q p L).vr
  vs : reset = false →
    (now.vs = (if (ledger q p L).acked then p.vs + 1 else p.vs) ↔ AckedFirst q p L)

/-- Until a response is accepted, V(S) follows the acknowledgements. -/
theorem Books.told {now : PeerState} {d : ℕ} (h : Books q p L x now) (hd : Owing q p d L)
    (reset : Bool) : Told q p L reset now where
  lawful := h.lawful
  fair := hd.fair
  vr _ := h.vr
  vs _ := by
    rw [← h.acked]
    refine iff_of_true h.vs fun past e later hL ha => ?_
    have := h.pending e (by rw [hL]; exact List.mem_append_right _ (List.mem_cons_self ..))
    rw [this] at ha
    cases ha

/-- A response is accepted: V(S) is past the command, acknowledged or not. -/
theorem Books.accept {now now' : PeerState} (h : Books q p L x now) (hd : Owing q p 0 L)
    (m : Bytes) (f : Rx) (hvr : now'.vr = now.vr) (hvs : now'.vs = p.vs + 1) :
    Told q p (L ++ [.accepted m f]) false now' where
  lawful := (always_concat _).2 ⟨h.lawful, fun g hg => by cases hg⟩
  fair := (hd.concat rfl rfl (by exact hd.owed) : Owing q p 0 _).fair
  vr _ := by rw [ledger_concat, hvr, h.vr]; rfl
  vs _ := by
    have hne : ∀ v : Seq, v + 1 ≠ v := by decide
    have hold : AckedFirst q p L := ((h.told hd false).vs rfl).1 (by rw [← h.acked]; exact h.vs)
    have hstep : ((ledger q p L).step q p (.accepted m f)).acked = L.any (acks q.addr p.vs) := by
      rw [← ledger_acked]
      rfl
    rw [hvs, ledger_concat, hstep, AckedFirst, always_concat, ← List.any_eq_true]
    refine ⟨fun heq => ⟨hold, fun _ => ?_⟩, fun ha => by rw [ha.2 rfl]; rfl⟩
    by_contra hn
    rw [if_neg hn] at heq
    exact hne _ heq

section Call

variable {W : Type} [Line W] {s t : LinkSt W υ} {d : ℕ}

/-- The books of the call that began in `s` are in order, with `d` prompts open. -/
def Booked (s : LinkSt W υ) (q : Call υ) (p : PeerState) (d : ℕ) (x : Flight)
    (t : LinkSt W υ) : Prop :=
  ∃ L, t.log = s.log ++ L ∧ Books q p L x (t.link.peers q.addr) ∧ Owing q p d L

/-- They are in order between two passes. -/
def Paused (s : LinkSt W υ) (q : Call υ) (p : PeerState) (x : Flight) (t : LinkSt W υ) : Prop :=
  ∃ L, t.log = s.log ++ L ∧ Books q p L x (t.link.peers q.addr) ∧ Passing q p L

/-- How a call leaves the log and the peer's state. -/
def Reported (s : LinkSt W υ) (q : Call υ) (p : PeerState) (reset : Bool) (t : LinkSt W υ) :
    Prop :=
  ∃ L, t.log = s.log ++ L ∧ Told q p L reset (t.link.peers q.addr)

omit [Line W] in
theorem Booked.reported (h : Booked s q p d x t) (reset : Bool) : Reported s q p reset t := by
  obtain ⟨L, hL, hb, hd⟩ := h
  exact ⟨L, hL, hb.told hd reset⟩

/-- Handing a lawful frame to the port. -/
theorem wp_write_booked {g : Frame} {y : Flight} {Q : Unit → LinkSt W υ → Prop}
    (hL : t.log = s.log ++ L) (h : Books q p L x (t.link.peers q.addr)) (hd : Owing q p d L)
    (hg : g = commandFrame q p ∨ ∃ poll, g = rrFrame q.addr (t.link.peers q.addr).vr poll)
    (hack : y.acked = x.acked)
    (hsent : y.retxLeft + (if g = commandFrame q p then 1 else 0) = x.retxLeft)
    (hQ : ∀ u : LinkSt W υ, u.log = s.log ++ (L ++ [.tx g]) → u.link = t.link →
      Books q p (L ++ [.tx g]) y (u.link.peers q.addr) → Q () u) :
    wp (write g) Q (fun e u => Reported s q p e.isReset u) (Reported s q p false) t := by
  have hfault : ∀ (u : LinkSt W υ) (reset : Bool), u.log = t.log ++ [.txFault g] →
      u.link = t.link → Reported s q p reset u := by
    intro u reset hu hl
    refine ⟨L ++ [.txFault g], by rw [hu, hL, List.append_assoc], ?_⟩
    rw [hl]
    exact (h.transmit (Or.inr rfl) hg hack hsent).told
      (hd.concat rfl rfl (by exact hd.owed) : Owing q p d _) reset
  refine wp_write.2 (wp_any (fun _ w => ?_) (fun m w => ?_) (fun w => ?_) _)
  · refine hQ _ ?_ rfl (h.transmit (Or.inl rfl) hg hack hsent)
    dsimp only
    rw [hL, List.append_assoc]
  · exact hfault _ _ rfl rfl
  · exact hfault _ _ rfl rfl

/-- Answering a prompt with an RR. -/
theorem wp_answer (h : Booked s q p 1 x t) {vr : Seq} (hvr : vr = (t.link.peers q.addr).vr) :
    wp (write (rrFrame q.addr vr)) (fun _ u => Booked s q p 0 x u ∧ u.link = t.link)
      (fun e u => Reported s q p e.isReset u) (Reported s q p false) t := by
  obtain ⟨L, hL, hb, hd⟩ := h
  refine wp_write_booked (y := x) hL hb hd (Or.inr ⟨true, by rw [hvr]⟩) rfl ?_
    fun u hu hl hbu => ⟨⟨_, hu, hbu, hd.answer ?_⟩, hl⟩
  · rw [if_neg (rrFrame_ne_commandFrame q p vr true)]
    rfl
  · exact polls_rrCtrl _ _

/-- The I-frame path, after the frame was heard.  The cases are out of sequence, in sequence and
for this call, and in sequence and not. -/
theorem wp_onIFrame_booked {f : Rx} (hk : kind f.ctrl = .iFrame) {who : Receiver}
    (hL : t.log = s.log ++ (L ++ [.rx who f]))
    (hb : Books q p (L ++ [.rx who f]) x (t.link.peers q.addr))
    (hd : Owing q p (if (ledger q p (L ++ [.rx who f])).prompted q f then 1 else 0)
      (L ++ [.rx who f])) :
    wp (onIFrame q p.vs x f)
      (Step.post (fun _ u => Reported s q p false u) (fun y u => Booked s q p 0 y u))
      (fun e u => Reported s q p e.isReset u) (Reported s q p false) t := by
  have hprompt : (ledger q p (L ++ [.rx who f])).prompted q f =
      (decide (nsOf f.ctrl ≠ (t.link.peers q.addr).vr) ||
        decide (q.router f.payload ≠ .accept)) := by
    rw [Ledger.prompted, hk, ← hb.vr]
  rw [hprompt] at hd
  unfold onIFrame
  rw [wp_bind, wp_peer, wp_ite]
  refine ⟨fun hns => ?_, fun hns => ?_⟩
  · rw [wp_bind, wp_bump, wp_bind]
    rw [decide_eq_true hns, Bool.true_or, if_pos rfl] at hd
    exact (wp_answer (by exact ⟨_, hL, hb, hd⟩) (by rfl)).mono (fun _ u hu => hu.1)
      (fun _ _ h => h) fun _ h => h
  · rw [decide_eq_false hns, Bool.false_or] at hd
    have hns : nsOf f.ctrl = (t.link.peers q.addr).vr := not_not.1 hns
    rw [wp_bind, wp_logEvent, wp_bind, wp_setPeer]
    -- V(R) and the ledger move together
    have hbt : Books q p ((L ++ [.rx who f]) ++
        [.taken (.exchange q.message) (t.link.peers q.addr).vr f]) x
        { t.link.peers q.addr with vr := nsOf f.ctrl + 1 } := by
      refine hb.concat rfl rfl ?_ hb.vs hb.acked hb.sent
      dsimp only [Ledger.step]
      rw [hns, hb.vr]
    have hdt := hd.concat (e := .taken (.exchange q.message) (t.link.peers q.addr).vr f) rfl rfl
      (by exact hd.owed)
    have hlog : t.log ++ [.taken (.exchange q.message) (t.link.peers q.addr).vr f] =
        s.log ++ ((L ++ [.rx who f]) ++
          [.taken (.exchange q.message) (t.link.peers q.addr).vr f]) := by
      rw [hL, List.append_assoc]
    cases hr : q.router f.payload with
    | accept =>
        rw [hr] at hdt
        rw [wp_bind]
        refine wp_write_booked (y := x) hlog (by simpa using hbt) hdt
          (Or.inr ⟨false, by simp⟩) rfl ?_ fun u hu hl hbu => ?_
        · rw [if_neg (rrFrame_ne_commandFrame q p _ false)]
          rfl
        have hdu := hdt.release (g := rrFrame q.addr (nsOf f.ctrl + 1) false) (polls_rrCtrl _ _)
        simp only [wp_bind, wp_onlyIf, wp_setPeer, wp_logEvent, wp_pure]
        have hend : ∀ v : LinkSt W υ, v.log = u.log ++ [.accepted q.message f] →
            (v.link.peers q.addr).vr = (u.link.peers q.addr).vr →
            (v.link.peers q.addr).vs = p.vs + 1 → Reported s q p false v := by
          intro v hv hvr hvs
          exact ⟨_, by rw [hv, hu, List.append_assoc], hbu.accept hdu _ _ hvr hvs⟩
        refine ⟨fun hx => hend _ rfl (by simp) (by simp), fun hx => hend _ rfl rfl ?_⟩
        have hx : x.acked = true := by simpa using hx
        have hvs := hbu.vs
        rw [hx] at hvs
        exact hvs
    | indication =>
        rw [hr] at hdt
        rw [wp_bind]
        refine (wp_answer (by exact ⟨_, hlog, by simpa using hbt, hdt⟩) (by simp)).mono
          (fun _ u hu => ?_) (fun _ _ h => h) fun _ h => h
        obtain ⟨⟨M, hM, hbM, hdM⟩, -⟩ := hu
        exact ⟨M, hM, ⟨hbM.vr, hbM.vs, hbM.acked, hbM.sent, hbM.pending, hbM.lawful⟩, hdM⟩
    | unexpected =>
        rw [hr] at hdt
        rw [wp_bind]
        exact (wp_answer (by exact ⟨_, hlog, by simpa using hbt, hdt⟩) (by simp)).mono
          (fun _ u hu => hu.1) (fun _ _ h => h) fun _ h => h

/-- Sending the command again. -/
theorem wp_again {Q : Unit → LinkSt W υ → Prop} {y : Flight} (hL : t.log = s.log ++ L)
    (hb : Books q p L x (t.link.peers q.addr)) (hd : Owing q p d L) (hleft : x.retxLeft ≠ 0)
    (hack : y.acked = x.acked) (hr : y.retxLeft = x.retxLeft - 1)
    (hQ : ∀ u : LinkSt W υ, u.log = s.log ++ (L ++ [.tx (commandFrame q p)]) →
      Books q p (L ++ [.tx (commandFrame q p)]) y (u.link.peers q.addr) → Q () u) :
    wp (write (commandFrame q p)) Q (fun e u => Reported s q p e.isReset u)
      (Reported s q p false) t := by
  refine wp_write_booked hL hb hd (Or.inl rfl) hack ?_ fun u hu _ hbu => hQ u hu hbu
  rw [if_pos rfl, hr]
  omega

/-- An I- or S-frame whose N(R) has been applied. -/
theorem wp_onSequenced_booked {f : Rx} (hk : kind f.ctrl ≠ .uFrame) {who : Receiver}
    (hL : t.log = s.log ++ (L ++ [.rx who f]))
    (hb : Books q p (L ++ [.rx who f]) x (t.link.peers q.addr))
    (hd : Owing q p (if (ledger q p (L ++ [.rx who f])).prompted q f then 1 else 0)
      (L ++ [.rx who f])) :
    wp (onSequenced q (commandFrame q p) p.vs x f)
      (Step.post (fun _ u => Reported s q p false u) (fun y u => Booked s q p 0 y u))
      (fun e u => Reported s q p e.isReset u) (Reported s q p false) t := by
  have hquiet : (ledger q p (L ++ [.rx who f])).prompted q f = false → Booked s q p 0 x t := by
    intro hp
    rw [hp] at hd
    exact ⟨_, hL, hb, hd⟩
  have hrej : isReject f.ctrl = true → wp (if !x.acked ∧ x.retxLeft ≠ 0 then do
        bump fun st => { st with retx := st.retx + 1 }
        write (commandFrame q p)
        pure (.next { x with retxLeft := x.retxLeft - 1 })
      else pure (.next x) : LinkProg W υ (Step Bytes Flight))
      (Step.post (fun _ u => Reported s q p false u) (fun y u => Booked s q p 0 y u))
      (fun e u => Reported s q p e.isReset u) (Reported s q p false) t := by
    intro hr
    have hprompt : (ledger q p (L ++ [.rx who f])).prompted q f =
        (!x.acked && decide ((ledger q p (L ++ [.rx who f])).sent < 4)) := by
      rw [hb.acked]
      rcases Bool.or_eq_true_iff.1 hr with h | h <;>
        rw [Ledger.prompted, of_decide_eq_true h]
    have hsent := hb.sent
    rw [wp_ite]
    refine ⟨fun hc => ?_, fun hc => hquiet ?_⟩
    · rw [hprompt, hc.1, decide_eq_true (by omega), Bool.and_self, if_pos rfl] at hd
      rw [wp_bind, wp_bump, wp_bind]
      refine wp_again (y := { x with retxLeft := x.retxLeft - 1 }) hL hb hd hc.2 rfl rfl
        fun u hu hbu => ?_
      exact ⟨_, hu, hbu, hd.answer (polls_iCtrl _ _)⟩
    · rw [hprompt, Bool.and_eq_false_iff, decide_eq_false_iff_not]
      by_cases ha : x.acked = true
      · exact Or.inl (by rw [ha]; rfl)
      · refine Or.inr fun hlt => hc ⟨by simpa using ha, ?_⟩
        omega
  unfold onSequenced
  cases hc : kind f.ctrl with
  | rr => exact hquiet (by rw [Ledger.prompted, hc])
  | rnr => exact hquiet (by rw [Ledger.prompted, hc])
  | rej => exact hrej (by simp [isReject, hc])
  | srej => exact hrej (by simp [isReject, hc])
  | iFrame => exact wp_onIFrame_booked hc hL hb hd
  | uFrame => exact absurd hc hk

/-- One frame of a batch leaves the books in order, or ends the call with them closed. -/
theorem wp_onFrame_booked (h : Booked s q p 0 x t) (f : Rx) :
    wp (onFrame q (commandFrame q p) p.vs x f)
      (Step.post (fun _ u => Reported s q p false u) (fun y u => Booked s q p 0 y u))
      (fun e u => Reported s q p e.isReset u) (Reported s q p false) t := by
  obtain ⟨L, hL, hb, hd⟩ := h
  unfold onFrame
  rw [wp_ite]
  refine ⟨fun _ => ⟨L, hL, hb, hd⟩, fun haddr => ?_⟩
  rw [wp_bind, wp_logEvent, wp_ite]
  have hlog : t.log ++ [.rx (.exchange q.message) f] =
      s.log ++ (L ++ [.rx (.exchange q.message) f]) := by rw [hL, List.append_assoc]
  -- the prompts go up by one exactly when the frame prompts an answer
  have hdt : Owing q p (if (ledger q p (L ++ [.rx (.exchange q.message) f])).prompted q f
      then 1 else 0) (L ++ [.rx (.exchange q.message) f]) := by
    refine hd.concat rfl rfl ?_
    have := hd.owed
    rw [ledger_concat]
    dsimp only [Ledger.step]
    rw [← this]
    rfl
  refine ⟨fun hu => ?_, fun hu => ?_⟩
  · have hacks : acks q.addr p.vs (.rx (.exchange q.message) f) = false := by
      simp [acks, numbered, bears, hu]
    have hbt : Books q p (L ++ [.rx (.exchange q.message) f]) x (t.link.peers q.addr) := by
      refine hb.concat rfl rfl hb.vr hb.vs ?_ hb.sent
      dsimp only [Ledger.step]
      rw [hacks, Bool.or_false, hb.acked]
    rw [Ledger.prompted, hu, if_neg Bool.false_ne_true] at hdt
    unfold onUFrame
    rw [wp_ite]
    refine ⟨fun _ => ?_, fun _ => ⟨_, hlog, hbt, hdt⟩⟩
    rw [wp_bind, wp_setPeer, wp_bind, wp_bump]
    obtain ⟨hlawful, hfair, -, -⟩ := hbt.told hdt true
    exact ⟨_, hlog, hlawful, hfair, fun hr => absurd hr.symm Bool.false_ne_true,
      fun hr => absurd hr.symm Bool.false_ne_true⟩
  · have hacks : acks q.addr p.vs (.rx (.exchange q.message) f) =
        decide (nrOf f.ctrl = p.vs + 1) := by
      have hne : kind f.ctrl ≠ .uFrame := hu
      have haddr : f.addr = q.addr := not_not.1 haddr
      simp [acks, numbered, bears, hne, haddr]
    have hbt : ∀ (y : Flight) (now : PeerState), y.retxLeft = x.retxLeft →
        y.acked = (x.acked || decide (nrOf f.ctrl = p.vs + 1)) →
        now.vr = (t.link.peers q.addr).vr → now.vs = (if y.acked then p.vs + 1 else p.vs) →
        Books q p (L ++ [.rx (.exchange q.message) f]) y now := by
      intro y now hr ha hvr hvs
      refine hb.concat rfl rfl (by rw [hvr]; exact hb.vr) hvs ?_ (by rw [hr]; exact hb.sent)
      dsimp only [Ledger.step]
      rw [hacks, ha, hb.acked]
    rw [wp_bind, ackedOr, wp_ite]
    refine ⟨fun ha => ?_, fun ha => ?_⟩
    · refine wp_onSequenced_booked hu hlog (hbt _ _ rfl ?_ rfl ?_) hdt
      · simp only [ha, Bool.true_or]
      · rw [hb.vs, ha]
    · have hvs := hb.vs
      rw [if_neg ha] at hvs
      unfold applyAck
      rw [wp_ite]
      refine ⟨fun hnr => ?_, fun hnr => ?_⟩
      · rw [wp_bind, wp_setPeer]
        refine wp_onSequenced_booked hu hlog (hbt _ _ rfl ?_ ?_ ?_) hdt
        · simp only [hnr, decide_true, Bool.or_true]
        · simp only [if_true]
        · simp only [if_true]
      · refine wp_onSequenced_booked hu hlog (hbt _ _ rfl ?_ rfl ?_) hdt
        · simp [hnr, ha]
        · rw [hvs]
          rfl

/-- The end of a pass: nothing is open, and at most one frame with P goes out. -/
theorem wp_passEnd_booked (h : Booked s q p 0 x t) :
    wp (passEnd q (commandFrame q p) p.vs x)
      (Step.post (fun _ u => Reported s q p false u) (fun y u => Paused s q p y u))
      (fun e u => Reported s q p e.isReset u) (Reported s q p false) t := by
  unfold passEnd
  rw [wp_bind, wp_monotonic, wp_ite]
  refine ⟨fun hc => ?_, fun _ => ?_⟩
  · obtain ⟨L, hL, hb, hd⟩ := h
    rw [wp_bind, wp_bump, wp_bind]
    refine wp_again (by exact hL) (by exact hb) hd hc.2.2.2 ?_ ?_ fun u hu hbu =>
      ⟨_, hu, hbu, hd.pass (polls_iCtrl _ _)⟩
    · rfl
    · rfl
  · rw [wp_ite]
    refine ⟨fun _ => h.reported _, fun _ => ?_⟩
    obtain ⟨L, hL, hb, hd⟩ := h
    simp only [wp_bind, wp_bump, wp_callback, wp_sleep, wp_peer]
    refine wp_write_booked (y := { x with polls := x.polls + 1 }) (by exact hL) (by exact hb) hd
      (Or.inr ⟨true, by rfl⟩) (by rfl) ?_ fun u hu _ hbu =>
      ⟨_, hu, hbu, hd.pass (polls_rrCtrl _ _)⟩
    rw [if_neg (rrFrame_ne_commandFrame q p _ true)]
    rfl

/-- **The books of a call** are in order however it ends, and wherever the bound on its passes
leaves it.  Each law of the bus below is read off from them. -/
theorem wp_exchange_booked (fuel : ℕ) (q : Call υ) (s : LinkSt W υ) :
    wp (exchange fuel q) (fun _ t => Reported s q (s.link.peers q.addr) false t)
      (fun e t => Reported s q (s.link.peers q.addr) e.isReset t)
      (fun t => Reported s q (s.link.peers q.addr) false t ∨
        ∃ x, Paused s q (s.link.peers q.addr) x t ∧ exchange (fuel + 1) q s =
          loop (pass q (commandFrame q (s.link.peers q.addr)) (s.link.peers q.addr).vs) 1 x t)
      s := by
  refine wp_exchange_last (fun x t => Paused s q (s.link.peers q.addr) x t)
    (fun _ x t => Booked s q (s.link.peers q.addr) 0 x t) ?_ (fun x t h => ?_)
    (fun f _ x t h => wp_onFrame_booked h f) fun x t h => wp_passEnd_booked h
  · -- before the command is sent, nothing is owed
    have hb : Books q (s.link.peers q.addr) []
        { deadline := 0, retxAt := 0, retxLeft := 4 } (s.link.peers q.addr) :=
      ⟨rfl, rfl, rfl, rfl, fun _ h => absurd h List.not_mem_nil, always_nil⟩
    have hd : Owing q (s.link.peers q.addr) 0 [] := ⟨rfl, iff_of_true always_nil always_nil⟩
    refine wp_again (y := { deadline := 0, retxAt := 0 }) (List.append_nil _).symm hb hd
      (by decide) rfl rfl fun u hu hbu => ?_
    rw [wp_monotonic]
    exact ⟨_, hu, ⟨hbu.vr, hbu.vs, hbu.acked, hbu.sent, hbu.pending, hbu.lawful⟩,
      hd.pass (polls_iCtrl _ _)⟩
  · obtain ⟨L, hL, hb, hp⟩ := h
    have hread : ∀ (u : LinkSt W υ) (e : WireEvent), e.reading = true → u.log = t.log ++ [e] →
        u.link = t.link → Booked s q (s.link.peers q.addr) 0 x u := by
      intro u e he hu hl
      refine ⟨_, by rw [hu, hL, List.append_assoc], ?_, hp.read he⟩
      rw [hl]
      cases e with
      | batch fs => exact hb.concat rfl rfl hb.vr hb.vs hb.acked hb.sent
      | fault => exact hb.concat rfl rfl hb.vr hb.vs hb.acked hb.sent
      | _ => cases he
    refine wp_readFrames.2 (wp_any (fun fs w => ?_) (fun m w => ?_) (fun w => ?_) _)
    · exact hread _ (.batch fs) rfl rfl rfl
    · exact Booked.reported (d := 0) (x := x) (by exact hread _ .fault rfl rfl rfl) _
    · exact Booked.reported (d := 0) (x := x) (by exact hread _ .fault rfl rfl rfl) _

end Call

end OpenAisg.Link
