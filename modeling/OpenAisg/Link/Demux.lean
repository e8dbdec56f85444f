import Mathlib.Data.List.TakeWhile
import OpenAisg.Lib.Trace
import OpenAisg.Link.Exchange

/-!
# What `exchange` makes of the frames it reads

Three parties share one line: the caller of `exchange` waits for a response, alarms
arrive unasked, and whatever is out of sequence must be acknowledged and dropped.  The
call sorts them with the router it is given.  This file says that it sorts exactly what
the inbound trace holds for it, on every line, from every state and for every router.

* `inSequence` — the I-frames from a peer whose N(S) is the running V(R).
* `routing` — the payloads that the router is to be given, of an inbound trace: those of the
  frames in sequence before a DM or FRMR, up to the first that it accepts.
* `Answered` — an I-frame from the peer is followed by an RR with the V(R) after it.
* `Called` — how the callbacks were called, and with which payloads.
* `Between`, `Ended` — what holds between two frames, and however the call ends.
* `given_frame`, `listening_given`, `over_given` — the one frame in sequence: it goes to
  the router, its RR goes out, and the call goes on or is over.
* `exchange_demultiplexes` — for every line, state and router, every call routes its trace.
-/

namespace OpenAisg.Link

open Hdlc Prog Trace

variable {υ : Type}

/-! ## What the router is to be given -/

/-- The elements up to the first that satisfies `p`, and that one. -/
def upTo {α : Type} (p : α → Bool) : List α → List α
  | [] => []
  | x :: xs => if p x then [x] else x :: upTo p xs

section UpTo

variable {α : Type} {p : α → Bool} {xs : List α}

/-- If no element satisfies `p`, that is all of them. -/
theorem upTo_of_none (h : ∀ x ∈ xs, p x = false) : upTo p xs = xs := by
  induction xs with
  | nil => rfl
  | cons x xs ih =>
      rw [upTo, h x (List.mem_cons_self ..), if_neg Bool.false_ne_true,
        ih fun y hy => h y (List.mem_cons_of_mem _ hy)]

/-- The first that does is the last one taken. -/
theorem upTo_append_of_found (h : ∀ x ∈ xs, p x = false) {y : α} (hy : p y = true)
    (ys : List α) : upTo p (xs ++ y :: ys) = xs ++ [y] := by
  induction xs with
  | nil => simp [upTo, hy]
  | cons x xs ih =>
      rw [List.cons_append, upTo, h x (List.mem_cons_self ..), if_neg Bool.false_ne_true,
        ih fun z hz => h z (List.mem_cons_of_mem _ hz), List.cons_append]

end UpTo

/-- V(R) after `n` more I-frames: `(vr + n) & 7`. -/
def vrPast (vr : Seq) (n : ℕ) : Seq := Fin.ofNat 8 (vr.val + n)

@[simp] theorem vrPast_zero (vr : Seq) : vrPast vr 0 = vr := by
  simp [vrPast]

/-- One I-frame further. -/
theorem vrPast_succ (vr : Seq) (n : ℕ) : vrPast vr (n + 1) = vrPast vr n + 1 := by
  apply Fin.ext
  simp [vrPast, Fin.val_add]
  omega

theorem vrPast_add (vr : Seq) (m n : ℕ) : vrPast vr (m + n) = vrPast (vrPast vr m) n := by
  induction n with
  | zero => simp
  | succ n ih => rw [← Nat.add_assoc, vrPast_succ, vrPast_succ, ih]

/-- The I-frames from `addr` whose N(S) is V(R), which each of them moves on by one.  Frames from
elsewhere, without a number or with a wrong one leave V(R) where it is. -/
def inSequence (addr : Byte) : Seq → List Rx → List Rx
  | _, [] => []
  | vr, f :: fs =>
      if f.addr = addr ∧ kind f.ctrl = .iFrame ∧ nsOf f.ctrl = vr then
        f :: inSequence addr (vr + 1) fs
      else inSequence addr vr fs

/-- A DM or FRMR from `addr`. -/
def isPeerReset (addr : Byte) (f : Rx) : Bool := decide (f.addr = addr) && isReset f.ctrl

/-- The payloads that the router is to be given, when V(R) is `vr` at first.  It is a function of
the frames and of the router, and says nothing of what the call does. -/
def routing (q : Call υ) (vr : Seq) (fs : List Rx) : List Bytes :=
  upTo (fun pl => decide (q.router pl = .accept))
    ((inSequence q.addr vr (fs.takeWhile fun f => !isPeerReset q.addr f)).map (·.payload))

section InSequence

variable {addr : Byte} {vr : Seq} {fs gs : List Rx} {f : Rx}

/-- V(R) runs on from one part of a trace to the next. -/
theorem inSequence_append :
    inSequence addr vr (fs ++ gs) =
      inSequence addr vr fs ++ inSequence addr (vrPast vr (inSequence addr vr fs).length) gs := by
  induction fs generalizing vr with
  | nil => simp [inSequence]
  | cons f fs ih =>
      rw [List.cons_append, inSequence, inSequence]
      split
      · have hone : vrPast vr 1 = vr + 1 := by rw [vrPast_succ, vrPast_zero]
        rw [ih, List.cons_append, List.length_cons, Nat.add_comm, vrPast_add, hone]
      · exact ih

/-- One frame more. -/
theorem inSequence_concat_of (hf : f.addr = addr) (hk : kind f.ctrl = .iFrame)
    (hns : nsOf f.ctrl = vrPast vr (inSequence addr vr fs).length) :
    inSequence addr vr (fs ++ [f]) = inSequence addr vr fs ++ [f] := by
  rw [inSequence_append, inSequence, if_pos ⟨hf, hk, hns⟩, inSequence]

/-- A frame from elsewhere, without a number, or with a wrong one. -/
theorem inSequence_concat_of_not
    (h : ¬ (f.addr = addr ∧ kind f.ctrl = .iFrame ∧
      nsOf f.ctrl = vrPast vr (inSequence addr vr fs).length)) :
    inSequence addr vr (fs ++ [f]) = inSequence addr vr fs := by
  rw [inSequence_append, inSequence, if_neg h, inSequence, List.append_nil]

/-- A part without a DM or FRMR is in the trace as a whole. -/
theorem takeWhile_calm (h : ∀ f ∈ fs, isPeerReset addr f = false) (gs : List Rx) :
    (fs ++ gs).takeWhile (fun f => !isPeerReset addr f) =
      fs ++ gs.takeWhile fun f => !isPeerReset addr f := by
  refine List.takeWhile_append_of_pos fun f hf => ?_
  rw [h f hf]
  rfl

end InSequence

/-! ## What the log says -/

/-- The frames that were read. -/
def inbound (L : List WireEvent) : List Rx :=
  L.flatMap fun
    | .batch fs => fs
    | _ => []

/-- The payloads that the router was given. -/
def routedOf (L : List WireEvent) : List Bytes :=
  L.filterMap fun
    | .taken _ _ f => some f.payload
    | _ => none

/-- The frames that were taken up. -/
def heardOf (L : List WireEvent) : List Rx :=
  L.filterMap fun
    | .rx _ f => some f
    | _ => none

/-- The frames from `addr`. -/
def fromPeer (addr : Byte) (fs : List Rx) : List Rx := fs.filter fun f => decide (f.addr = addr)

/-- The last frame taken up is an I-frame, and nothing was sent since. -/
def unanswered (L : List WireEvent) : Bool :=
  L.foldl (fun b e => match e with
    | .rx _ f => decide (kind f.ctrl = .iFrame)
    | .tx _ | .txFault _ => false
    | _ => b) false

/-- After an I-frame was taken up V(R) moves on or not, and then an RR with V(R) is handed to the
port.  Nothing else comes between. -/
def Acknowledges (addr : Byte) (vr : Seq) : List WireEvent → Prop :=
  Always fun past e => unanswered past = true →
    (∃ who v f, e = .taken who v f) ∨
    ∃ poll, e = .tx (rrFrame addr (vrPast vr (routedOf past).length) poll) ∨
      e = .txFault (rrFrame addr (vrPast vr (routedOf past).length) poll)

/-- Every I-frame that was taken up has been answered so. -/
def Answered (addr : Byte) (vr : Seq) (L : List WireEvent) : Prop :=
  unanswered L = false ∧ Acknowledges addr vr L

/-- The last thing that happened is that the port did not take a frame. -/
def faulted (L : List WireEvent) : Prop := ∃ g, L.getLast? = some (.txFault g)

/-- A call of a callback. -/
inductive Callback where
  | onPoll (polls : ℕ) (acked : Bool)
  | onIndication (payload : Bytes)

/-- What it does to the callbacks' variables. -/
def Callback.act (q : Call υ) (u : υ) : Callback → υ
  | .onPoll polls acked => q.onPoll polls acked u
  | .onIndication payload => q.onIndication payload u

/-- The payloads that `on_indication` was given. -/
def indicated (cs : List Callback) : List Bytes :=
  cs.filterMap fun
    | .onIndication payload => some payload
    | _ => none

/-- The callbacks were called from `u` to `v`, `on_indication` with `pls`. -/
def Called (q : Call υ) (u : υ) (pls : List Bytes) (v : υ) : Prop :=
  ∃ cs : List Callback, v = cs.foldl (Callback.act q) u ∧ indicated cs = pls

section Log

variable {L : List WireEvent} {e : WireEvent}

@[simp] theorem inbound_append (L M : List WireEvent) :
    inbound (L ++ M) = inbound L ++ inbound M := by
  simp [inbound]

@[simp] theorem inbound_cons : inbound (e :: L) =
    (match e with | .batch fs => fs | _ => []) ++ inbound L := by
  simp [inbound]

@[simp] theorem inbound_nil : inbound [] = [] := rfl

@[simp] theorem routedOf_append (L M : List WireEvent) :
    routedOf (L ++ M) = routedOf L ++ routedOf M := by
  simp [routedOf]

@[simp] theorem routedOf_cons : routedOf (e :: L) =
    (match e with | .taken _ _ f => [f.payload] | _ => []) ++ routedOf L := by
  cases e <;> simp [routedOf]

@[simp] theorem routedOf_nil : routedOf [] = [] := rfl

@[simp] theorem heardOf_append (L M : List WireEvent) :
    heardOf (L ++ M) = heardOf L ++ heardOf M := by
  simp [heardOf]

@[simp] theorem heardOf_cons : heardOf (e :: L) =
    (match e with | .rx _ f => [f] | _ => []) ++ heardOf L := by
  cases e <;> simp [heardOf]

@[simp] theorem heardOf_nil : heardOf [] = [] := rfl

/-- One frame more. -/
theorem heard_concat {addr : Byte} {P : List Rx} (h : heardOf L = fromPeer addr P) {f : Rx}
    (ha : f.addr = addr) (who : Receiver) :
    heardOf (L ++ [.rx who f]) = fromPeer addr (P ++ [f]) := by
  simp [h, fromPeer, ha]

@[simp] theorem unanswered_concat : unanswered (L ++ [e]) =
    match e with
    | .rx _ f => decide (kind f.ctrl = .iFrame)
    | .tx _ | .txFault _ => false
    | _ => unanswered L := by
  simp [unanswered, List.foldl_append]

/-- An event that no answer is due at. -/
theorem Answered.concat {addr : Byte} {vr : Seq} (h : Answered addr vr L)
    (he : ∀ who f, e = .rx who f → kind f.ctrl ≠ .iFrame) : Answered addr vr (L ++ [e]) := by
  refine ⟨?_, (always_concat e).2 ⟨h.2, fun hu => ?_⟩⟩
  · rw [unanswered_concat]
    cases e with
    | rx who f => exact decide_eq_false (he who f rfl)
    | _ => first | rfl | exact h.1
  · rw [h.1] at hu
    cases hu

/-- The answer. -/
theorem Acknowledges.answer {addr : Byte} {vr : Seq} (h : Acknowledges addr vr L) (poll : Bool)
    {g : Frame} (hg : g = rrFrame addr (vrPast vr (routedOf L).length) poll) :
    Answered addr vr (L ++ [.tx g]) ∧ Answered addr vr (L ++ [.txFault g]) := by
  subst hg
  exact ⟨⟨unanswered_concat, (always_concat _).2 ⟨h, fun _ => .inr ⟨poll, .inl rfl⟩⟩⟩,
    ⟨unanswered_concat, (always_concat _).2 ⟨h, fun _ => .inr ⟨poll, .inr rfl⟩⟩⟩⟩

@[simp] theorem faulted_txFault (g : Frame) : faulted (L ++ [.txFault g]) := ⟨g, by simp⟩

theorem Called.refl (q : Call υ) (u : υ) : Called q u [] u := ⟨[], rfl, rfl⟩

theorem Called.poll {q : Call υ} {u v : υ} {pls : List Bytes} (h : Called q u pls v)
    (polls : ℕ) (acked : Bool) : Called q u pls (q.onPoll polls acked v) := by
  obtain ⟨cs, rfl, rfl⟩ := h
  exact ⟨cs ++ [.onPoll polls acked], by simp [Callback.act], by simp [indicated]⟩

theorem Called.indication {q : Call υ} {u v : υ} {pls : List Bytes} (h : Called q u pls v)
    (payload : Bytes) : Called q u (pls ++ [payload]) (q.onIndication payload v) := by
  obtain ⟨cs, rfl, rfl⟩ := h
  exact ⟨cs ++ [.onIndication payload], by simp [Callback.act], by simp [indicated]⟩

end Log

/-! ## The call -/

/-- Those that the router takes for indications. -/
def indications (q : Call υ) (pls : List Bytes) : List Bytes :=
  pls.filter fun pl => decide (q.router pl = .indication)

/-- An indication is one more. -/
theorem indications_concat_of {q : Call υ} {pl : Bytes} (h : q.router pl = .indication)
    (pls : List Bytes) : indications q (pls ++ [pl]) = indications q pls ++ [pl] := by
  simp [indications, h]

/-- Any other payload is none. -/
theorem indications_concat_of_ne {q : Call υ} {pl : Bytes} (h : q.router pl ≠ .indication)
    (pls : List Bytes) : indications q (pls ++ [pl]) = indications q pls := by
  simp [indications, h]

variable {W : Type} {q : Call υ} {p : PeerState} {s t : LinkSt W υ} {u : υ}
  {L : List WireEvent} {P fs : List Rx} {f : Rx}

/-- Between two frames: the frames `P` have been processed, and the call goes on.  The router was
given what `routing` holds for it, the callbacks what the router called an indication, and V(R) is
past the frames in sequence. -/
structure Between (q : Call υ) (p : PeerState) (u : υ) (P : List Rx) (L : List WireEvent)
    (t : LinkSt W υ) : Prop where
  routed : routedOf L = (inSequence q.addr p.vr P).map (·.payload)
  pending : ∀ pl ∈ routedOf L, q.router pl ≠ .accept
  calm : ∀ f ∈ P, isPeerReset q.addr f = false
  vr : (t.link.peers q.addr).vr = vrPast p.vr (routedOf L).length
  answered : Answered q.addr p.vr L
  called : Called q u (indications q (routedOf L)) t.user

/-- How a call ends that has processed the frames `P`.  Only when the port did not take a
frame can there be others that it should have looked at, or an indication that it was about
to hand on. -/
structure Ended (q : Call υ) (p : PeerState) (u : υ) (o : Outcome Exn Bytes) (P : List Rx)
    (L : List WireEvent) (t : LinkSt W υ) : Prop where
  seen : P <+: inbound L
  heard : heardOf L = fromPeer q.addr P
  whole : faulted L ∨ routing q p.vr (inbound L) = routing q p.vr P
  routed : routedOf L = routing q p.vr P
  answered : Answered q.addr p.vr L
  called : Called q u (indications q (routing q p.vr P)) t.user ∨
    (faulted L ∧ Called q u (indications q (routing q p.vr P).dropLast) t.user)
  result : ∀ pl, o = .ret pl → q.router pl = .accept ∧ (routing q p.vr P).getLast? = some pl
  accepted : ∀ pl ∈ routing q p.vr P, q.router pl = .accept → o = .ret pl ∨ faulted L
  live : (∀ e, o = .raise e → e.isReset = false) →
    (∀ f ∈ P, isPeerReset q.addr f = false) ∧
    (t.link.peers q.addr).vr = vrPast p.vr (routing q p.vr P).length
  reset : ∀ e, o = .raise e → e.isReset = true →
    (∃ f ∈ P, isPeerReset q.addr f = true ∧ e = .linkReset q.addr (resetWhy f.toFrame)) ∧
    t.link.peers q.addr = { vs := 0, vr := 0, connected := false }

/-! ### What the router is to be given, frame by frame -/

/-- As long as nothing ends the trace, the router is given every frame in sequence. -/
theorem routing_of (hc : ∀ f ∈ P, isPeerReset q.addr f = false)
    (hp : ∀ pl ∈ (inSequence q.addr p.vr P).map (·.payload), q.router pl ≠ .accept) :
    routing q p.vr P = (inSequence q.addr p.vr P).map (·.payload) := by
  have hall : P.takeWhile (fun f => !isPeerReset q.addr f) = P := by
    simpa using takeWhile_calm hc []
  rw [routing, hall, upTo_of_none fun pl hpl => decide_eq_false (hp pl hpl)]

/-- A DM or FRMR ends the trace. -/
theorem routing_reset (hc : ∀ f ∈ P, isPeerReset q.addr f = false)
    (hf : isPeerReset q.addr f = true) (fs : List Rx) :
    routing q p.vr (P ++ f :: fs) = routing q p.vr P := by
  have hcut : ∀ gs, (P ++ gs).takeWhile (fun f => !isPeerReset q.addr f) =
      P ++ gs.takeWhile fun f => !isPeerReset q.addr f := takeWhile_calm hc
  have hall : P.takeWhile (fun f => !isPeerReset q.addr f) = P := by
    simpa using hcut []
  rw [routing, routing, hcut, hall, List.takeWhile_cons_of_neg (by simp [hf]), List.append_nil]

/-- The frame in sequence is routed, and if it is accepted nothing after it is. -/
theorem routing_frame (h : Between q p u P L t) (ha : f.addr = q.addr)
    (hk : kind f.ctrl = .iFrame) (hns : nsOf f.ctrl = (t.link.peers q.addr).vr) :
    routing q p.vr (P ++ [f]) = routedOf L ++ [f.payload] ∧
    (q.router f.payload = .accept → ∀ fs,
      routing q p.vr (P ++ f :: fs) = routing q p.vr (P ++ [f])) := by
  have hcalm : isPeerReset q.addr f = false := by
    have hne : kind f.ctrl ≠ .uFrame := by rw [hk]; decide
    simp [isPeerReset, isReset_of_kind hne]
  have hns' : nsOf f.ctrl = vrPast p.vr (inSequence q.addr p.vr P).length := by
    rw [hns, h.vr, h.routed, List.length_map]
  have hpend : ∀ pl ∈ routedOf L, decide (q.router pl = .accept) = false :=
    fun pl hpl => decide_eq_false (h.pending pl hpl)
  have hseq : ∀ fs, ∃ gs, (inSequence q.addr p.vr
      ((P ++ f :: fs).takeWhile fun f => !isPeerReset q.addr f)).map (·.payload) =
      routedOf L ++ f.payload :: gs := by
    intro fs
    rw [takeWhile_calm h.calm, List.takeWhile_cons_of_pos (by simp [hcalm]), inSequence_append,
      inSequence, if_pos ⟨ha, hk, hns'⟩, List.map_append, ← h.routed]
    exact ⟨_, rfl⟩
  have hone : routing q p.vr (P ++ [f]) = routedOf L ++ [f.payload] := by
    rw [routing, takeWhile_calm h.calm, List.takeWhile_cons_of_pos (by simp [hcalm]),
      List.takeWhile_nil, inSequence_concat_of ha hk hns', List.map_append, ← h.routed]
    by_cases hacc : q.router f.payload = .accept
    · exact upTo_append_of_found hpend (decide_eq_true hacc) []
    · refine upTo_of_none fun pl hpl => ?_
      rcases List.mem_append.1 hpl with hpl | hpl
      · exact hpend pl hpl
      · rw [List.map_cons, List.map_nil, List.mem_singleton] at hpl
        rw [hpl]
        exact decide_eq_false hacc
  refine ⟨hone, fun hacc fs => ?_⟩
  obtain ⟨gs, hgs⟩ := hseq fs
  rw [hone, routing, hgs]
  exact upTo_append_of_found hpend (decide_eq_true hacc) gs

/-! ### How a call can end -/

/-- It raises, but no `LinkReset`, or goes on for ever. -/
def Outcome.Abandons (o : Outcome Exn Bytes) : Prop :=
  match o with
  | .ret _ => False
  | .raise e => e.isReset = false
  | .stall => True

/-- Nothing in the processed frames ends the call; it is abandoned between two frames. -/
theorem Between.ended (h : Between q p u P L t) {M : List WireEvent} {v : LinkSt W υ}
    {o : Outcome Exn Bytes} (ho : Outcome.Abandons o) (hin : inbound M = P ++ fs)
    (hh : heardOf M = fromPeer q.addr P) (hfs : fs = [] ∨ faulted M)
    (hr : routedOf M = routedOf L) (hans : Answered q.addr p.vr M)
    (hlink : v.link.peers q.addr = t.link.peers q.addr) (hv : v.user = t.user) :
    Ended q p u o P M v := by
  have hrouting := routing_of h.calm (p := p) (q := q) (by rw [← h.routed]; exact h.pending)
  rw [← h.routed] at hrouting
  constructor
  · exact ⟨fs, hin.symm⟩
  · exact hh
  · rcases hfs with rfl | hf
    · exact .inr (by rw [hin, List.append_nil])
    · exact .inl hf
  · rw [hr, hrouting]
  · exact hans
  · rw [hrouting, hv]
    exact .inl h.called
  · rintro pl rfl
    exact ho.elim
  · intro pl hpl hacc
    rw [hrouting] at hpl
    exact absurd hacc (h.pending pl hpl)
  · exact fun _ => ⟨h.calm, by rw [hlink, h.vr, hrouting]⟩
  · rintro e rfl he
    rw [Outcome.Abandons, he] at ho
    cases ho

/-- A frame that the router is not given: from elsewhere, without a number, or with a wrong
one. -/
theorem Between.skip (h : Between q p u P L t) (hcalm : isPeerReset q.addr f = false)
    (hf : ¬ (f.addr = q.addr ∧ kind f.ctrl = .iFrame ∧
      nsOf f.ctrl = (t.link.peers q.addr).vr)) : Between q p u (P ++ [f]) L t := by
  have hout : inSequence q.addr p.vr (P ++ [f]) = inSequence q.addr p.vr P := by
    refine inSequence_concat_of_not fun hin => hf ?_
    rw [h.vr, h.routed, List.length_map]
    exact hin
  refine ⟨by rw [hout]; exact h.routed, h.pending, fun g hg => ?_, h.vr, h.answered, h.called⟩
  rcases List.mem_append.1 hg with hg | hg
  · exact h.calm g hg
  · rw [List.mem_singleton.1 hg]
    exact hcalm

/-- An event that neither gives the router anything nor calls for an answer. -/
theorem Between.event (h : Between q p u P L t) {e : WireEvent} {v : LinkSt W υ}
    (hr : routedOf (L ++ [e]) = routedOf L) (he : ∀ who f, e = .rx who f → kind f.ctrl ≠ .iFrame)
    (hvr : (v.link.peers q.addr).vr = (t.link.peers q.addr).vr)
    (hv : Called q u (indications q (routedOf L)) v.user) : Between q p u P (L ++ [e]) v :=
  ⟨by rw [hr]; exact h.routed, by rw [hr]; exact h.pending, h.calm, by rw [hr, hvr]; exact h.vr,
    h.answered.concat he, by rw [hr]; exact hv⟩

section Wp

variable [Line W]

/-- Handing a frame to the port changes the line and the log. -/
theorem wp_write_logged (g : Frame) (t : LinkSt W υ) :
    wp (write g)
      (fun _ v => v.log = t.log ++ [.tx g] ∧ v.link = t.link ∧ v.user = t.user)
      (fun e v => e.isReset = false ∧ v.log = t.log ++ [.txFault g] ∧ v.link = t.link ∧
        v.user = t.user)
      (fun v => v.log = t.log ++ [.txFault g] ∧ v.link = t.link ∧ v.user = t.user) t :=
  wp_write.2 (wp_any (fun _ _ => ⟨rfl, rfl, rfl⟩) (fun _ _ => ⟨rfl, rfl, rfl, rfl⟩)
    (fun _ => ⟨rfl, rfl, rfl⟩) _)

/-- The call that began in `s` is between two frames, with `fs` of the batch to come. -/
def Listening (s : LinkSt W υ) (q : Call υ) (p : PeerState) (fs : List Rx) (t : LinkSt W υ) :
    Prop :=
  ∃ P L, t.log = s.log ++ L ∧ inbound L = P ++ fs ∧ heardOf L = fromPeer q.addr P ∧
    Between q p s.user P L t

/-- The call that began in `s` has ended. -/
def Over (s : LinkSt W υ) (q : Call υ) (p : PeerState) (o : Outcome Exn Bytes)
    (t : LinkSt W υ) : Prop :=
  ∃ P L, t.log = s.log ++ L ∧ Ended q p s.user o P L t

/-- A frame is sent between two frames of the batch, or at the end of a pass. -/
theorem wp_write_between (h : Listening s q p fs t) (g : Frame) :
    wp (write g) (fun _ v => Listening s q p fs v) (fun e v => Over s q p (.raise e) v)
      (fun v => Over s q p .stall v) t := by
  obtain ⟨P, L, hL, hin, hh, hb⟩ := h
  have hfault : ∀ (v : LinkSt W υ) {o : Outcome Exn Bytes}, Outcome.Abandons o →
      v.log = t.log ++ [.txFault g] → v.link = t.link → v.user = t.user → Over s q p o v := by
    intro v o ho hlog hlink huser
    refine ⟨P, L ++ [.txFault g], by rw [hlog, hL, List.append_assoc],
      hb.ended ho (by simpa using hin) (by simpa using hh) (.inr (faulted_txFault g)) (by simp)
        (hb.answered.concat fun _ _ he => by cases he) (by rw [hlink]) huser⟩
  refine (wp_write_logged g t).mono (fun _ v hv => ?_) (fun e v hv => ?_) fun v hv => ?_
  · obtain ⟨hlog, hlink, huser⟩ := hv
    refine ⟨P, L ++ [.tx g], by rw [hlog, hL, List.append_assoc], by simpa using hin,
      by simpa using hh, hb.event (by simp) (fun _ _ he => by cases he) (by rw [hlink]) ?_⟩
    rw [huser]
    exact hb.called
  · exact hfault v (o := .raise e) hv.1 hv.2.1 hv.2.2.1 hv.2.2.2
  · exact hfault v (o := .stall) trivial hv.1 hv.2.1 hv.2.2

/-- A frame with a wrong N(S) is answered with the V(R) it did not move. -/
theorem wp_onIFrame_duplicate (hL : t.log = s.log ++ (L ++ [.rx (.exchange q.message) f]))
    (hin : inbound L = P ++ f :: fs) (hh : heardOf L = fromPeer q.addr P)
    (hb : Between q p s.user P L t) (ha : f.addr = q.addr) (hk : kind f.ctrl = .iFrame)
    (hns : nsOf f.ctrl ≠ (t.link.peers q.addr).vr) :
    wp (write (rrFrame q.addr (t.link.peers q.addr).vr)) (fun _ v => Listening s q p fs v)
      (fun e v => Over s q p (.raise e) v) (fun v => Over s q p .stall v) t := by
  have hskip : Between q p s.user (P ++ [f]) L t := by
    refine hb.skip ?_ fun h => hns h.2.2
    have hne : kind f.ctrl ≠ .uFrame := by rw [hk]; decide
    simp [isPeerReset, isReset_of_kind hne]
  have hreplies : Acknowledges q.addr p.vr (L ++ [.rx (.exchange q.message) f]) :=
    (always_concat _).2 ⟨hb.answered.2, fun hu => by rw [hb.answered.1] at hu; cases hu⟩
  have hans := hreplies.answer true (g := rrFrame q.addr (t.link.peers q.addr).vr)
    (by simp [hb.vr])
  have hfault : ∀ (v : LinkSt W υ) {o : Outcome Exn Bytes}, Outcome.Abandons o →
      v.log = t.log ++ [.txFault (rrFrame q.addr (t.link.peers q.addr).vr)] → v.link = t.link →
      v.user = t.user → Over s q p o v := by
    intro v o ho hlog hlink huser
    refine ⟨P ++ [f], _, by rw [hlog, hL, List.append_assoc],
      hskip.ended ho (by simp [hin] : inbound _ = (P ++ [f]) ++ fs) (by simp [hh, fromPeer, ha])
        (.inr (faulted_txFault _)) (by simp) hans.2 (by rw [hlink]) huser⟩
  refine (wp_write_logged _ t).mono (fun _ v hv => ?_) (fun e v hv => ?_) fun v hv => ?_
  · obtain ⟨hlog, hlink, huser⟩ := hv
    refine ⟨P ++ [f], _, by rw [hlog, hL, List.append_assoc], by simp [hin],
      by simp [hh, fromPeer, ha], ?_, ?_, hskip.calm, ?_, hans.1, ?_⟩
    · simpa using hskip.routed
    · simpa using hskip.pending
    · rw [hlink]
      simpa using hskip.vr
    · rw [huser]
      simpa using hskip.called
  · exact hfault v (o := .raise e) hv.1 hv.2.1 hv.2.2.1 hv.2.2.2
  · exact hfault v (o := .stall) trivial hv.1 hv.2.1 hv.2.2

/-- The log of a call whose router has just been given the frame `f`. -/
def givenLog (q : Call υ) (vr : Seq) (f : Rx) (L : List WireEvent) : List WireEvent :=
  L ++ [.rx (.exchange q.message) f] ++ [.taken (.exchange q.message) vr f]

omit [Line W] in
/-- The router is given the next frame in sequence, and V(R) is past it. -/
theorem given_frame (hin : inbound L = P ++ f :: fs) (hb : Between q p u P L t)
    (hk : kind f.ctrl = .iFrame) (hns : nsOf f.ctrl = (t.link.peers q.addr).vr) (vr : Seq) :
    inbound (givenLog q vr f L) = (P ++ [f]) ++ fs ∧
    routedOf (givenLog q vr f L) = routedOf L ++ [f.payload] ∧
    nsOf f.ctrl + 1 = vrPast p.vr (routedOf (givenLog q vr f L)).length ∧
    Acknowledges q.addr p.vr (givenLog q vr f L) ∧
    (∀ g ∈ P ++ [f], isPeerReset q.addr g = false) := by
  have hrouted : routedOf (givenLog q vr f L) = routedOf L ++ [f.payload] := by simp [givenLog]
  refine ⟨by simp [givenLog, hin], hrouted, ?_, ?_, fun g hg => ?_⟩
  · rw [hrouted, List.length_append, List.length_singleton, vrPast_succ, ← hb.vr, hns]
  · refine (always_concat _).2 ⟨(always_concat _).2 ⟨hb.answered.2, fun hu => ?_⟩, fun _ =>
      .inl ⟨_, _, _, rfl⟩⟩
    rw [hb.answered.1] at hu
    cases hu
  · rcases List.mem_append.1 hg with hg | hg
    · exact hb.calm g hg
    · have hne : kind f.ctrl ≠ .uFrame := by rw [hk]; decide
      rw [List.mem_singleton.1 hg]
      simp [isPeerReset, isReset_of_kind hne]

/-- The RR after the router's verdict. -/
theorem wp_write_given (vr : Seq) {poll : Bool} {Q : Unit → LinkSt W υ → Prop}
    (hL : t.log = s.log ++ givenLog q vr f L) (hin : inbound L = P ++ f :: fs)
    (hh : heardOf L = fromPeer q.addr P) {r : LinkSt W υ} (hb : Between q p s.user P L r)
    (huser : t.user = r.user)
    (ha : f.addr = q.addr) (hk : kind f.ctrl = .iFrame)
    (hns : nsOf f.ctrl = (r.link.peers q.addr).vr)
    (hvr : (t.link.peers q.addr).vr = nsOf f.ctrl + 1)
    (hQ : ∀ v : LinkSt W υ,
      v.log = s.log ++ (givenLog q vr f L ++ [.tx (rrFrame q.addr (nsOf f.ctrl + 1) poll)]) →
      v.link = t.link → v.user = t.user →
      Answered q.addr p.vr (givenLog q vr f L ++ [.tx (rrFrame q.addr (nsOf f.ctrl + 1) poll)]) →
      Q () v) :
    wp (write (rrFrame q.addr (nsOf f.ctrl + 1) poll)) Q (fun e v => Over s q p (.raise e) v)
      (fun v => Over s q p .stall v) t := by
  obtain ⟨hin', hrouted, hnext, hreplies, hcalm⟩ :=
    given_frame hin hb hk hns vr
  have hroute := (routing_frame hb ha hk hns).1
  have hans := hreplies.answer poll (g := rrFrame q.addr (nsOf f.ctrl + 1) poll) (by rw [hnext])
  have hfault : ∀ (v : LinkSt W υ) {o : Outcome Exn Bytes}, Outcome.Abandons o →
      v.log = t.log ++ [.txFault (rrFrame q.addr (nsOf f.ctrl + 1) poll)] → v.link = t.link →
      v.user = t.user → Over s q p o v := by
    intro v o ho hlog hlink hv
    refine ⟨P ++ [f], _, by rw [hlog, hL, List.append_assoc], ⟨fs, by simp [hin']⟩,
      by simp [givenLog, hh, fromPeer, ha], .inl (faulted_txFault _), by simp [hrouted, hroute],
      hans.2, ?_, ?_,
      fun _ _ _ => .inr (faulted_txFault _), fun _ => ⟨hcalm, ?_⟩, ?_⟩
    · rw [hroute, hv, huser]
      by_cases hind : q.router f.payload = .indication
      · exact .inr ⟨faulted_txFault _, by rw [List.dropLast_concat]; exact hb.called⟩
      · exact .inl (by rw [indications_concat_of_ne hind]; exact hb.called)
    · rintro pl rfl
      exact ho.elim
    · rw [hlink, hvr, hroute, hnext, hrouted]
    · rintro e rfl he
      rw [Outcome.Abandons, he] at ho
      cases ho
  refine (wp_write_logged _ t).mono (fun _ v hv => ?_) (fun e v hv => ?_) fun v hv => ?_
  · exact hQ v (by rw [hv.1, hL, List.append_assoc]) hv.2.1 hv.2.2 hans.1
  · exact hfault v (o := .raise e) hv.1 hv.2.1 hv.2.2.1 hv.2.2.2
  · exact hfault v (o := .stall) trivial hv.1 hv.2.1 hv.2.2

section Given

variable {vr : Seq} {poll : Bool} {v : LinkSt W υ}

omit [Line W]

/-- The frame was not the response: behind its RR, the call goes on. -/
theorem listening_given (hin : inbound L = P ++ f :: fs) (hh : heardOf L = fromPeer q.addr P)
    (hb : Between q p s.user P L t) (ha : f.addr = q.addr) (hk : kind f.ctrl = .iFrame)
    (hns : nsOf f.ctrl = (t.link.peers q.addr).vr) (hne : q.router f.payload ≠ .accept)
    (hlog : v.log = s.log ++
      (givenLog q vr f L ++ [.tx (rrFrame q.addr (nsOf f.ctrl + 1) poll)]))
    (hvr : (v.link.peers q.addr).vr = nsOf f.ctrl + 1)
    (hcalled : Called q s.user (indications q (routedOf L ++ [f.payload])) v.user)
    (hans : Answered q.addr p.vr
      (givenLog q vr f L ++ [.tx (rrFrame q.addr (nsOf f.ctrl + 1) poll)])) :
    Listening s q p fs v := by
  obtain ⟨hin', hrouted, hnext, -, hcalm⟩ := given_frame hin hb hk hns vr
  have hns' : nsOf f.ctrl = vrPast p.vr (inSequence q.addr p.vr P).length := by
    rw [hns, hb.vr, hb.routed, List.length_map]
  have hpending : ∀ pl ∈ routedOf L ++ [f.payload], q.router pl ≠ .accept := by
    intro pl hpl
    rcases List.mem_append.1 hpl with hpl | hpl
    · exact hb.pending pl hpl
    · rwa [List.mem_singleton.1 hpl]
  refine ⟨P ++ [f], _, hlog, by simp [hin'], by simp [givenLog, hh, fromPeer, ha],
    ⟨?_, ?_, hcalm, ?_, hans, ?_⟩⟩
  · simp [hrouted, inSequence_concat_of ha hk hns', hb.routed]
  · simpa [hrouted] using hpending
  · rw [hvr, hnext]
    simp
  · simpa [hrouted] using hcalled

/-- The frame was the response: behind its RR, the call is over. -/
theorem over_given (hin : inbound L = P ++ f :: fs) (hh : heardOf L = fromPeer q.addr P)
    (hb : Between q p s.user P L t) (ha : f.addr = q.addr) (hk : kind f.ctrl = .iFrame)
    (hns : nsOf f.ctrl = (t.link.peers q.addr).vr) (hr : q.router f.payload = .accept)
    (hlog : v.log = s.log ++
      (givenLog q vr f L ++ [.tx (rrFrame q.addr (nsOf f.ctrl + 1) poll)] ++
        [.accepted q.message f]))
    (hvr : (v.link.peers q.addr).vr = nsOf f.ctrl + 1) (huser : v.user = t.user)
    (hans : Answered q.addr p.vr
      (givenLog q vr f L ++ [.tx (rrFrame q.addr (nsOf f.ctrl + 1) poll)])) :
    Over s q p (.ret f.payload) v := by
  obtain ⟨hin', hrouted, hnext, -, hcalm⟩ := given_frame hin hb hk hns vr
  obtain ⟨hroute, hrest⟩ := routing_frame hb ha hk hns
  -- the frames behind the response are not looked at
  have hwhole : routing q p.vr (inbound (givenLog q vr f L)) = routing q p.vr (P ++ [f]) := by
    rw [hin', List.append_assoc, List.singleton_append]
    exact hrest hr fs
  refine ⟨P ++ [f], _, hlog, ⟨fs, by simp [hin']⟩, by simp [givenLog, hh, fromPeer, ha],
    .inr (by simpa using hwhole), by simp [hrouted, hroute],
    hans.concat (fun _ _ he => by cases he), .inl ?_, ?_, ?_, fun _ => ⟨hcalm, ?_⟩, ?_⟩
  · rw [hroute, indications_concat_of_ne (by rw [hr]; decide), huser]
    exact hb.called
  · rintro pl ⟨⟩
    exact ⟨hr, by rw [hroute]; simp⟩
  · intro pl hpl hacc
    rw [hroute, List.mem_append, List.mem_singleton] at hpl
    rcases hpl with hpl | rfl
    · exact absurd hacc (hb.pending pl hpl)
    · exact .inl rfl
  · rw [hvr, hroute, ← hrouted, ← hnext]
  · rintro e ⟨⟩

end Given

/-- The I-frame path, after the frame was taken up.  Out of sequence it is answered and dropped; in
sequence the three verdicts part ways behind the same RR. -/
theorem wp_onIFrame_demux {ns : Seq} {x : Flight}
    (hL : t.log = s.log ++ (L ++ [.rx (.exchange q.message) f])) (hin : inbound L = P ++ f :: fs)
    (hh : heardOf L = fromPeer q.addr P) (hb : Between q p s.user P L t) (ha : f.addr = q.addr)
    (hk : kind f.ctrl = .iFrame) :
    wp (onIFrame q ns x f)
      (Step.post (fun pl v => Over s q p (.ret pl) v) (fun _ v => Listening s q p fs v))
      (fun e v => Over s q p (.raise e) v) (fun v => Over s q p .stall v) t := by
  unfold onIFrame
  rw [wp_bind, wp_peer, wp_ite]
  refine ⟨fun hns => ?_, fun hns => ?_⟩
  · -- out of sequence: only the RR is repeated
    rw [wp_bind, wp_bump, wp_bind]
    have hb' : Between q p s.user P L
        ({ t with link := { t.link with
          stats := { t.link.stats with dupI := t.link.stats.dupI + 1 } } } : LinkSt W υ) :=
      ⟨hb.routed, hb.pending, hb.calm, hb.vr, hb.answered, hb.called⟩
    exact (wp_onIFrame_duplicate (by exact hL) hin hh hb' ha hk hns).mono (fun _ _ hv => hv)
      (fun _ _ h => h) fun _ h => h
  have hns : nsOf f.ctrl = (t.link.peers q.addr).vr := not_not.1 hns
  rw [wp_bind, wp_logEvent, wp_bind, wp_setPeer]
  cases hr : q.router f.payload with
  | accept =>
      rw [wp_bind]
      refine wp_write_given (t.link.peers q.addr).vr (by simp [givenLog, hL]) hin hh hb rfl ha hk
        hns (by simp) fun v hlog hlink hv hans => ?_
      have hlast : ∀ w : LinkSt W υ, w.log = v.log ++ [.accepted q.message f] →
          (w.link.peers q.addr).vr = nsOf f.ctrl + 1 → w.user = v.user →
          Over s q p (.ret f.payload) w := fun w hw hvr huser =>
        over_given hin hh hb ha hk hns hr (by rw [hw, hlog, List.append_assoc]) hvr
          (huser.trans hv) hans
      simp only [wp_bind, wp_onlyIf, wp_setPeer, wp_logEvent, wp_pure]
      exact ⟨fun _ => hlast _ rfl (by simp [hlink]) rfl, fun _ => hlast _ rfl (by simp [hlink]) rfl⟩
  | indication =>
      rw [wp_bind]
      refine wp_write_given (t.link.peers q.addr).vr (by simp [givenLog, hL]) hin hh hb rfl ha hk
        hns (by simp) fun v hlog hlink hv hans => ?_
      refine listening_given hin hh hb ha hk hns (by rw [hr]; decide) (by exact hlog)
        (by simp [hlink]) ?_ hans
      rw [indications_concat_of hr]
      dsimp only
      rw [hv]
      exact hb.called.indication _
  | unexpected =>
      rw [wp_bind]
      refine wp_write_given (t.link.peers q.addr).vr (by simp [givenLog, hL]) hin hh hb rfl ha hk
        hns (by simp) fun v hlog hlink hv hans => ?_
      refine listening_given hin hh hb ha hk hns (by rw [hr]; decide) (by exact hlog)
        (by simp [hlink]) ?_ hans
      rw [indications_concat_of_ne (by rw [hr]; decide)]
      dsimp only
      rw [hv]
      exact hb.called

omit [Line W] in
/-- Counting changes nothing that the call looks at. -/
theorem Listening.of_eq (h : Listening s q p fs t) {v : LinkSt W υ} (hlog : v.log = t.log)
    (hvr : (v.link.peers q.addr).vr = (t.link.peers q.addr).vr) (huser : v.user = t.user) :
    Listening s q p fs v := by
  obtain ⟨P, L, hL, hin, hh, hb⟩ := h
  exact ⟨P, L, hlog.trans hL, hin, hh, hb.routed, hb.pending, hb.calm, hvr.trans hb.vr, hb.answered,
    by rw [huser]; exact hb.called⟩

/-- An I- or S-frame from the peer, once its N(R) has been applied. -/
theorem wp_onSequenced_demux {frame : Frame} {ns : Seq} {x : Flight}
    (hL : t.log = s.log ++ (L ++ [.rx (.exchange q.message) f])) (hin : inbound L = P ++ f :: fs)
    (hh : heardOf L = fromPeer q.addr P) (hb : Between q p s.user P L t) (ha : f.addr = q.addr)
    (hk : kind f.ctrl ≠ .uFrame) :
    wp (onSequenced q frame ns x f)
      (Step.post (fun pl v => Over s q p (.ret pl) v) (fun _ v => Listening s q p fs v))
      (fun e v => Over s q p (.raise e) v) (fun v => Over s q p .stall v) t := by
  have hskip : kind f.ctrl ≠ .iFrame → Listening s q p fs t := by
    intro hne
    have hcalm : isPeerReset q.addr f = false := by simp [isPeerReset, isReset_of_kind hk]
    refine ⟨P ++ [f], _, hL, by simp [hin], heard_concat hh ha _,
      (hb.skip hcalm fun h => hne h.2.1).event (by simp) ?_ rfl hb.called⟩
    rintro who g ⟨⟩
    exact hne
  have hrej : kind f.ctrl ≠ .iFrame → wp (if !x.acked ∧ x.retxLeft ≠ 0 then do
        bump fun st => { st with retx := st.retx + 1 }
        write frame
        pure (.next { x with retxLeft := x.retxLeft - 1 })
      else pure (.next x) : LinkProg W υ (Step Bytes Flight))
      (Step.post (fun pl v => Over s q p (.ret pl) v) (fun _ v => Listening s q p fs v))
      (fun e v => Over s q p (.raise e) v) (fun v => Over s q p .stall v) t := by
    intro hne
    rw [wp_ite]
    refine ⟨fun _ => ?_, fun _ => hskip hne⟩
    rw [wp_bind, wp_bump, wp_bind]
    refine (wp_write_between ((hskip hne).of_eq ?_ ?_ ?_) frame).mono (fun _ _ h => h)
      (fun _ _ h => h) (fun _ h => h) <;> rfl
  unfold onSequenced
  cases hc : kind f.ctrl with
  | rr => exact hskip (by rw [hc]; decide)
  | rnr => exact (hskip (by rw [hc]; decide)).of_eq rfl rfl rfl
  | rej => exact hrej (by rw [hc]; decide)
  | srej => exact hrej (by rw [hc]; decide)
  | iFrame => exact wp_onIFrame_demux hL hin hh hb ha hc
  | uFrame => exact absurd hc hk

omit [Line W] in
/-- A U-frame from the peer. -/
theorem wp_onUFrame_demux {x : Flight}
    (hL : t.log = s.log ++ (L ++ [.rx (.exchange q.message) f])) (hin : inbound L = P ++ f :: fs)
    (hh : heardOf L = fromPeer q.addr P) (hb : Between q p s.user P L t) (ha : f.addr = q.addr)
    (hk : kind f.ctrl = .uFrame) :
    wp (onUFrame q x f)
      (Step.post (fun pl v => Over s q p (.ret pl) v) (fun _ v => Listening s q p fs v))
      (fun e v => Over s q p (.raise e) v) (fun v => Over s q p .stall v) t := by
  have hne : kind f.ctrl ≠ .iFrame := by rw [hk]; decide
  have hans : Answered q.addr p.vr (L ++ [.rx (.exchange q.message) f]) := by
    refine hb.answered.concat ?_
    rintro who g ⟨⟩
    exact hne
  have hrouting := routing_of hb.calm (p := p) (q := q) (by rw [← hb.routed]; exact hb.pending)
  rw [← hb.routed] at hrouting
  unfold onUFrame
  rw [wp_ite]
  refine ⟨fun hr => ?_, fun hr => ?_⟩
  · have hreset : isPeerReset q.addr f = true := by simp [isPeerReset, ha, hr]
    have hone : routing q p.vr (P ++ [f]) = routedOf L := by
      rw [routing_reset hb.calm hreset, hrouting]
    rw [wp_bind, wp_setPeer, wp_bind, wp_bump, wp_raise]
    refine ⟨P ++ [f], _, hL, ⟨fs, by simp [hin]⟩, heard_concat hh ha _, .inr ?_, ?_, hans,
      .inl ?_, ?_, ?_, ?_, ?_⟩
    · simp [hin, routing_reset hb.calm hreset]
    · simp [hone]
    · rw [hone]
      exact hb.called
    · rintro pl ⟨⟩
    · intro pl hpl hacc
      rw [hone] at hpl
      exact absurd hacc (hb.pending pl hpl)
    · intro h
      exact absurd (h _ rfl) (by simp [Exn.isReset])
    · rintro e ⟨⟩ -
      exact ⟨⟨f, by simp, hreset, rfl⟩, by simp [PeerState.reset]⟩
  · refine ⟨P ++ [f], _, hL, by simp [hin], heard_concat hh ha _, ?_⟩
    refine (hb.skip (by simpa [isPeerReset] using fun _ => hr) fun h => hne h.2.1).event
      (by simp) ?_ rfl hb.called
    rintro who g ⟨⟩
    exact hne

/-- One frame of a batch: from elsewhere, or a U-frame, or an I- or S-frame from the peer. -/
theorem wp_onFrame_demux {frame : Frame} {ns : Seq} {x : Flight}
    (h : Listening s q p (f :: fs) t) :
    wp (onFrame q frame ns x f)
      (Step.post (fun pl v => Over s q p (.ret pl) v) (fun _ v => Listening s q p fs v))
      (fun e v => Over s q p (.raise e) v) (fun v => Over s q p .stall v) t := by
  obtain ⟨P, L, hL, hin, hh, hb⟩ := h
  unfold onFrame
  rw [wp_ite]
  refine ⟨fun ha => ?_, fun ha => ?_⟩
  · have hcalm : isPeerReset q.addr f = false := by simp [isPeerReset, ha]
    have hskip := hb.skip hcalm fun h => ha h.1
    exact ⟨P ++ [f], L, hL, by simp [hin], by simp [hh, fromPeer, ha], hskip.routed,
      hskip.pending, hskip.calm, hskip.vr, hskip.answered, hskip.called⟩
  · have ha : f.addr = q.addr := not_not.1 ha
    rw [wp_bind, wp_logEvent, wp_ite]
    have hlog : t.log ++ [.rx (.exchange q.message) f] =
        s.log ++ (L ++ [.rx (.exchange q.message) f]) := by rw [hL, List.append_assoc]
    have hsame : ∀ v : LinkSt W υ, (v.link.peers q.addr).vr = (t.link.peers q.addr).vr →
        v.user = t.user → Between q p s.user P L v := by
      intro v hvr huser
      exact ⟨hb.routed, hb.pending, hb.calm, hvr.trans hb.vr, hb.answered,
        by rw [huser]; exact hb.called⟩
    refine ⟨fun hk => wp_onUFrame_demux hlog hin hh (hsame _ rfl rfl) ha hk, fun hk => ?_⟩
    rw [wp_bind, ackedOr, wp_ite]
    refine ⟨fun _ => wp_onSequenced_demux hlog hin hh (hsame _ rfl rfl) ha hk, fun _ => ?_⟩
    unfold applyAck
    rw [wp_ite]
    refine ⟨fun _ => ?_, fun _ => wp_onSequenced_demux hlog hin hh (hsame _ rfl rfl) ha hk⟩
    rw [wp_bind, wp_setPeer]
    exact wp_onSequenced_demux hlog hin hh (hsame _ (by simp) rfl) ha hk

/-- The end of a pass. -/
theorem wp_passEnd_demux {frame : Frame} {ns : Seq} {x : Flight} (h : Listening s q p [] t) :
    wp (passEnd q frame ns x)
      (Step.post (fun pl v => Over s q p (.ret pl) v) (fun _ v => Listening s q p [] v))
      (fun e v => Over s q p (.raise e) v) (fun v => Over s q p .stall v) t := by
  unfold passEnd
  rw [wp_bind, wp_monotonic, wp_ite]
  refine ⟨fun _ => ?_, fun _ => ?_⟩
  · rw [wp_bind, wp_bump, wp_bind]
    refine (wp_write_between (h.of_eq ?_ ?_ ?_) frame).mono (fun _ _ h => h) (fun _ _ h => h)
      (fun _ h => h) <;> rfl
  · obtain ⟨P, L, hL, hin, hh, hb⟩ := h
    rw [wp_ite]
    refine ⟨fun _ => ?_, fun _ => ?_⟩
    · exact ⟨P, L, hL, hb.ended (by rfl) hin hh (.inl rfl) rfl hb.answered rfl rfl⟩
    · simp only [wp_bind, wp_bump, wp_callback, wp_sleep, wp_peer]
      refine (wp_write_between ⟨P, L, by exact hL, hin, hh, hb.routed, hb.pending, hb.calm,
        by exact hb.vr, hb.answered, by exact hb.called.poll _ _⟩ _).mono (fun _ _ h => h)
        (fun _ _ h => h) fun _ h => h

/-- **The demultiplexer.**  However a call ends, and wherever the bound on its passes leaves
it, its router was given what the trace holds for it, and nothing else. -/
theorem exchange_demultiplexes (fuel : ℕ) (q : Call υ) (s : LinkSt W υ) :
    ∃ P L, (exchange fuel q s).2.log = s.log ++ L ∧
      Ended q (s.link.peers q.addr) s.user (exchange fuel q s).1 P L (exchange fuel q s).2 := by
  have hstart : Listening s q (s.link.peers q.addr) [] s :=
    ⟨[], [], by simp, rfl, rfl, by simp [inSequence], by simp, by simp, by simp,
      ⟨rfl, always_nil⟩, Called.refl _ _⟩
  have hwp : wp (exchange fuel q) (fun pl v => Over s q (s.link.peers q.addr) (.ret pl) v)
      (fun e v => Over s q (s.link.peers q.addr) (.raise e) v)
      (fun v => Over s q (s.link.peers q.addr) .stall v) s := by
    refine wp_exchange (fun _ t => Listening s q (s.link.peers q.addr) [] t)
      (fun fs _ t => Listening s q (s.link.peers q.addr) fs t) ?_ ?_ ?_
      (fun f fs x t h => wp_onFrame_demux h) fun x t h => wp_passEnd_demux h
    · exact (wp_write_between hstart _).mono (fun _ _ h => h.of_eq rfl rfl rfl)
        (fun _ _ h => h) fun _ h => h
    · rintro x t ⟨P, L, hL, hin, hh, hb⟩
      exact ⟨P, L, hL, hb.ended trivial hin hh (.inl rfl) rfl hb.answered rfl rfl⟩
    · rintro x t ⟨P, L, hL, hin, hh, hb⟩
      have hread : ∀ (v : LinkSt W υ) {o : Outcome Exn Bytes}, Outcome.Abandons o →
          v.log = t.log ++ [.fault] → v.link = t.link → v.user = t.user →
          Over s q (s.link.peers q.addr) o v := by
        intro v o ho hlog hlink huser
        refine ⟨P, L ++ [.fault], by rw [hlog, hL, List.append_assoc],
          hb.ended ho (by simpa using hin : inbound _ = P ++ []) (by simpa using hh) (.inl rfl)
            (by simp)
            (hb.answered.concat fun _ _ he => by cases he) (by rw [hlink]) huser⟩
      refine wp_readFrames.2 (wp_any (fun fs w => ?_) (fun m w => ?_) (fun w => ?_) _)
      · refine ⟨P, L ++ [.batch fs], by simp [hL], by simpa using hin, by simpa using hh, ?_⟩
        exact hb.event (by simp) (fun _ _ he => by cases he) rfl hb.called
      · exact hread _ (o := .raise (.osError m)) rfl rfl rfl rfl
      · exact hread _ (o := .stall) trivial rfl rfl rfl
  unfold wp at hwp
  rcases hrun : exchange fuel q s with ⟨o, t⟩
  rw [hrun] at hwp
  cases o <;> exact hwp

end Wp

end OpenAisg.Link
