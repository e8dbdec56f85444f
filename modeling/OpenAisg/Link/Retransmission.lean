import OpenAisg.Lib.Trace
import OpenAisg.Link.Bench
import OpenAisg.Link.Inbound

/-!
# When `exchange` sends its command again

`exchange` has two places that send the command again: a REJ or SREJ in the loop over the
frames of a read, and a timer at the end of a pass.  They share the variables `missing`,
`retx_left` and `acked`, but the first one neither looks at the N(R) of the frame that
triggers it nor takes `missing` back.  This file says what follows from that.

The log of a call tells what was sent when.  What the code should have known is told by the
inbound trace, over which an observer keeps a `Watch`.

* `asks` — a read brought in a frame with which the peer still asks for the command; a frame
  is received with the read that brings it, not when its turn in the loop comes.
* `acks` — a frame that acknowledges the command was taken up.
* `Asked`, `Unacked` — the claims about the log: every resend was asked for since the
  transmission before it, and none follows an acknowledgement.
* `Watch` — what the observer of the inbound trace knows; `Watch.due` says which frames and
  clock readings are the occasion of a resend, and `Watch.hear` keeps the books.
* `Grounded` — on every such occasion, a read since the last one has brought in a frame that
  asks.  It is a condition on what comes in, and does not look at the log.
* `InFlight`, `Following` — the invariants: the first ties the log to `acked` and `retx_left`,
  the second the log to the inbound trace.
* `exchange_retransmission` — for every call: at most four transmissions, none after an
  acknowledgement, and all of them asked for exactly if the inbound trace is grounded.
-/

namespace OpenAisg.Link

open Hdlc Prog Trace

variable {W υ : Type} [Line W]

/-! ## Reading the log -/

/-- An I- or S-frame from `addr` with this N(R). -/
def bears (addr : Byte) (nr : Seq) (f : Rx) : Bool :=
  f.addr = addr && kind f.ctrl ≠ .uFrame && nrOf f.ctrl = nr

/-- Such a frame was taken up. -/
def numbered (addr : Byte) (nr : Seq) : WireEvent → Bool
  | .rx _ f => bears addr nr f
  | _ => false

/-- The peer acknowledges the command. -/
def acks (addr : Byte) (ns : Seq) : WireEvent → Bool := numbered addr (ns + 1)

/-- A read brings in a frame with which the peer asks for the command: its N(R) is still the
command's N(S). -/
def asks (addr : Byte) (ns : Seq) : WireEvent → Bool
  | .batch fs => fs.any (bears addr ns)
  | _ => false

/-- A transmission of the frame; one that failed may have reached the peer, so it counts. -/
def sends (frame : Frame) (e : WireEvent) : Bool := e = .tx frame || e = .txFault frame

/-- The control octet is REJ or SREJ. -/
def isReject (ctrl : Byte) : Bool := kind ctrl = .rej || kind ctrl = .srej

/-- The peer has asked since the last transmission.  A frame counts from the read that brought it.
-/
def Fresh (frame : Frame) (ns : Seq) (L : List WireEvent) : Prop :=
  ∃ e ∈ since (sends frame) L, asks frame.addr ns e = true

instance (frame : Frame) (ns : Seq) (L : List WireEvent) : Decidable (Fresh frame ns L) :=
  inferInstanceAs (Decidable (∃ e ∈ since (sends frame) L, asks frame.addr ns e = true))

/-- Every transmission but the first was asked for since the one before it.  This is what a resend
is for, and it is a property of the log alone. -/
def Asked (frame : Frame) (ns : Seq) : List WireEvent → Prop :=
  Always fun past e => sends frame e = true → (∃ a ∈ past, sends frame a = true) →
    Fresh frame ns past

instance (frame : Frame) (ns : Seq) (L : List WireEvent) : Decidable (Asked frame ns L) :=
  inferInstanceAs (Decidable (Always _ L))

/-- No transmission follows an acknowledgement. -/
def Unacked (frame : Frame) (ns : Seq) : List WireEvent → Prop :=
  Always fun past e => sends frame e = true → ∀ a ∈ past, acks frame.addr ns a = false

/-! ## Watching the inbound trace -/

/-- What an observer of the inbound trace knows of a call: whether it was acknowledged, whether the
peer has asked since the last occasion of a resend, how many resends are left, and when the timer
is up. -/
structure Watch where
  /-- The occasions for a resend that are left. -/
  left : ℕ := 3
  /-- The peer has acknowledged the command. -/
  acked : Bool := false
  /-- A read since the last occasion has brought in a frame that asks for the command. -/
  asked : Bool := false
  /-- A REJ or SREJ was an occasion since the timer last was.  The code has not taken its
  `missing` back then, so the timer needs no frame that asks. -/
  rejected : Bool := false
  /-- The timer is up after this moment. -/
  retxAt : Time

/-- What has the command sent again, as long as it is not acknowledged and a resend is left: a
REJ or SREJ, or a look at the clock when the timer is up. -/
def Watch.due (addr : Byte) (ns : Seq) (w : Watch) : Inbound → Bool
  | .read _ => false
  | .frame f => isReject f.ctrl && !(w.acked || bears addr (ns + 1) f) && w.left ≠ 0
  | .clock now => !w.acked && (w.asked || w.rejected) && w.retxAt < now && w.left ≠ 0

/-- The next thing comes in. -/
def Watch.hear (addr : Byte) (ns : Seq) (w : Watch) : Inbound → Watch
  | .read fs => { w with asked := w.asked || fs.any (bears addr ns) }
  | .frame f =>
      let heard := { w with acked := w.acked || bears addr (ns + 1) f }
      if w.due addr ns (.frame f) then
        { heard with left := w.left - 1, asked := false, rejected := true }
      else heard
  | .clock now =>
      if w.due addr ns (.clock now) then
        { w with left := w.left - 1, asked := false, rejected := false, retxAt := now + ms 1000 }
      else w

/-- What the observer knows after the inbound trace `T` of a call that began at `start`. -/
def watch (addr : Byte) (ns : Seq) (start : Time) (T : List Inbound) : Watch :=
  T.foldl (Watch.hear addr ns) { retxAt := start + ms 1000 }

/-- **What the peer and the clock must refrain from.**  Whenever a frame or a clock reading is the
occasion of a resend, a read since the last occasion has brought in a frame that asks for the
command.  A REJ must not come without one, and after a REJ another must come in before the timer is
up. -/
def Grounded (addr : Byte) (ns : Seq) (start : Time) : List Inbound → Prop :=
  Always fun past i => (watch addr ns start past).due addr ns i = true →
    (watch addr ns start past).asked = true

instance (addr : Byte) (ns : Seq) (start : Time) (T : List Inbound) :
    Decidable (Grounded addr ns start T) :=
  inferInstanceAs (Decidable (Always _ T))

/-! ## The invariants -/

/-- What the log `L` of a call says of its local variables: the transmissions and the resends left
add up to four, and once the command is acknowledged it is not sent. -/
structure InFlight (frame : Frame) (ns : Seq) (L : List WireEvent) (x : Flight) : Prop where
  sent : ∃ e, L.head? = some e ∧ sends frame e = true
  count : L.countP (sends frame) + x.retxLeft = 4
  unacked : x.acked = false → ∀ e ∈ L, acks frame.addr ns e = false
  once : Unacked frame ns L

/-- The observer knows the local variables, while the frames `fs` of a read are still to be
taken up: of these it knows already what they ask for. -/
structure Tracks (frame : Frame) (ns : Seq) (fs : List Rx) (L : List WireEvent) (w : Watch)
    (x : Flight) : Prop where
  left : w.left = x.retxLeft
  acked : w.acked = x.acked
  retxAt : w.retxAt = x.retxAt
  asked : w.asked = true ↔ Fresh frame ns L
  missing : (w.asked || w.rejected) = (x.missing || fs.any (bears frame.addr ns))

/-- The log and the inbound trace tell the same: either nothing was sent that was not asked
for, and the observer knows the local variables, or both hold a resend that was not. -/
structure Following (frame : Frame) (ns : Seq) (start : Time) (fs : List Rx) (L : List WireEvent)
    (T : List Inbound) (x : Flight) : Prop extends InFlight frame ns L x where
  agrees : (Asked frame ns L ∧ Grounded frame.addr ns start T ∧
      Tracks frame ns fs L (watch frame.addr ns start T) x) ∨
    (¬ Asked frame ns L ∧ ¬ Grounded frame.addr ns start T)

/-- What the claims about one call need of its log and its inbound trace.  The last field is the
exact condition: asked for exactly if grounded. -/
structure Sound (frame : Frame) (ns : Seq) (start : Time) (L : List WireEvent)
    (T : List Inbound) : Prop where
  count : L.countP (sends frame) ≤ 4
  once : Unacked frame ns L
  asked : Asked frame ns L ↔ Grounded frame.addr ns start T

section Steps

variable {frame : Frame} {ns : Seq} {start : Time} {fs : List Rx} {L : List WireEvent}
  {T : List Inbound} {x y : Flight} {e : WireEvent}

/-- A frame that the port took was sent. -/
@[simp] theorem sends_tx (frame : Frame) : sends frame (.tx frame) = true := by simp [sends]

/-- A frame that the port did not take may have been sent. -/
@[simp] theorem sends_txFault (frame : Frame) : sends frame (.txFault frame) = true := by
  simp [sends]

/-- A transmission is no reply. -/
theorem numbered_of_sends (h : sends frame e = true) (addr : Byte) (nr : Seq) :
    numbered addr nr e = false := by
  rcases Bool.or_eq_true_iff.1 h with h | h <;> rw [of_decide_eq_true h] <;> rfl

/-- The watch hears one thing more. -/
theorem watch_concat (addr : Byte) (ns : Seq) (start : Time) (T : List Inbound) (i : Inbound) :
    watch addr ns start (T ++ [i]) = (watch addr ns start T).hear addr ns i := by
  simp [watch, List.foldl_append]

/-- One thing more asks nothing of the peer, unless it is the occasion of a resend. -/
theorem grounded_concat (i : Inbound) : Grounded frame.addr ns start (T ++ [i]) ↔
    Grounded frame.addr ns start T ∧ ((watch frame.addr ns start T).due frame.addr ns i = true →
      (watch frame.addr ns start T).asked = true) :=
  always_concat i

/-- Nothing has come in since a transmission. -/
theorem not_fresh_of_sends (he : sends frame e = true) : ¬ Fresh frame ns (L ++ [e]) := by
  rintro ⟨a, ha, -⟩
  rw [since_concat_of e he] at ha
  cases ha

/-- Any other event leaves what has come in, or adds to it. -/
theorem fresh_concat (he : sends frame e = false) :
    Fresh frame ns (L ++ [e]) ↔ Fresh frame ns L ∨ asks frame.addr ns e = true := by
  unfold Fresh
  rw [since_concat_of_not e he]
  simp only [List.mem_append, List.mem_singleton]
  constructor
  · rintro ⟨a, ha | rfl, hask⟩
    · exact Or.inl ⟨a, ha, hask⟩
    · exact Or.inr hask
  · rintro (⟨a, ha, hask⟩ | hask)
    · exact ⟨a, Or.inl ha, hask⟩
    · exact ⟨e, Or.inr rfl, hask⟩

/-- What is no transmission makes no claim. -/
theorem asked_concat (he : sends frame e = false) :
    Asked frame ns (L ++ [e]) ↔ Asked frame ns L := by
  refine (always_concat e).trans (and_iff_left fun hs => ?_)
  rw [he] at hs
  cases hs

/-- A transmission after the first claims that it was asked for. -/
theorem InFlight.asked_resend (h : InFlight frame ns L x) (he : sends frame e = true) :
    Asked frame ns (L ++ [e]) ↔ Asked frame ns L ∧ Fresh frame ns L := by
  obtain ⟨a, hhead, hsent⟩ := h.sent
  refine (always_concat e).trans (and_congr_right fun _ => ⟨fun hf => hf he ?_, fun hf _ _ => hf⟩)
  exact ⟨a, List.mem_of_mem_head? hhead, hsent⟩

/-! ### The log alone -/

theorem head?_append_of {M : List WireEvent} {a : WireEvent} (h : L.head? = some a) :
    (L ++ M).head? = some a := by
  rw [List.head?_append, h]
  rfl

/-- The first transmission. -/
theorem inFlight_start (he : sends frame e = true) (hr : x.retxLeft = 3) :
    InFlight frame ns [e] x where
  sent := ⟨e, rfl, he⟩
  count := by simp [hr, he]
  unacked _ a ha := by rw [List.mem_singleton.1 ha]; exact numbered_of_sends he _ _
  once := by
    rw [Unacked, ← List.nil_append [_], always_concat]
    exact ⟨always_nil, fun _ a ha => absurd ha (List.not_mem_nil)⟩

/-- An event that is no transmission of the frame. -/
theorem InFlight.concat (h : InFlight frame ns L x) (he : sends frame e = false)
    (hr : y.retxLeft = x.retxLeft)
    (ha : y.acked = false → x.acked = false ∧ acks frame.addr ns e = false) :
    InFlight frame ns (L ++ [e]) y := by
  have hne : ¬ sends frame e = true := by simp [he]
  obtain ⟨a, hhead, hsent⟩ := h.sent
  refine ⟨⟨a, head?_append_of hhead, hsent⟩, ?_, ?_, ?_⟩
  · rw [List.countP_append, List.countP_singleton, hr, ← h.count]
    simp [he]
  · intro hy a hmem
    obtain ⟨hx, hae⟩ := ha hy
    rcases List.mem_append.1 hmem with hl | hl
    · exact h.unacked hx a hl
    · rw [List.mem_singleton.1 hl]
      exact hae
  · exact (always_concat e).2 ⟨h.once, fun hc => absurd hc hne⟩

/-- The frame is sent again, unacknowledged. -/
theorem InFlight.resend (h : InFlight frame ns L x) (hx : x.acked = false)
    (hleft : x.retxLeft ≠ 0) (hr : y.retxLeft = x.retxLeft - 1) (hs : sends frame e = true) :
    InFlight frame ns (L ++ [e]) y := by
  obtain ⟨a, hhead, hsent⟩ := h.sent
  refine ⟨⟨a, head?_append_of hhead, hsent⟩, ?_, ?_, ?_⟩
  · have := h.count
    rw [List.countP_append, List.countP_singleton, if_pos hs]
    omega
  · intro _ a hmem
    rcases List.mem_append.1 hmem with hl | hl
    · exact h.unacked hx a hl
    · rw [List.mem_singleton.1 hl]
      exact numbered_of_sends hs _ _
  · exact (always_concat _).2 ⟨h.once, fun _ => h.unacked hx⟩

/-! ### The log beside the inbound trace -/

theorem Following.sound (h : Following frame ns start fs L T x) : Sound frame ns start L T := by
  refine ⟨by have := h.count; omega, h.once, ?_⟩
  rcases h.agrees with ⟨ha, hg, -⟩ | ⟨ha, hg⟩
  · exact iff_of_true ha hg
  · exact iff_of_false ha hg

/-- After the first transmission nothing has come in. -/
theorem following_start (he : sends frame e = true) (now d : Time) :
    Following frame ns now [] [e] [] { deadline := d, retxAt := now + ms 1000 } where
  toInFlight := inFlight_start he rfl
  agrees := by
    have hasked : Asked frame ns [e] := by
      rw [Asked, ← List.nil_append [_], always_concat]
      exact ⟨always_nil, fun _ ⟨a, ha, _⟩ => absurd ha (List.not_mem_nil)⟩
    refine Or.inl ⟨hasked, always_nil, rfl, rfl, rfl, ?_, rfl⟩
    rw [← List.nil_append [e]]
    exact iff_of_false Bool.false_ne_true (not_fresh_of_sends he)

/-- An event that neither is a transmission nor brings anything in. -/
theorem Following.quiet (h : Following frame ns start fs L T x) (he : sends frame e = false)
    (hn : e.inbound = none) (hy : y.retxLeft = x.retxLeft ∧ y.acked = x.acked ∧
      y.retxAt = x.retxAt ∧ y.missing = x.missing) :
    Following frame ns start fs (L ++ [e]) T y := by
  have hacks : acks frame.addr ns e = false := by
    cases e <;> first | rfl | cases hn
  have hasks : ¬ asks frame.addr ns e = true := by
    cases e <;> first | exact Bool.false_ne_true | cases hn
  obtain ⟨hr, hack, hat, hmiss⟩ := hy
  refine ⟨h.toInFlight.concat he hr fun ha => ⟨hack ▸ ha, hacks⟩, ?_⟩
  rw [asked_concat he]
  refine h.agrees.imp_left fun ⟨ha, hg, ht⟩ => ⟨ha, hg, ?_⟩
  refine ⟨by rw [hr, ht.left], by rw [hack, ht.acked], by rw [hat, ht.retxAt], ?_,
    by rw [hmiss, ht.missing]⟩
  rw [ht.asked, fresh_concat he, or_iff_left hasks]

/-- A read: what it brought is known at once, its frames are still to be taken up. -/
theorem Following.read (h : Following frame ns start [] L T x) (fs : List Rx) :
    Following frame ns start fs (L ++ [.batch fs]) (T ++ [.read fs]) x := by
  have he : sends frame (.batch fs) = false := by simp [sends]
  refine ⟨h.toInFlight.concat he rfl fun ha => ⟨ha, rfl⟩, ?_⟩
  rw [asked_concat he, grounded_concat, watch_concat]
  rcases h.agrees with ⟨ha, hg, ht⟩ | ⟨ha, hg⟩
  · refine Or.inl ⟨ha, ⟨hg, fun hd => absurd hd Bool.false_ne_true⟩, ht.left, ht.acked, ht.retxAt,
      ?_, ?_⟩
    · rw [fresh_concat he, ← ht.asked]
      exact Bool.or_eq_true_iff
    · -- what the frames of the read ask for counts at once
      have hmiss := ht.missing
      simp only [List.any_nil, Bool.or_false] at hmiss
      simp only [Watch.hear, ← hmiss]
      rw [Bool.or_right_comm]
  · exact Or.inr ⟨ha, fun hc => hg hc.1⟩

/-- A frame that says nothing about the command is passed over. -/
theorem Following.skip {f : Rx} (h : Following frame ns start (f :: fs) L T x)
    (hf : ∀ nr, bears frame.addr nr f = false) : Following frame ns start fs L T x := by
  refine ⟨h.toInFlight, h.agrees.imp_left fun ⟨ha, hg, ht⟩ => ⟨ha, hg, ht.left, ht.acked,
    ht.retxAt, ht.asked, ?_⟩⟩
  rw [ht.missing, List.any_cons, hf, Bool.false_or]

/-- A frame that is not the occasion of a resend. -/
theorem Following.take {who : Receiver} {f : Rx} (h : Following frame ns start (f :: fs) L T x)
    (hr : y.retxLeft = x.retxLeft) (hat : y.retxAt = x.retxAt)
    (hack : y.acked = (x.acked || bears frame.addr (ns + 1) f))
    (hmiss : y.missing = (x.missing || bears frame.addr ns f))
    (hno : isReject f.ctrl = true → y.acked = false → x.retxLeft = 0) :
    Following frame ns start fs (L ++ [.rx who f]) (T ++ [.frame f]) y := by
  have he : sends frame (.rx who f) = false := by simp [sends]
  have hasks : ¬ asks frame.addr ns (.rx who f) = true := Bool.false_ne_true
  have hfly : InFlight frame ns (L ++ [.rx who f]) y := by
    refine h.toInFlight.concat he hr fun hy => ?_
    rw [hack, Bool.or_eq_false_iff] at hy
    exact hy
  refine ⟨hfly, ?_⟩
  rw [asked_concat he, grounded_concat, watch_concat]
  rcases h.agrees with ⟨ha, hg, ht⟩ | ⟨ha, hg⟩
  · have hdue : (watch frame.addr ns start T).due frame.addr ns (.frame f) = false := by
      rw [Watch.due, ht.acked, ← hack, ht.left]
      by_contra hc
      simp only [Bool.not_eq_false, Bool.and_eq_true, Bool.not_eq_true', decide_eq_true_eq] at hc
      exact hc.2 (hno hc.1.1 hc.1.2)
    refine Or.inl ⟨ha, ⟨hg, fun hd => ?_⟩, ?_⟩
    · rw [hdue] at hd
      cases hd
    rw [Watch.hear, if_neg (by simp [hdue])]
    refine ⟨by rw [hr, ← ht.left], by rw [hack, ← ht.acked], by rw [hat, ← ht.retxAt], ?_, ?_⟩
    · rw [fresh_concat he, or_iff_left hasks]
      exact ht.asked
    · rw [hmiss, Bool.or_assoc, ← List.any_cons]
      exact ht.missing
  · exact Or.inr ⟨ha, fun hc => hg hc.1⟩

/-- A REJ or SREJ has the command sent again. -/
theorem Following.reject {who : Receiver} {f : Rx} (h : Following frame ns start (f :: fs) L T x)
    (hf : isReject f.ctrl = true)
    (hx : x.acked = false ∧ bears frame.addr (ns + 1) f = false) (hleft : x.retxLeft ≠ 0)
    (hr : y.retxLeft = x.retxLeft - 1) (hat : y.retxAt = x.retxAt) (hack : y.acked = false)
    (hmiss : y.missing = (x.missing || bears frame.addr ns f)) (hs : sends frame e = true) :
    Following frame ns start fs (L ++ [.rx who f] ++ [e]) (T ++ [.frame f]) y := by
  have he : sends frame (.rx who f) = false := by simp [sends]
  have hasks : ¬ asks frame.addr ns (.rx who f) = true := Bool.false_ne_true
  have hfly : InFlight frame ns (L ++ [.rx who f]) x :=
    h.toInFlight.concat he rfl fun hy => ⟨hy, hx.2⟩
  refine ⟨hfly.resend hx.1 hleft hr hs, ?_⟩
  rw [hfly.asked_resend hs, asked_concat he, fresh_concat he, or_iff_left hasks, grounded_concat,
    watch_concat]
  rcases h.agrees with ⟨ha, hg, ht⟩ | ⟨ha, hg⟩
  · have hdue : (watch frame.addr ns start T).due frame.addr ns (.frame f) = true := by
      simp [Watch.due, ht.acked, ht.left, hx, hf, hleft]
    rw [← ht.asked]
    by_cases hasked : (watch frame.addr ns start T).asked = true
    · refine Or.inl ⟨⟨ha, hasked⟩, ⟨hg, fun _ => hasked⟩, ?_⟩
      rw [Watch.hear, if_pos hdue]
      refine ⟨by rw [hr, ← ht.left], ?_, by rw [hat, ← ht.retxAt], ?_, ?_⟩
      · simp [hack, ht.acked, hx]
      · exact iff_of_false Bool.false_ne_true (not_fresh_of_sends hs)
      · -- the frame that asked was taken up before, or is this one, or is still to come
        have hall := ht.missing
        rw [hasked, Bool.true_or, List.any_cons, ← Bool.or_assoc, ← hmiss] at hall
        rw [Bool.false_or]
        exact hall
    · exact Or.inr ⟨fun hc => hasked hc.2, fun hc => hasked (hc.2 hdue)⟩
  · exact Or.inr ⟨fun hc => ha hc.1, fun hc => hg hc.1⟩

/-- The timer is up, or is not, as the local variables say. -/
theorem Tracks.due_iff {w : Watch} (ht : Tracks frame ns [] L w x) (now : Time) :
    w.due frame.addr ns (.clock now) = true ↔
      (!x.acked) = true ∧ x.missing = true ∧ x.retxAt < now ∧ x.retxLeft ≠ 0 := by
  have hmiss := ht.missing
  simp only [List.any_nil, Bool.or_false] at hmiss
  simp only [Watch.due, ht.acked, hmiss, ht.retxAt, ht.left, Bool.and_eq_true, decide_eq_true_eq,
    and_assoc]

/-- A look at the clock that is not the occasion of a resend. -/
theorem Following.tick (h : Following frame ns start [] L T x) {now : Time}
    (hno : ¬ ((!x.acked) = true ∧ x.missing = true ∧ x.retxAt < now ∧ x.retxLeft ≠ 0)) :
    Following frame ns start [] L (T ++ [.clock now]) x := by
  refine ⟨h.toInFlight, ?_⟩
  rw [grounded_concat, watch_concat]
  rcases h.agrees with ⟨ha, hg, ht⟩ | ⟨ha, hg⟩
  · have hdue : ¬ (watch frame.addr ns start T).due frame.addr ns (.clock now) = true := fun hd =>
      hno ((ht.due_iff now).1 hd)
    refine Or.inl ⟨ha, ⟨hg, fun hd => absurd hd hdue⟩, ?_⟩
    rw [Watch.hear, if_neg hdue]
    exact ht
  · exact Or.inr ⟨ha, fun hc => hg hc.1⟩

/-- The timer has the command sent again.  The log grows by a transmission and the trace by the
look at the clock that was its occasion, and each makes the same demand. -/
theorem Following.timed (h : Following frame ns start [] L T x) {now : Time}
    (hx : (!x.acked) = true ∧ x.missing = true ∧ x.retxAt < now ∧ x.retxLeft ≠ 0)
    (hr : y.retxLeft = x.retxLeft - 1) (hat : y.retxAt = now + ms 1000)
    (hack : y.acked = x.acked) (hmiss : y.missing = false) (hs : sends frame e = true) :
    Following frame ns start [] (L ++ [e]) (T ++ [.clock now]) y := by
  refine ⟨h.toInFlight.resend (by simpa using hx.1) hx.2.2.2 hr hs, ?_⟩
  rw [h.toInFlight.asked_resend hs, grounded_concat, watch_concat]
  rcases h.agrees with ⟨ha, hg, ht⟩ | ⟨ha, hg⟩
  · have hdue := (ht.due_iff now).2 hx
    rw [← ht.asked]
    by_cases hasked : (watch frame.addr ns start T).asked = true
    · refine Or.inl ⟨⟨ha, hasked⟩, ⟨hg, fun _ => hasked⟩, ?_⟩
      rw [Watch.hear, if_pos hdue]
      refine ⟨by rw [hr, ← ht.left], by rw [hack, ← ht.acked], hat.symm, ?_, ?_⟩
      · exact iff_of_false Bool.false_ne_true (not_fresh_of_sends hs)
      · rw [hmiss]
        rfl
    · -- nothing has come in since a REJ had the command sent again
      exact Or.inr ⟨fun hc => hasked hc.2, fun hc => hasked (hc.2 hdue)⟩
  · exact Or.inr ⟨fun hc => ha hc.1, fun hc => hg hc.1⟩

end Steps

/-! ## The whole call -/

section Call

variable {q : Call υ} {p : PeerState} {ns : Seq} {start : Time} {fs : List Rx}
  {L : List WireEvent} {T : List Inbound} {x : Flight} {t : LinkSt W υ}

/-- The call goes on from `t`, with the frames `fs` still to be taken up. -/
abbrev GoesOn (q : Call υ) (p : PeerState) (ns : Seq) (start : Time) (fs : List Rx)
    (L : List WireEvent) (T : List Inbound) (x : Flight) (t u : LinkSt W υ) : Prop :=
  Logged t (fun M => Following (commandFrame q p) ns start fs (L ++ M) (T ++ cameIn M) x) u

/-- The call has ended since `t`. -/
abbrev Finished (q : Call υ) (p : PeerState) (ns : Seq) (start : Time) (L : List WireEvent)
    (T : List Inbound) (t u : LinkSt W υ) : Prop :=
  Logged t (fun M => Sound (commandFrame q p) ns start (L ++ M) (T ++ cameIn M)) u

omit [Line W] in
/-- An event that neither is a transmission of the command nor brings anything in. -/
theorem goesOn_quiet {u v : LinkSt W υ} {y : Flight} {e : WireEvent}
    (h : GoesOn q p ns start fs L T x t u) (hv : v.log = u.log ++ [e])
    (he : sends (commandFrame q p) e = false) (hn : e.inbound = none)
    (hy : y.retxLeft = x.retxLeft ∧ y.acked = x.acked ∧ y.retxAt = x.retxAt ∧
      y.missing = x.missing) : GoesOn q p ns start fs L T y t v := by
  refine h.concat hv fun M hM => ?_
  rw [cameIn_concat_of_none hn, ← List.append_assoc]
  exact hM.quiet he hn hy

/-- The octets of an RR are no command. -/
theorem rrFrame_ne_commandFrame (q : Call υ) (p : PeerState) (vr : Seq) (poll : Bool) :
    rrFrame q.addr vr poll ≠ commandFrame q p := by
  have hk : kind (rrCtrl vr poll) ≠ kind (iCtrl p.vs p.vr) := by simp
  intro h
  exact hk (congrArg (fun f : Frame => kind f.ctrl) h)

theorem sends_rrFrame (q : Call υ) (p : PeerState) (vr : Seq) (poll : Bool) :
    sends (commandFrame q p) (.tx (rrFrame q.addr vr poll)) = false ∧
      sends (commandFrame q p) (.txFault (rrFrame q.addr vr poll)) = false := by
  simp [sends, rrFrame_ne_commandFrame q p vr poll]

/-- Writing an RR. -/
theorem wp_write_rr {u : LinkSt W υ} (h : GoesOn q p ns start fs L T x t u) (vr : Seq)
    (poll : Bool) :
    wp (write (rrFrame q.addr vr poll)) (fun _ v => GoesOn q p ns start fs L T x t v)
      (fun _ v => Finished q p ns start L T t v) (Finished q p ns start L T t) u := by
  obtain ⟨htx, hfault⟩ := sends_rrFrame q p vr poll
  have hend : ∀ v : LinkSt W υ, v.log = u.log ++ [.txFault (rrFrame q.addr vr poll)] →
      Finished q p ns start L T t v := by
    intro v hv
    exact (goesOn_quiet h hv hfault rfl ⟨rfl, rfl, rfl, rfl⟩).mono fun _ h => h.sound
  refine wp_write.2 (wp_any (fun _ w => ?_) (fun m w => hend _ rfl) (fun w => hend _ rfl) _)
  exact goesOn_quiet h rfl htx rfl ⟨rfl, rfl, rfl, rfl⟩

/-- Sending the command again, of which `hagain` says that it goes on well. -/
theorem wp_write_again {u : LinkSt W υ} {P : List WireEvent → Prop} {Q : List WireEvent → Prop}
    (h : Logged t P u)
    (hagain : ∀ M e, P M → sends (commandFrame q p) e = true → Q (M ++ [e])) :
    wp (write (commandFrame q p)) (fun _ v => Logged t Q v) (fun _ v => Logged t Q v)
      (Logged t Q) u := by
  have hv : ∀ (v : LinkSt W υ) (e : WireEvent), sends (commandFrame q p) e = true →
      v.log = u.log ++ [e] → Logged t Q v :=
    fun v e he hv => h.concat hv fun M hM => hagain M e hM he
  exact wp_write.2 (wp_any (fun _ w => hv _ _ (sends_tx _) rfl)
    (fun m w => hv _ _ (sends_txFault _) rfl) (fun w => hv _ _ (sends_txFault _) rfl) _)

/-- The I-frame path sends nothing but RRs. -/
theorem wp_onIFrame {u : LinkSt W υ} (h : GoesOn q p ns start fs L T x t u) (f : Rx) :
    wp (onIFrame q ns x f)
      (Step.post (fun _ v => Finished q p ns start L T t v)
        fun y v => GoesOn q p ns start fs L T y t v)
      (fun _ v => Finished q p ns start L T t v) (Finished q p ns start L T t) u := by
  unfold onIFrame
  rw [wp_bind, wp_peer, wp_ite]
  refine ⟨fun _ => ?_, fun _ => ?_⟩
  · rw [wp_bind, wp_bump, wp_bind]
    exact (wp_write_rr (by exact h) _ _).mono (fun _ v hv => hv) (fun _ _ h => h) fun _ h => h
  rw [wp_bind, wp_logEvent, wp_bind, wp_setPeer]
  have htaken : ∀ v : LinkSt W υ, v.log = u.log ++ [.taken (.exchange q.message)
      (u.link.peers q.addr).vr f] → GoesOn q p ns start fs L T x t v :=
    fun v hv => goesOn_quiet h hv rfl rfl ⟨rfl, rfl, rfl, rfl⟩
  cases q.router f.payload with
  | accept =>
      rw [wp_bind]
      refine (wp_write_rr (htaken _ rfl) _ _).mono (fun _ v hv => ?_) (fun _ _ h => h) fun _ h => h
      simp only [wp_bind, wp_onlyIf, wp_setPeer, wp_logEvent, wp_pure]
      have hend : ∀ w : LinkSt W υ, w.log = v.log ++ [.accepted q.message f] →
          Finished q p ns start L T t w := by
        intro w hw
        exact (goesOn_quiet hv hw rfl rfl ⟨rfl, rfl, rfl, rfl⟩).mono fun _ h => h.sound
      exact ⟨fun _ => hend _ rfl, fun _ => hend _ rfl⟩
  | indication =>
      rw [wp_bind]
      refine (wp_write_rr (htaken _ rfl) _ _).mono (fun _ v hv => ?_) (fun _ _ h => h) fun _ h => h
      -- the deadline moves, which nothing here depends on
      refine Logged.mono (Q := fun M => _) hv fun M hM => ?_
      refine ⟨⟨hM.sent, hM.count, hM.unacked, hM.once⟩, hM.agrees.imp_left fun h => ?_⟩
      obtain ⟨ha, hg, ht⟩ := h
      exact ⟨ha, hg, ht.left, ht.acked, ht.retxAt, ht.asked, ht.missing⟩
  | unexpected =>
      rw [wp_bind]
      exact (wp_write_rr (htaken _ rfl) _ _).mono (fun _ v hv => hv) (fun _ _ h => h) fun _ h => h

/-- An I- or S-frame whose N(R) has been applied.  `y` are the variables after that. -/
theorem wp_onSequenced {u : LinkSt W υ} {y : Flight} {f : Rx} {who : Receiver}
    (h : Following (commandFrame q p) ns start (f :: fs) L T x)
    (hu : u.log = t.log ++ [.rx who f])
    (hr : y.retxLeft = x.retxLeft) (hat : y.retxAt = x.retxAt)
    (hack : y.acked = (x.acked || bears q.addr (ns + 1) f))
    (hmiss : y.missing = (x.missing || bears q.addr ns f)) :
    wp (onSequenced q (commandFrame q p) ns y f)
      (Step.post (fun _ v => Finished q p ns start L T t v)
        fun z v => GoesOn q p ns start fs L T z t v)
      (fun _ v => Finished q p ns start L T t v) (Finished q p ns start L T t) u := by
  have htake : (isReject f.ctrl = true → y.acked = false → x.retxLeft = 0) →
      GoesOn q p ns start fs L T y t u :=
    fun hno => Logged.event hu (h.take hr hat hack hmiss hno)
  have hreject : isReject f.ctrl = true → wp (if !y.acked ∧ y.retxLeft ≠ 0 then do
        bump fun st => { st with retx := st.retx + 1 }
        write (commandFrame q p)
        pure (.next { y with retxLeft := y.retxLeft - 1 })
      else pure (.next y) : LinkProg W υ (Step Bytes Flight))
      (Step.post (fun _ v => Finished q p ns start L T t v)
        fun z v => GoesOn q p ns start fs L T z t v)
      (fun _ v => Finished q p ns start L T t v) (Finished q p ns start L T t) u := by
    intro hf
    rw [wp_ite]
    refine ⟨fun hc => ?_, fun hc => htake fun _ hy => ?_⟩
    · have hy : y.acked = false := by simpa using hc.1
      have hx : x.acked = false ∧ bears q.addr (ns + 1) f = false := by
        rw [hack, Bool.or_eq_false_iff] at hy
        exact hy
      have hagain : ∀ M e, M = [.rx who f] → sends (commandFrame q p) e = true →
          Following (commandFrame q p) ns start fs (L ++ (M ++ [e])) (T ++ cameIn (M ++ [e]))
            { y with retxLeft := y.retxLeft - 1 } := by
        rintro M e rfl he
        have hnone : e.inbound = none := by
          rcases Bool.or_eq_true_iff.1 he with he | he <;> rw [of_decide_eq_true he] <;> rfl
        rw [cameIn_concat_of_none hnone, ← List.append_assoc]
        exact h.reject hf hx (hr ▸ hc.2) (by rw [hr]) hat hy hmiss he
      rw [wp_bind, wp_bump, wp_bind]
      refine (wp_write_again (q := q) (p := p) (P := fun M => M = [.rx who f])
        (Q := fun M => Following (commandFrame q p) ns start fs (L ++ M) (T ++ cameIn M)
          { y with retxLeft := y.retxLeft - 1 }) (by exact Logged.event hu rfl) hagain).mono
        (fun _ v hv => hv) (fun _ v hv => ?_) fun v hv => ?_
      · exact hv.mono fun _ h => h.sound
      · exact hv.mono fun _ h => h.sound
    · by_contra hleft
      exact hc ⟨by simp [hy], hr ▸ hleft⟩
  have hother : isReject f.ctrl = false → GoesOn q p ns start fs L T y t u := by
    intro hf
    refine htake fun hc => ?_
    rw [hf] at hc
    cases hc
  unfold onSequenced
  cases hk : kind f.ctrl with
  | rr => exact hother (by simp [isReject, hk])
  | rnr => exact hother (by simp [isReject, hk])
  | rej => exact hreject (by simp [isReject, hk])
  | srej => exact hreject (by simp [isReject, hk])
  | iFrame => exact wp_onIFrame (hother (by simp [isReject, hk])) f
  | uFrame => exact wp_onIFrame (hother (by simp [isReject, hk])) f

/-- One frame of a read: the U-frame, the REJ, the other supervisory frames and the I-frame are
told apart as in the code. -/
theorem wp_onFrame {f : Rx} (h : Following (commandFrame q p) ns start (f :: fs) L T x) :
    wp (onFrame q (commandFrame q p) ns x f)
      (Step.post (fun _ v => Finished q p ns start L T t v)
        fun y v => GoesOn q p ns start fs L T y t v)
      (fun _ v => Finished q p ns start L T t v) (Finished q p ns start L T t) t := by
  unfold onFrame
  rw [wp_ite]
  refine ⟨fun hforeign => ?_, fun haddr => ?_⟩
  · -- a frame from another address is counted, and says nothing
    have hskip := h.skip fun nr => by simp [bears, commandFrame, hforeign]
    exact ⟨[], by simp, by simpa using hskip⟩
  rw [not_not] at haddr
  rw [wp_bind, wp_logEvent, wp_ite]
  refine ⟨fun hu => ?_, fun hu => ?_⟩
  · -- a U-frame carries no N(R)
    have hnone : ∀ nr, bears q.addr nr f = false := fun nr => by simp [bears, hu]
    have htake : Following (commandFrame q p) ns start fs
        (L ++ [.rx (.exchange q.message) f]) (T ++ [.frame f]) x :=
      h.take rfl rfl (by simp [commandFrame, hnone]) (by simp [commandFrame, hnone])
        (by simp [isReject, hu])
    unfold onUFrame
    rw [wp_ite]
    refine ⟨fun _ => ?_, fun _ => Logged.event rfl htake⟩
    rw [wp_bind, wp_setPeer, wp_bind, wp_bump]
    exact Logged.event rfl htake.sound
  have hbears : ∀ nr, bears q.addr nr f = decide (nrOf f.ctrl = nr) := by
    intro nr
    have hne : kind f.ctrl ≠ .uFrame := hu
    simp [bears, hne, haddr]
  rw [wp_bind, ackedOr, wp_ite]
  refine ⟨fun ha => ?_, fun ha => ?_⟩
  · refine wp_onSequenced (y := { x with missing := _, acked := true }) h rfl rfl rfl ?_ ?_
    · simp [ha]
    · rw [hbears]
  · unfold applyAck
    rw [wp_ite]
    refine ⟨fun hnr => ?_, fun hnr => ?_⟩
    · rw [wp_bind, wp_setPeer]
      refine wp_onSequenced (y := { x with missing := _, acked := true }) h rfl rfl rfl ?_ ?_
      · simp [hbears, hnr]
      · rw [hbears]
    · refine wp_onSequenced (y := { x with missing := _, acked := false }) h rfl rfl rfl ?_ ?_
      · simp [hbears, hnr, ha]
      · rw [hbears]

/-- The end of a pass: the timer, the deadline, or a poll. -/
theorem wp_passEnd (h : Following (commandFrame q p) ns start [] L T x) :
    wp (passEnd q (commandFrame q p) ns x)
      (Step.post
        (fun _ => Logged t fun M => Sound (commandFrame q p) ns start (L ++ M)
          (T ++ [.clock (Line.monotonic t.world).1]))
        fun y => Logged t fun M => Following (commandFrame q p) ns start [] (L ++ M)
          (T ++ [.clock (Line.monotonic t.world).1]) y)
      (fun _ => Logged t fun M => Sound (commandFrame q p) ns start (L ++ M)
        (T ++ [.clock (Line.monotonic t.world).1]))
      (Logged t fun M => Sound (commandFrame q p) ns start (L ++ M)
        (T ++ [.clock (Line.monotonic t.world).1])) t := by
  unfold passEnd
  rw [wp_bind, wp_monotonic, wp_ite]
  refine ⟨fun hc => ?_, fun hno => ?_⟩
  · rw [wp_bind, wp_bump, wp_bind]
    have hagain : ∀ M e, M = [] → sends (commandFrame q p) e = true →
        Following (commandFrame q p) ns start [] (L ++ (M ++ [e]))
          (T ++ [.clock (Line.monotonic t.world).1])
          { x with retxLeft := x.retxLeft - 1
                   retxAt := (Line.monotonic t.world).1 + ms 1000
                   missing := false } := by
      rintro M e rfl he
      exact h.timed hc rfl rfl rfl rfl he
    refine (wp_write_again (q := q) (p := p) (t := t) (P := fun M => M = [])
      (Q := fun M => Following (commandFrame q p) ns start [] (L ++ M)
        (T ++ [Inbound.clock (Line.monotonic t.world).1])
        { x with retxLeft := x.retxLeft - 1
                 retxAt := (Line.monotonic t.world).1 + ms 1000
                 missing := false }) ⟨[], by simp, rfl⟩ hagain).mono
      (fun _ v hv => hv) (fun _ v hv => ?_) fun v hv => ?_
    · exact hv.mono fun _ h => h.sound
    · exact hv.mono fun _ h => h.sound
  · have htick := h.tick hno
    rw [wp_ite]
    refine ⟨fun _ => ⟨[], by simp, by simpa using htick.sound⟩, fun _ => ?_⟩
    simp only [wp_bind, wp_bump, wp_callback, wp_sleep, wp_peer]
    have hquiet : ∀ e, sends (commandFrame q p) e = false → e.inbound = none →
        Following (commandFrame q p) ns start [] (L ++ [e])
          (T ++ [.clock (Line.monotonic t.world).1]) { x with polls := x.polls + 1 } :=
      fun e he hn => htick.quiet he hn ⟨rfl, rfl, rfl, rfl⟩
    obtain ⟨htx, hfault⟩ := sends_rrFrame q p (t.link.peers q.addr).vr true
    exact wp_write.2 (wp_any (fun _ w => Logged.event rfl (hquiet _ htx rfl))
      (fun m w => Logged.event rfl (hquiet _ hfault rfl).sound)
      (fun w => Logged.event rfl (hquiet _ hfault rfl).sound) _)

end Call

/-- **Retransmission.**  In the log of any call, finished or not: the command is sent at most four
times, never after an acknowledgement, and every resend was asked for since the transmission before
it exactly if the inbound trace of the call is grounded.  The condition is on what came in, and the
property on what was sent. -/
theorem exchange_retransmission (n : ℕ) (q : Call υ) (s : LinkSt W υ) :
    ∃ L, (exchange n q s).2.log = s.log ++ L ∧
      Sound (commandFrame q (s.link.peers q.addr)) (s.link.peers q.addr).vs
        (inboundTrace n q s).1 L (inboundTrace n q s).2 := by
  have hfailed : Sound (commandFrame q (s.link.peers q.addr)) (s.link.peers q.addr).vs 0
      [.txFault (commandFrame q (s.link.peers q.addr))] [] :=
    (following_start (sends_txFault _) 0 0).sound
  refine exchange_traced
    (fun now fs L T x => Following (commandFrame q (s.link.peers q.addr))
      (s.link.peers q.addr).vs now fs L T x)
    (fun now L T => Sound (commandFrame q (s.link.peers q.addr)) (s.link.peers q.addr).vs now L T)
    (fun now => following_start (sends_tx _) now _) hfailed (fun now => ?_) n
  refine ⟨fun L T x h => h.sound, fun L T x fs h => h.read fs, fun L T x h => ?_,
    fun f fs L T x t h => wp_onFrame h, fun L T x t h => wp_passEnd h⟩
  exact (h.quiet (e := .fault) rfl rfl ⟨rfl, rfl, rfl, rfl⟩).sound

/-- The octet of a REJ. -/
def rejCtrl (nr : Seq) : Byte := BitVec.ofNat 8 (0x09 ||| (nr.val <<< 5)) ||| pf

/-- The device answers a GetTilt with one REJ that asks for it, and is silent after. -/
def rejectsOnce : LinkSt (Bench Empty) Unit where
  world := { plan := { arrives := fun n => if n = 0 then [fromDevice (rejCtrl 0)] else [] } }
  link := {}
  log := []
  user := ()

/-- **One REJ, two resends.**  The REJ triggers a resend and leaves `missing` set, so the
timer triggers another although nothing more was heard. -/
theorem rejectsOnce_not_asked :
    ¬ Asked ⟨1, iCtrl 0 0, [0x34, 0, 0]⟩ 0
      (exchange 12 { addr := 1, message := [0x34, 0, 0] } rejectsOnce).2.log := by
  decide +kernel

/-- An RR right behind the REJ, in the same read, makes no difference: it was received before
the resend that the REJ triggers, not after it. -/
example : ¬ Grounded 1 0 0
    [.read [fromDevice (rejCtrl 0), fromDevice 0x11], .frame (fromDevice (rejCtrl 0)),
      .frame (fromDevice 0x11), .clock (ms 500), .read [], .clock (ms 1500)] := by
  decide +kernel

/-- A REJ does no harm if the acknowledgement comes in time. -/
example : Grounded 1 0 0
    [.read [fromDevice (rejCtrl 0)], .frame (fromDevice (rejCtrl 0)), .clock (ms 500),
      .read [fromDevice 0x31], .frame (fromDevice 0x31), .clock (ms 1500)] := by
  decide +kernel

end OpenAisg.Link
