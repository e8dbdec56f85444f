import OpenAisg.Link.Exchange

/-!
# What comes in during one call

A run of `exchange` is driven from outside: by what its reads bring, by which of the frames
it takes up before it ends, and by the clock at the end of each pass.  This file takes
that input out of a run, so that a condition on a call can be a condition on its inbound
trace alone, whatever the call itself then sent.

* `Inbound` — one thing that comes in: the frames of a read, a frame of the peer that is
  taken up, or the clock at the end of a pass.
* `takeUp` — the first half of a pass, a read and the frames it brought; `passEnd` is the
  second half, and `pass_eq` puts the two together.
* `comesIn`, `inboundTrace` — the inbound trace of some passes, and of a call.
* `exchange_traced` — the rule for statements about a log and the inbound trace beside it:
  what the first frame makes true, and both halves of a pass keep, holds when a call ends,
  however long it was and however it ended.
-/

namespace OpenAisg.Link

open Hdlc Prog

/-- What a call of `exchange` sees of the world, in the order in which it sees it.  The clock is
seen once in a pass, at its end. -/
inductive Inbound where
  /-- `_read_frames` returned these frames. -/
  | read (fs : List Rx)
  /-- The loop over the frames of a read has come to this one, which the peer sent. -/
  | frame (f : Rx)
  /-- The clock was read at the end of a pass. -/
  | clock (now : Time)
  deriving DecidableEq, Repr

/-- What an event of the log brought in.  Transmissions bring in nothing, and the clock is
not in the log. -/
def WireEvent.inbound : WireEvent → Option Inbound
  | .batch fs => some (.read fs)
  | .rx _ f => some (.frame f)
  | _ => none

/-- What the events of a log brought in. -/
def cameIn (L : List WireEvent) : List Inbound := L.filterMap WireEvent.inbound

@[simp] theorem cameIn_nil : cameIn [] = [] := rfl

@[simp] theorem cameIn_append (L M : List WireEvent) : cameIn (L ++ M) = cameIn L ++ cameIn M :=
  List.filterMap_append

/-- An event that brings in nothing leaves the inbound trace as it is. -/
theorem cameIn_concat_of_none {L : List WireEvent} {e : WireEvent} (he : e.inbound = none) :
    cameIn (L ++ [e]) = cameIn L := by
  rw [cameIn_append, cameIn, cameIn, List.filterMap_cons_none he, List.filterMap_nil,
    List.append_nil]

variable {W υ : Type} [Line W]

/-! ## The trace of a run -/

/-- The first half of a pass: a read, and one after the other the frames that it brought. -/
def takeUp (q : Call υ) (frame : Frame) (sentNs : Seq) (x : Flight) :
    LinkProg W υ (Step Bytes Flight) := do
  let frames ← readFrames q.pollInterval
  scan (onFrame q frame sentNs) x frames

/-- A pass is its two halves. -/
theorem pass_eq (q : Call υ) (frame : Frame) (ns : Seq) (x : Flight) :
    (pass q frame ns x : LinkProg W υ (Step Bytes Flight)) =
      takeUp q frame ns x >>= fun r => match r with
        | .done payload => pure (.done payload)
        | .next x' => passEnd q frame ns x' := by
  unfold pass takeUp
  exact (bind_assoc_run _ _ _).symm

/-- What comes in during the next `n` passes of a call with the local variables `x`.  A pass looks
at the clock only if none of its frames ended the call. -/
def comesIn (q : Call υ) (frame : Frame) (sentNs : Seq) :
    ℕ → Flight → LinkSt W υ → List Inbound
  | 0, _, _ => []
  | n + 1, x, t =>
      match takeUp q frame sentNs x t with
      | (.ret (.next y), u) =>
          cameIn (u.log.drop t.log.length) ++ .clock (Line.monotonic u.world).1 ::
            match passEnd q frame sentNs y u with
            | (.ret (.next z), v) => comesIn q frame sentNs n z v
            | _ => []
      | (_, u) => cameIn (u.log.drop t.log.length)

/-- The inbound trace of a call of `n` passes: the clock at its start, and what came in from
then on.  A call whose first frame could not be written sees nothing. -/
def inboundTrace (n : ℕ) (q : Call υ) (s : LinkSt W υ) : Time × List Inbound :=
  match write (commandFrame q (s.link.peers q.addr)) s with
  | (.ret _, t) =>
      let now := Line.monotonic t.world
      (now.1, comesIn q (commandFrame q (s.link.peers q.addr)) (s.link.peers q.addr).vs n
        { deadline := now.1 + q.timeout, retxAt := now.1 + ms 1000 } { t with world := now.2 })
  | _ => (0, [])

/-! ## The rule -/

/-- `P` of what was logged since `s`.  Everything below speaks of the log from the call's beginning
on. -/
def Logged (s : LinkSt W υ) (P : List WireEvent → Prop) (t : LinkSt W υ) : Prop :=
  ∃ L, t.log = s.log ++ L ∧ P L

omit [Line W] in
theorem Logged.mono {s t : LinkSt W υ} {P Q : List WireEvent → Prop} (h : Logged s P t)
    (hPQ : ∀ L, P L → Q L) : Logged s Q t := by
  obtain ⟨L, hL, hP⟩ := h
  exact ⟨L, hL, hPQ L hP⟩

omit [Line W] in
/-- One event more. -/
theorem Logged.event {s t : LinkSt W υ} {P : List WireEvent → Prop} {e : WireEvent}
    (ht : t.log = s.log ++ [e]) (hP : P [e]) : Logged s P t :=
  ⟨[e], ht, hP⟩

omit [Line W] in
/-- What has been logged since `t` goes on with one event more. -/
theorem Logged.concat {t u v : LinkSt W υ} {P Q : List WireEvent → Prop} {e : WireEvent}
    (h : Logged t P u) (hv : v.log = u.log ++ [e]) (hPQ : ∀ M, P M → Q (M ++ [e])) :
    Logged t Q v := by
  obtain ⟨M, hM, hP⟩ := h
  exact ⟨M ++ [e], by rw [hv, hM, List.append_assoc], hPQ M hP⟩

section Rule

/-- What a proof about a log `L` and the inbound trace `T` beside it is made of: the
invariant `K fs` while the frames `fs` of a read are still to be taken up (none of them
between two passes), and `P` of a call that has ended. -/
structure Traced (W : Type) [Line W] (q : Call υ) (frame : Frame) (ns : Seq)
    (K : List Rx → List WireEvent → List Inbound → Flight → Prop)
    (P : List WireEvent → List Inbound → Prop) : Prop where
  /-- The bound on the passes runs out. -/
  stalled : ∀ L T x, K [] L T x → P L T
  read : ∀ L T x fs, K [] L T x → K fs (L ++ [.batch fs]) (T ++ [.read fs]) x
  fault : ∀ L T x, K [] L T x → P (L ++ [.fault]) T
  /-- One frame, from a state `t`, which logs `M`. -/
  taken : ∀ f fs L T x (t : LinkSt W υ), K (f :: fs) L T x →
    wp (onFrame q frame ns x f)
      (Step.post (fun _ => Logged t fun M => P (L ++ M) (T ++ cameIn M))
        fun y => Logged t fun M => K fs (L ++ M) (T ++ cameIn M) y)
      (fun _ => Logged t fun M => P (L ++ M) (T ++ cameIn M))
      (Logged t fun M => P (L ++ M) (T ++ cameIn M)) t
  /-- The end of a pass, which reads the clock and logs `M`. -/
  finish : ∀ L T x (t : LinkSt W υ), K [] L T x →
    wp (passEnd q frame ns x)
      (Step.post (fun _ => Logged t fun M => P (L ++ M) (T ++ [.clock (Line.monotonic t.world).1]))
        fun y => Logged t fun M => K [] (L ++ M) (T ++ [.clock (Line.monotonic t.world).1]) y)
      (fun _ => Logged t fun M => P (L ++ M) (T ++ [.clock (Line.monotonic t.world).1]))
      (Logged t fun M => P (L ++ M) (T ++ [.clock (Line.monotonic t.world).1])) t

variable {q : Call υ} {frame : Frame} {ns : Seq} {s : LinkSt W υ}
  {K : List Rx → List WireEvent → List Inbound → Flight → Prop}
  {P : List WireEvent → List Inbound → Prop}

/-- The first half of a pass. -/
theorem Traced.wp_takeUp (h : Traced W q frame ns K P) {L : List WireEvent} {T : List Inbound}
    {x : Flight} (t : LinkSt W υ) (hK : K [] L T x) :
    wp (takeUp q frame ns x)
      (Step.post (fun _ => Logged t fun M => P (L ++ M) (T ++ cameIn M))
        fun y => Logged t fun M => K [] (L ++ M) (T ++ cameIn M) y)
      (fun _ => Logged t fun M => P (L ++ M) (T ++ cameIn M))
      (Logged t fun M => P (L ++ M) (T ++ cameIn M)) t := by
  have hfault : ∀ w, Logged t (fun M => P (L ++ M) (T ++ cameIn M))
      ({ t with world := w, log := t.log ++ [.fault] } : LinkSt W υ) := by
    intro w
    refine Logged.event rfl ?_
    rw [show cameIn [.fault] = [] from rfl, List.append_nil]
    exact h.fault L T x hK
  unfold takeUp
  rw [wp_bind, wp_readFrames]
  refine wp_any (fun fs w => ?_) (fun m w => hfault w) hfault _
  -- the frames that are left, and what has been logged since the pass began
  refine wp_scan (fun fs y u => Logged t (fun M => K fs (L ++ M) (T ++ cameIn M) y) u)
    (fun f fs y u hu => ?_) fs x _ (Logged.event rfl (h.read L T x fs hK))
  obtain ⟨M, hM, hK'⟩ := hu
  have hmore : ∀ {Q : List WireEvent → List Inbound → Prop} {v : LinkSt W υ},
      Logged u (fun M' => Q (L ++ M ++ M') (T ++ cameIn M ++ cameIn M')) v →
        Logged t (fun M' => Q (L ++ M') (T ++ cameIn M')) v := by
    rintro Q v ⟨M', hM', hQ⟩
    refine ⟨M ++ M', by rw [hM', hM, List.append_assoc], ?_⟩
    simpa only [cameIn_append, ← List.append_assoc] using hQ
  refine (h.taken f fs (L ++ M) (T ++ cameIn M) y u hK').mono (fun r v hv => ?_)
    (fun _ _ hv => hmore hv) fun _ hv => hmore hv
  cases r with
  | done b => exact hmore hv
  | next z => exact hmore (Q := fun L T => K fs L T z) hv

omit [Line W] in
/-- A call that the first half of a pass ends: the trace takes over what that half has logged. -/
theorem Logged.ended {L : List WireEvent} {T : List Inbound} {t u : LinkSt W υ}
    (hL : t.log = s.log ++ L) (h : Logged t (fun M => P (L ++ M) (T ++ cameIn M)) u) :
    Logged s (fun L' => P L' (T ++ cameIn (u.log.drop t.log.length))) u := by
  obtain ⟨M, hM, hP⟩ := h
  refine ⟨L ++ M, by rw [hM, hL, List.append_assoc], ?_⟩
  rw [hM, List.drop_left]
  exact hP

omit [Line W] in
/-- What has been logged since `u` goes on with what was logged before. -/
theorem Logged.behind {Q : List WireEvent → Prop} {L : List WireEvent} {u v : LinkSt W υ}
    (hL : u.log = s.log ++ L) (h : Logged u (fun M => Q (L ++ M)) v) : Logged s Q v := by
  obtain ⟨M, hM, hQ⟩ := h
  exact ⟨L ++ M, by rw [hM, hL, List.append_assoc], hQ⟩

/-- One pass after the other.  The induction is on the bound; a pass that ends the call leaves
nothing to come in. -/
theorem Traced.loop (h : Traced W q frame ns K P) :
    ∀ n x (t : LinkSt W υ) L T, t.log = s.log ++ L → K [] L T x →
      Logged s (fun L' => P L' (T ++ comesIn q frame ns n x t))
        (loop (pass q frame ns) n x t).2 := by
  intro n
  induction n with
  | zero =>
      intro x t L T hL hK
      exact ⟨L, hL, by simpa [comesIn] using h.stalled L T x hK⟩
  | succ n ih =>
      intro x t L T hL hK
      have hb := h.wp_takeUp t hK
      unfold wp at hb
      rw [loop_run, pass_eq, bind_run, comesIn]
      rcases hr : takeUp q frame ns x t with ⟨o, u⟩
      rw [hr] at hb
      cases o with
      | raise e => exact Logged.ended hL hb
      | stall => exact Logged.ended hL hb
      | ret r =>
          cases r with
          | done b => exact Logged.ended hL hb
          | next y =>
              obtain ⟨M, hM, hK'⟩ := hb
              have hLM : u.log = s.log ++ (L ++ M) := by rw [hM, hL, List.append_assoc]
              have he := h.finish (L ++ M) (T ++ cameIn M) y u hK'
              unfold wp at he
              dsimp only
              rw [hM, List.drop_left]
              rcases hp : passEnd q frame ns y u with ⟨o, v⟩
              rw [hp] at he
              -- what the second half of the pass ends, with the clock as the last to come in
              have hlast : Logged u (fun M' => P (L ++ M ++ M')
                    (T ++ cameIn M ++ [.clock (Line.monotonic u.world).1])) v →
                  Logged s (fun L' =>
                    P L' (T ++ (cameIn M ++ [.clock (Line.monotonic u.world).1]))) v := by
                intro hv
                rw [← List.append_assoc]
                exact Logged.behind hLM hv
              cases o with
              | raise e => exact hlast he
              | stall => exact hlast he
              | ret r =>
                  cases r with
                  | done b => exact hlast he
                  | next z =>
                      obtain ⟨L', hL', hK''⟩ := Logged.behind (Q := fun L' => K [] L' _ z) hLM he
                      have hrest := ih z v L' _ hL' hK''
                      simpa only [List.append_assoc, List.cons_append, List.nil_append] using hrest

end Rule

/-- **The rule.**  However long a call is and however it ends, its log and its inbound trace
satisfy what the first frame makes true and both halves of a pass keep. -/
theorem exchange_traced {q : Call υ} {s : LinkSt W υ}
    (K : Time → List Rx → List WireEvent → List Inbound → Flight → Prop)
    (P : Time → List WireEvent → List Inbound → Prop)
    (sent : ∀ now, K now [] [.tx (commandFrame q (s.link.peers q.addr))] []
      { deadline := now + q.timeout, retxAt := now + ms 1000 })
    (failed : P 0 [.txFault (commandFrame q (s.link.peers q.addr))] [])
    (h : ∀ now, Traced W q (commandFrame q (s.link.peers q.addr)) (s.link.peers q.addr).vs
      (K now) (P now)) (n : ℕ) :
    Logged s (fun L => P (inboundTrace n q s).1 L (inboundTrace n q s).2) (exchange n q s).2 := by
  have hw : wp (write (commandFrame q (s.link.peers q.addr)))
      (fun _ t => t.log = s.log ++ [.tx (commandFrame q (s.link.peers q.addr))])
      (fun _ t => t.log = s.log ++ [.txFault (commandFrame q (s.link.peers q.addr))])
      (fun t => t.log = s.log ++ [.txFault (commandFrame q (s.link.peers q.addr))]) s :=
    wp_write.2 (wp_any (fun _ _ => rfl) (fun _ _ => rfl) (fun _ => rfl) _)
  unfold wp at hw
  rw [exchange_run, inboundTrace]
  rcases hr : write (commandFrame q (s.link.peers q.addr)) s with ⟨o, t⟩
  rw [hr] at hw
  cases o with
  | raise e => exact ⟨_, hw, failed⟩
  | stall => exact ⟨_, hw, failed⟩
  | ret u =>
      have hloop := (h (Line.monotonic t.world).1).loop n _
        { t with world := (Line.monotonic t.world).2 } _ [] hw (sent _)
      simpa only [List.nil_append] using hloop

end OpenAisg.Link
