import OpenAisg.Link.Ledger

/-!
# Sequence numbers and turns of one call

What the books of a call say of the frames on the bus.  Each result is an exact
condition on the log of the call, for every world, and is followed by a run in
which the bus shows the difference.

* `callLog` — the log of one call, however far it has come.  `n` bounds its
  passes, so that a statement for every `n` is one about every moment of it.
* `exchange_acknowledges` — the N(R) of the frames written: the command frame is
  built once, so it is up to date only while V(R) is where it was then, and
  `alarmThenReject` sends it again when V(R) has moved.
* `exchange_advances` — V(S) at the end: an accepted response moves it whether
  or not the command was acknowledged, as `answersUnacked` shows.
* `exchange_takesTurns` — the P bits: a frame that prompts an answer must be the
  only one of its read, and the call must end with it; `repeatsItself` is a
  duplicate that is answered and then followed by the poll of the pass.

The three come from `wp_exchange_booked`: `callLog_cases` says that a call, cut
off anywhere, has its books closed or stands between two passes.
-/

namespace OpenAisg.Link

open Hdlc Prog Trace

variable {W υ : Type} [Line W]

/-- What `n` passes of a call add to the log.  A call that is over earlier adds no more. -/
def callLog (n : ℕ) (q : Call υ) (s : LinkSt W υ) : List WireEvent :=
  (exchange n q s).2.log.drop s.log.length

/-- The peer a call addresses, as it was when the call began. -/
def Call.peer (q : Call υ) (s : LinkSt W υ) : PeerState := s.link.peers q.addr

/-- A DM or FRMR ended the call. -/
def resets {α : Type} : Outcome Exn α → Bool
  | .raise e => e.isReset
  | _ => false

/-- V(R) moved past an I-frame. -/
def WireEvent.isTaken : WireEvent → Bool
  | .taken .. => true
  | _ => false

/-- V(R) after the events `L` of a call, one further for each I-frame taken up, modulo 8. -/
def vrAfter (p : PeerState) (L : List WireEvent) : Seq :=
  p.vr + Fin.ofNat 8 (L.countP WireEvent.isTaken)

/-! ## The log only grows -/

/-- The log of `s` is the beginning of the log of `t`. -/
def Extends (s t : LinkSt W υ) : Prop := s.log <+: t.log

instance : IsPreorder (LinkSt W υ) Extends where
  refl s := List.prefix_refl s.log
  trans _ _ _ h h' := h.trans h'

/-- An exchange only appends to the log. -/
theorem exchanging_extends (q : Call υ) : Exchanging q (Extends : LinkSt W υ → LinkSt W υ → Prop) where
  world s _ := List.prefix_refl s.log
  wire s e _ _ := List.prefix_append s.log [e]
  link s _ _ := List.prefix_refl s.log
  poll _ _ s := List.prefix_refl s.log
  iFrame := moves_onIFrame (fun s _ => List.prefix_refl s.log)
    (fun s e _ _ => List.prefix_append s.log [e]) (fun s _ _ => List.prefix_refl s.log)
    fun _ s => List.prefix_refl s.log
  uFrame x f := by
    refine moves_bind (moves_logEvent fun s => List.prefix_append s.log _) fun _ =>
      moves_ite (fun _ => ?_) fun _ => moves_pure _
    refine moves_bind (moves_modify fun s => List.prefix_refl s.log) fun _ =>
      moves_bind (moves_modify fun s => List.prefix_refl s.log) fun _ => moves_raise _

/-- What begins with a read logs it first. -/
theorem readFrames_then {α : Type} {rest : List Rx → LinkProg W υ α}
    (h : ∀ fs, Moves Extends (rest fs)) (b : Time) (t : LinkSt W υ) :
    ∃ e M, e.reading = true ∧ ((readFrames b >>= rest) t).2.log = t.log ++ e :: M := by
  refine wp.leaves (P := fun u : LinkSt W υ => ∃ e M, e.reading = true ∧ u.log = t.log ++ e :: M) ?_
  rw [wp_bind, wp_readFrames]
  refine wp_any (fun fs w => ?_) (fun m w => ⟨.fault, [], rfl, rfl⟩)
    (fun w => ⟨.fault, [], rfl, rfl⟩) _
  have hv : ∀ v, Extends { t with world := w, log := t.log ++ [.batch fs] } v →
      ∃ e M, e.reading = true ∧ v.log = t.log ++ e :: M := by
    rintro v ⟨M, hM⟩
    exact ⟨.batch fs, M, rfl, by rw [← hM, List.append_assoc]; rfl⟩
  exact ((h fs).wp _).mono (fun _ v h => hv v h) (fun _ v h => hv v h) fun v h => hv v h

/-- One pass more begins with a read. -/
theorem loop_pass_reads {q : Call υ} {f : Frame} (hf : f.payload = q.message) (ns : Seq)
    (x : Flight) (t : LinkSt W υ) :
    ∃ e M, e.reading = true ∧ (loop (pass q f ns) 1 x t).2.log = t.log ++ e :: M := by
  have h := exchanging_extends (W := W) q
  rw [loop, pass, bind_assoc_run]
  refine readFrames_then (fun fs => ?_) _ t
  refine moves_bind (moves_bind (moves_scan (fun x f => moves_onFrame h hf _ x f) _ _) fun r => ?_)
    fun r => ?_
  · cases r with
    | done pl => exact moves_pure _
    | next x' => exact h.toPolling.passEnd hf _ _
  · cases r with
    | done pl => exact moves_pure _
    | next x' => exact moves_loop (fun x => moves_pass h hf _ x) _ _

/-! ## How a call leaves its books -/

/-- The log of a call is the log before it and what the call adds. -/
theorem callLog_eq {n : ℕ} {q : Call υ} {s : LinkSt W υ} {L : List WireEvent}
    (h : (exchange n q s).2.log = s.log ++ L) : callLog n q s = L := by
  rw [callLog, h, List.drop_left]

/-- However far a call has come: its books are closed, or it is between two passes and reads next.
In the second case the log of one pass more begins with a read, which is what the laws about
turns need of a prefix. -/
theorem callLog_cases (n : ℕ) (q : Call υ) (s : LinkSt W υ) :
    (∃ reset, (reset = true → resets (exchange n q s).1 = true) ∧
      Told q (q.peer s) (callLog n q s) reset ((exchange n q s).2.link.peers q.addr)) ∨
    ∃ x, Books q (q.peer s) (callLog n q s) x ((exchange n q s).2.link.peers q.addr) ∧
      Passing q (q.peer s) (callLog n q s) ∧
      ∃ e M, e.reading = true ∧ callLog (n + 1) q s = callLog n q s ++ e :: M := by
  have h := wp_exchange_booked n q s
  unfold wp at h
  rcases hr : exchange n q s with ⟨o, t⟩
  rw [hr] at h
  have hlog : ∀ {L}, t.log = s.log ++ L → callLog n q s = L := fun hL => callLog_eq (by rw [hr, hL])
  cases o with
  | ret b =>
      obtain ⟨L, hL, ht⟩ := h
      exact Or.inl ⟨false, fun hc => absurd hc Bool.false_ne_true, by rw [hlog hL]; exact ht⟩
  | raise e =>
      obtain ⟨L, hL, ht⟩ := h
      exact Or.inl ⟨e.isReset, fun hc => hc, by rw [hlog hL]; exact ht⟩
  | stall =>
      rcases h with ⟨L, hL, ht⟩ | ⟨x, ⟨L, hL, hb, hp⟩, hmore⟩
      · exact Or.inl ⟨false, fun hc => absurd hc Bool.false_ne_true, by rw [hlog hL]; exact ht⟩
      · refine Or.inr ⟨x, by rw [hlog hL]; exact hb, by rw [hlog hL]; exact hp, ?_⟩
        obtain ⟨e, M, he, hM⟩ := loop_pass_reads (q := q)
          (f := commandFrame q (s.link.peers q.addr)) rfl (s.link.peers q.addr).vs x t
        refine ⟨e, M, he, callLog_eq ?_⟩
        rw [hmore, hM, hL, hlog hL, List.append_assoc]

/-! ## N(R) -/

/-- Every frame handed to the port is for the peer, with the V(R) of that moment. -/
def Current (q : Call υ) (p : PeerState) : List WireEvent → Prop :=
  Always fun past e => ∀ g ∈ e.handed, g.addr = q.addr ∧ nrOf g.ctrl = vrAfter p past

/-- The command is sent, or sent again, only after a multiple of eight I-frames. -/
def Timely (q : Call υ) (p : PeerState) : List WireEvent → Prop :=
  Always fun past e => e.handed = some (commandFrame q p) → 8 ∣ past.countP WireEvent.isTaken

instance (q : Call υ) (p : PeerState) (L : List WireEvent) : Decidable (Current q p L) :=
  inferInstanceAs (Decidable (Always _ L))

/-- V(R) counts modulo 8: it is back where it began after a multiple of eight I-frames. -/
theorem vrAfter_eq_iff (p : PeerState) (L : List WireEvent) :
    vrAfter p L = p.vr ↔ 8 ∣ L.countP WireEvent.isTaken := by
  rw [vrAfter, Fin.ext_iff, Fin.val_add, Fin.val_ofNat]
  have := p.vr.isLt
  omega

/-- The ledger's V(R) is the count of the I-frames taken up. -/
theorem ledger_vr (q : Call υ) (p : PeerState) (L : List WireEvent) :
    (ledger q p L).vr = vrAfter p L := by
  induction L using List.reverseRecOn with
  | nil => simp [vrAfter]
  | append_singleton L e ih =>
      rw [ledger_concat, vrAfter, List.countP_append, List.countP_singleton]
      cases e with
      | taken who vr f =>
          simp only [Ledger.step, ih, vrAfter, WireEvent.isTaken, if_true, Fin.ext_iff,
            Fin.val_add, Fin.val_ofNat]
          omega
      | _ => exact ih

/-- A lawful log is current exactly when the command is timely: an RR always carries the V(R) of its
moment, and the command frame the V(R) of the call's beginning. -/
theorem Lawful.current_iff {q : Call υ} {p : PeerState} {L : List WireEvent}
    (h : Lawful q p L) : Current q p L ↔ Timely q p L := by
  refine ⟨fun hc past e later hL he => ?_, fun ht past e later hL g hg => ?_⟩
  · obtain ⟨-, hnr⟩ := hc past e later hL _ he
    rw [← vrAfter_eq_iff p, ← hnr]
    exact nrOf_iCtrl _ _
  · rcases h past e later hL g hg with rfl | ⟨poll, rfl⟩
    · refine ⟨rfl, ?_⟩
      rw [(vrAfter_eq_iff p past).2 (ht past e later hL hg)]
      exact nrOf_iCtrl _ _
    · refine ⟨rfl, ?_⟩
      rw [← ledger_vr q]
      exact nrOf_rrCtrl _ _

/-- **N(R).**  V(R) moves by one with each I-frame taken up, and every frame of a call
carries the current V(R) exactly when the command is sent again only after a multiple of
eight of them. -/
theorem exchange_acknowledges (n : ℕ) (q : Call υ) (s : LinkSt W υ) :
    (resets (exchange n q s).1 = false →
      ((exchange n q s).2.link.peers q.addr).vr = vrAfter (q.peer s) (callLog n q s)) ∧
    (Current q (q.peer s) (callLog n q s) ↔ Timely q (q.peer s) (callLog n q s)) := by
  rcases callLog_cases n q s with ⟨reset, hreset, ht⟩ | ⟨x, hb, -, -⟩
  · refine ⟨fun hr => ?_, ht.lawful.current_iff⟩
    rw [← ledger_vr q]
    refine ht.vr ?_
    cases reset with
    | false => rfl
    | true => rw [hreset rfl] at hr; cases hr
  · refine ⟨fun _ => ?_, hb.lawful.current_iff⟩
    rw [← ledger_vr q]
    exact hb.vr

/-- A request during which the peer reports an alarm. -/
def getTilt : Call Unit where
  addr := 1
  message := [0x34, 0, 0]
  router pl := if pl.head? = some 0x07 then .indication else .accept

/-- The device loses the request: it reports an alarm, and rejects the next poll. -/
def alarmThenReject : LinkSt (Bench Empty) Unit where
  world := { plan := { arrives := fun n => match n with
    | 0 => [fromDevice (iCtrl 0 0) [0x07, 0, 0]]
    | 1 => [fromDevice (rejCtrl 0)]
    | _ => [] } }
  link := {}
  log := []
  user := ()

/-- **A stale resend.**  The RR acknowledged the alarm with N(R) = 1; the command goes
out again with N(R) = 0. -/
theorem alarmThenReject_stale :
    ¬ Current getTilt (getTilt.peer alarmThenReject) (callLog 3 getTilt alarmThenReject) := by
  decide +kernel

/-! ## V(S) -/

/-- V(S) as the acknowledgements in the log have moved it. -/
def vsAfter (addr : Byte) (p : PeerState) (L : List WireEvent) : Seq :=
  if L.any (acks addr p.vs) then p.vs + 1 else p.vs

/-- **V(S).**  However a call ends but by a DM or FRMR, V(S) is where the acknowledgements moved it
exactly when no response was accepted before one.  (A DM or FRMR resets V(S), whatever was
acknowledged.) -/
theorem exchange_advances (n : ℕ) (q : Call υ) (s : LinkSt W υ)
    (h : resets (exchange n q s).1 = false) :
    ((exchange n q s).2.link.peers q.addr).vs = vsAfter q.addr (q.peer s) (callLog n q s) ↔
      AckedFirst q (q.peer s) (callLog n q s) := by
  rw [vsAfter, ← ledger_acked]
  rcases callLog_cases n q s with ⟨reset, hreset, ht⟩ | ⟨x, hb, hp, -⟩
  · refine ht.vs ?_
    cases reset with
    | false => rfl
    | true => rw [hreset rfl] at h; cases h
  · refine iff_of_true ?_ fun past e later hL ha => ?_
    · rw [← hb.acked]
      exact hb.vs
    · have := hb.pending e (by rw [hL]; exact List.mem_append_right _ (List.mem_cons_self ..))
      rw [this] at ha
      cases ha

/-- The device answers the first command. -/
def answers : LinkSt (Bench Empty) Unit where
  world := { plan := { answer := fun _ _ => some [0x34, 1, 0, 0] } }
  link := {}
  log := []
  user := ()

/-- The response acknowledges the command, and V(S) is 1. -/
theorem exchange_advances_answers :
    ((exchange 3 getTilt answers).2.link.peers 1).vs =
        vsAfter 1 (getTilt.peer answers) (callLog 3 getTilt answers) ↔
      AckedFirst getTilt (getTilt.peer answers) (callLog 3 getTilt answers) :=
  exchange_advances 3 getTilt answers (by decide +kernel)

/-- The response comes in an I-frame that still asks for the command. -/
def answersUnacked : LinkSt (Bench Empty) Unit where
  world := { plan := { arrives := fun n => if n = 0 then [fromDevice (iCtrl 0 0) [0x34, 0]] else [] } }
  link := {}
  log := []
  user := ()

/-- **V(S) runs ahead.**  No frame had N(R) = 1, and V(S) is 1. -/
theorem answersUnacked_ahead :
    resets (exchange 3 getTilt answersUnacked).1 = false ∧
      ((exchange 3 getTilt answersUnacked).2.link.peers 1).vs ≠
        vsAfter 1 (getTilt.peer answersUnacked) (callLog 3 getTilt answersUnacked) := by
  decide +kernel

/-! ## Turns -/

/-- **Turns.**  A call reads between any two frames with P, however long it runs, exactly when no
read brings a frame that prompts an answer and is followed by another such frame or by another
read.  The end of a pass sends one more frame with P, so even a single prompt is one too many
unless the call ends with it. -/
theorem exchange_takesTurns (q : Call υ) (s : LinkSt W υ) :
    (∀ n, Turns (callLog n q s)) ↔ ∀ n, Reserved q (q.peer s) (callLog n q s) := by
  refine ⟨fun h n => ?_, fun h n => ?_⟩
  · rcases callLog_cases n q s with ⟨reset, -, ht⟩ | ⟨x, -, hp, -⟩
    · exact ht.fair.1 (h n)
    · exact (hp.fair.1 (h n)).1
  · rcases callLog_cases n q s with ⟨reset, -, ht⟩ | ⟨x, -, hp, e, M, he, hM⟩
    · exact ht.fair.2 (h n)
    · -- the read that comes next finds no prompt
      have hmore := h (n + 1)
      rw [hM] at hmore
      exact hp.fair.2 ⟨h n, (hmore _ e M rfl).1 he⟩

/-- The device repeats an I-frame that was acknowledged before. -/
def repeatsItself : LinkSt (Bench Empty) Unit where
  world := { plan := { arrives := fun n => if n = 0 then [fromDevice (iCtrl 7 0)] else [] } }
  link := {}
  log := []
  user := ()

/-- **Two polls in a row.**  The duplicate is acknowledged with P, and the poll at the end
of the pass follows without a read. -/
theorem repeatsItself_twice : ¬ ∀ n, Turns (callLog n getTilt repeatsItself) := by
  have h : ¬ Turns (callLog 1 getTilt repeatsItself) := by decide +kernel
  exact fun hn => h (hn 1)

end OpenAisg.Link
