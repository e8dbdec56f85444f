import OpenAisg.Link.FakeSerial
import OpenAisg.Link.Stations

/-!
# `connect` over the octets

The one-shot path throws away what has come in, sends SNRM and collects octets until two flags
have come.  What it leaves behind is the rest of an answer, cut anywhere.

* `whole_of_suffix` — the rest of a chunk is read as nothing.
* `Collected` — what the loop of `_xfer` has in hand, and the rest that is still to be read.
* `wp_xfer_drained` — `_xfer` collects a part of what is read after its own command.
* `Cabled` — what `connect` needs.  The sequence numbers of the two ends, what is owed and what
  is on its way may be anything: SNRM is there to settle them.
* `Restarted` — what it leaves.
* `wp_connect_cabled` — if `connect` returns, both ends start at zero, nothing is owed and nothing
  is on its way.

So the calls that come after a `connect` begin in the state that the results about calls ask
for, whatever the session before it left behind.
-/

namespace OpenAisg.Link

open Hdlc Pieces Prog Pump

/-! ## The rest of a chunk -/

/-- The rest of a chunk in which only the first piece is a frame, if any is. -/
theorem whole_of_suffix {a b : Bytes} (hroom : ∀ p ∈ (a ++ b).splitOn flag, p.length < 512)
    (hno : framesOf (((a ++ b).splitOn flag).drop 1).dropLast = [])
    (hclean : framesOf [opened flag (a ++ b)] = []) : Whole b ∧ streamFrames b = [] := by
  have hsuf : (b.splitOn flag).drop 1 <:+ ((a ++ b).splitOn flag).drop 1 := drop_splitOn_suffix a b
  refine ⟨⟨fun p hp => hroom p (List.mem_of_mem_drop (hsuf.subset hp)), fun hb => ?_⟩, ?_⟩
  · obtain ⟨pre, hpre⟩ := exists_opened hb
    rw [hpre, ← List.append_assoc, opened_append_cons,
      opened_of_notMem (sep_notMem_opened b)] at hclean
    exact hclean
  · obtain ⟨zs, hzs⟩ := hsuf
    rw [streamFrames, closed]
    cases hb : (b.splitOn flag).drop 1 with
    | nil => rfl
    | cons p ps =>
        rw [← hzs, hb, List.dropLast_append_of_ne_nil (List.cons_ne_nil p ps),
          framesOf_append] at hno
        exact (List.append_eq_nil_iff.1 hno).2

/-- Some octets of the answer with one frame were read. -/
theorem whole_rest {lost : ℕ → Bool} {noise : ℕ → Bytes} (hn : ∀ k, Garbled (noise k)) {r : Rx}
    (hr : r.payload.length ≤ 251) {k : ℕ} {a b : Bytes} (h : a ++ b = answer lost noise k [r])
    (ha : a ≠ []) : Whole b ∧ streamFrames b = [] := by
  obtain ⟨x, a', rfl⟩ := List.exists_cons_of_ne_nil ha
  rw [answer, answer, List.append_nil] at h
  split_ifs at h
  · rcases hn k with ⟨hnil, -⟩ | ⟨m, hm, hno, hopen, hroom⟩
    · rw [hnil] at h
      cases h
    rw [hm] at h
    have hm' : a' ++ b = m := (List.cons.inj h).2
    subst hm'
    refine whole_of_suffix hroom ?_ hopen
    cases hp : (a' ++ b).splitOn flag with
    | nil => rfl
    | cons p ps =>
        rw [hp] at hno
        cases ps with
        | nil => rfl
        | cons q qs =>
            rw [List.dropLast_cons_of_ne_nil (List.cons_ne_nil q qs), ← List.singleton_append,
              framesOf_append] at hno
            exact (List.append_eq_nil_iff.1 hno).2
  · rcases chunk_buildFrame hr with ⟨hnil, -⟩ | ⟨m, hm, -, hopen, hroom⟩
    · rw [hnil] at h
      cases h
    rw [hm] at h
    have hm' : a' ++ b = m := (List.cons.inj h).2
    subst hm'
    have hbody : stuffed r.toFrame ++ [flag] = a' ++ b :=
      (List.cons.inj ((buildFrame_eq _).symm.trans hm)).2
    refine whole_of_suffix hroom ?_ hopen
    have hno : flag ∉ stuffed r.toFrame := flag_notMem_stuff _
    rw [← hbody, List.splitOn_append_cons_self_of_not_mem hno]
    rfl

/-! ## `_xfer` -/

section

variable {W : Type} [OneShot.Port W] {T : W → Bytes → W → Prop} {s t : St W}

/-- The loop has collected `buf` since the state was `s`. -/
def Collected (T : W → Bytes → W → Prop) (s : St W) (buf : Bytes) (t : St W) : Prop :=
  t.deframer = s.deframer ∧ T s.world buf t.world

/-- However the loop ends, it has collected something. -/
def Collecting (T : W → Bytes → W → Prop) (s t : St W) : Prop := ∃ buf, Collected T s buf t

/-- The port has given some octets, which are collected. -/
theorem Collected.world (hT : Gives T) {buf c : Bytes} {w : W} (h : Collected T s buf t)
    (hw : T t.world c w) : Collected T s (buf ++ c) { t with world := w } :=
  ⟨h.1, hT.trans h.2 hw⟩

/-- The world has moved on, and nothing was read. -/
theorem Collected.idle (hT : Gives T) {buf : Bytes} {w : W} (h : Collected T s buf t)
    (hw : T t.world [] w) : Collected T s buf { t with world := w } :=
  List.append_nil buf ▸ h.world hT hw

/-- One turn of the loop. -/
theorem wp_turn_collected (hT : Gives T) {deadline : Time} {buf : Bytes} (h : Collected T s buf t) :
    wp (OneShot.turn deadline buf) (Step.post (Collected T s) (Collected T s))
      (fun _ => Collecting T s) (Collecting T s) t := by
  unfold OneShot.turn
  rw [wp_bind, Pump.wp_monotonic]
  have h := h.idle hT (hT.monotonic t.world)
  rw [wp_ite]
  refine ⟨fun _ => ?_, fun _ => h⟩
  rw [wp_bind, port, wp_zoom]
  refine (hT.read _ _).mono (fun chunk w hw => ?_) (fun _ w hw => ⟨_, h.idle hT hw⟩)
    fun w hw => ⟨_, h.idle hT hw⟩
  have h := h.world hT hw
  rw [wp_ite]
  refine ⟨fun _ => ?_, fun hc => ?_⟩
  · rw [wp_ite]
    refine ⟨fun _ => ?_, fun _ => h⟩
    rw [wp_bind, port, wp_zoom]
    refine (hT.inWaiting _).mono (fun waiting w' hw' => ?_) (fun _ w' hw' => ⟨_, h.idle hT hw'⟩)
      fun w' hw' => ⟨_, h.idle hT hw'⟩
    rw [wp_ite]
    exact ⟨fun _ => h.idle hT hw', fun _ => h.idle hT hw'⟩
  · rw [not_not.1 hc, List.append_nil] at h
    exact h

/-- The loop of `_xfer`. -/
theorem wp_turns_collected (hT : Gives T) (deadline : Time) (fuel : ℕ) (s : St W) :
    wp (loop (OneShot.turn deadline) fuel []) (Collected T s) (fun _ => Collecting T s)
      (Collecting T s) s :=
  wp_loop (fun buf t => Collected T s buf t) (fun buf _ h => ⟨buf, h⟩)
    (fun _ _ h => wp_turn_collected hT h) fuel [] s ⟨rfl, hT.refl _⟩

end

/-- The port as `_xfer` sees it behind its command: what had come in before is thrown away. -/
def FakeSerial.asked (w : FakeSerial) (f : Frame) : FakeSerial :=
  { w with rx := [] }.write (buildFrame f)

/-- `_xfer` collects what comes behind its command, and leaves the rest to a new deframer. -/
theorem wp_xfer_drained (f : Frame) (timeout : Time) (s : Bus) :
    wp (Line.xfer f timeout : Prog Bus String Bytes)
      (fun raw t => t.deframer = {} ∧ Drained (s.world.asked f) raw t.world)
      (fun _ t => ∃ c, Drained (s.world.asked f) c t.world)
      (fun t => ∃ c, Drained (s.world.asked f) c t.world) s := by
  have hgo : ∀ t : Bus, t.deframer = {} → t.world = s.world.asked f →
      wp (do
        let start ← Pump.monotonic
        loop (OneShot.turn (start + timeout)) s.world.fuel [] : PumpProg FakeSerial Bytes)
        (fun raw t => t.deframer = {} ∧ Drained (s.world.asked f) raw t.world)
        (fun _ t => ∃ c, Drained (s.world.asked f) c t.world)
        (fun t => ∃ c, Drained (s.world.asked f) c t.world) t := by
    intro t hdef hworld
    rw [wp_bind, Pump.wp_monotonic]
    have htick : Drained (s.world.asked f) [] (Serial.monotonic t.world).2 :=
      hworld ▸ gives_drained.monotonic _
    have hloop := wp_turns_collected gives_drained ((Serial.monotonic t.world).1 + timeout)
      s.world.fuel { t with world := (Serial.monotonic t.world).2 }
    refine hloop.mono (fun raw u hu => ?_) (fun _ u hu => ?_) fun u hu => ?_
    · exact ⟨hu.1.trans hdef, gives_drained.trans htick hu.2⟩
    · obtain ⟨c, hc⟩ := hu
      exact ⟨c, gives_drained.trans htick hc.2⟩
    · obtain ⟨c, hc⟩ := hu
      exact ⟨c, gives_drained.trans htick hc.2⟩
  exact hgo _ rfl rfl

/-! ## `connect` -/

/-- The secondary at `addr` is on the bus, and its end of the bus is in order. -/
structure Cabled (addr : Byte) (s : Bus) : Prop where
  station : s.world.sec.addr = addr
  noise : ∀ k, Garbled (s.world.noise k)
  listens : Listens s.world.deframer

/-- The secondary after SNRM. -/
def FakeSecondary.restarted (s : FakeSecondary) : FakeSecondary :=
  { s with connected := true, vs := 0, vr := 0, pending := none }

theorem FakeSecondary.hear_snrm (s : FakeSecondary) : s.hear (snrmFrame s.addr) =
    ([{ addr := s.addr, ctrl := ctrlUa ||| pf, payload := [] }], s.restarted) := by
  have hk : kind (ctrlSnrm ||| pf) = .uFrame := rfl
  have hc : (ctrlSnrm ||| pf) &&& ~~~pf = ctrlSnrm := rfl
  simp [hear, snrmFrame, hk, hc, restarted]

/-- No message is acted on when SNRM comes. -/
theorem FakeSecondary.takes_snrm (s : FakeSecondary) (addr : Byte) :
    s.takes (snrmFrame addr) = false := by
  have hk : kind (ctrlSnrm ||| pf) ≠ .iFrame := by decide
  simp [takes, snrmFrame, hk]

/-- SNRM is lost, or the secondary restarts and answers.  Either way no message is acted on, and
what was on its way before is gone. -/
theorem Cabled.asked {addr : Byte} {s : Bus} (h : Cabled addr s) :
    (s.world.asked (snrmFrame addr)).executed = s.world.executed ∧
      (s.world.asked (snrmFrame addr)).noise = s.world.noise ∧
      Listens (s.world.asked (snrmFrame addr)).deframer ∧
      ((s.world.asked (snrmFrame addr)).rx = [] ∨
        (s.world.asked (snrmFrame addr)).sec = s.world.sec.restarted ∧
          (s.world.asked (snrmFrame addr)).rx = answer s.world.lost s.world.noise
            (s.world.frames + 1) [{ addr := addr, ctrl := ctrlUa ||| pf, payload := [] }]) := by
  obtain ⟨d, hd, hwrite⟩ := FakeSerial.write_buildFrame (w := { s.world with rx := [] }) h.listens
    (f := snrmFrame addr) (Nat.zero_le _)
  unfold FakeSerial.asked
  rw [hwrite]
  split_ifs
  · exact ⟨rfl, rfl, hd, Or.inl rfl⟩
  · have hhear := s.world.sec.hear_snrm
    rw [h.station] at hhear
    have htakes := s.world.sec.takes_snrm addr
    refine ⟨?_, rfl, hd, Or.inr ⟨?_, ?_⟩⟩
    · simp [FakeSerial.respond, htakes]
    · simp [FakeSerial.respond, hhear]
    · simp [FakeSerial.respond, hhear]

/-- What `connect` leaves when it returns. -/
structure Restarted (addr : Byte) (s t : Bus) : Prop where
  inOrder : InOrder t
  sec : t.world.sec = s.world.sec.restarted
  nothing : onTheWay t = []
  executed : t.world.executed = s.world.executed

/-- Some octets of an answer to SNRM were read. -/
theorem Cabled.restarted {addr : Byte} {s t : Bus} {raw : Bytes} (h : Cabled addr s)
    (hdef : t.deframer = {}) (hd : Drained (s.world.asked (snrmFrame addr)) raw t.world)
    (hraw : raw ≠ []) : Restarted addr s t := by
  obtain ⟨hex, hnoise, hlistens, hrx⟩ := h.asked
  rcases hrx with hnil | ⟨hsec, hrx⟩
  · have := hd.rx
    rw [hnil] at this
    exact absurd (List.append_eq_nil_iff.1 this).1 hraw
  have hfed : Deframer.Fed {} [] t.deframer := by
    rw [hdef]
    exact Deframer.fed_nil rfl
  obtain ⟨hwhole, hframes⟩ := whole_rest h.noise (by exact Nat.zero_le _) (hd.rx.trans hrx) hraw
  refine ⟨⟨⟨[], hfed, hwhole⟩, ?_, ?_⟩, hd.sec.trans hsec, ?_, hd.executed.trans hex⟩
  · rw [hd.noise, hnoise]
    exact h.noise
  · rw [hd.deframer]
    exact hlistens
  · exact (onTheWay_spec hfed hwhole).trans hframes

variable {υ : Type}

/-- **After `connect`** both ends are at zero and nothing is on its way; however it ends, no
message was acted on. -/
theorem wp_connect_cabled {addr : Byte} {t : LinkSt Bus υ} (h : Cabled addr t.world) :
    wp (connect addr)
      (fun _ u => Restarted addr t.world u.world ∧ (u.link.peers addr).vs = 0 ∧
        (u.link.peers addr).vr = 0 ∧ u.user = t.user)
      (fun _ u => u.world.world.executed = t.world.world.executed ∧ u.user = t.user)
      (fun u => u.world.world.executed = t.world.world.executed ∧ u.user = t.user) t := by
  obtain ⟨hex, -⟩ := h.asked
  unfold connect command xfer
  rw [wp_bind, wp_bind, wp_bind, wp_read, wp_bind, wp_portOp]
  refine (wp_xfer_drained (snrmFrame addr) _ t.world).mono (fun raw w hw => ?_) (fun _ w hw => ?_)
    fun w hw => ?_
  · rw [wp_bind, wp_logEvent, wp_pure, wp_ofExcept]
    have hkept : w.world.executed = t.world.world.executed := hw.2.executed.trans hex
    cases hparse : parseFrames raw with
    | error e => exact ⟨hkept, rfl⟩
    | ok frames =>
        dsimp only
        rw [wp_ite]
        refine ⟨fun hua => ?_, fun _ => ⟨hkept, rfl⟩⟩
        have hraw : raw ≠ [] := by
          rintro rfl
          cases hparse
          cases hua
        exact ⟨h.restarted hw.1 hw.2 hraw, by simp [PeerState.reset], by simp [PeerState.reset], rfl⟩
  · obtain ⟨c, hc⟩ := hw
    exact ⟨hc.executed.trans hex, rfl⟩
  · obtain ⟨c, hc⟩ := hw
    exact ⟨hc.executed.trans hex, rfl⟩

end OpenAisg.Link
