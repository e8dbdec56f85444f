import Mathlib.Data.List.Induction
import OpenAisg.Hdlc.Deframer
import OpenAisg.Lib.Prog

/-!
# Reading whole frames (`AisgLink._read_frames`)

The pump reads what the port has, feeds it to the deframer and decides whether to go on
listening.  `Line.readFrames` stands for it in the methods above.

* `Serial` — the port as the pump uses it; nothing is assumed of it.
* `pass`, `readFrames` — one turn of the `while True`, and the whole method.
* `leave` — its four exits, in the order in which the code tests them.
* `Read` — the log of what each read brought, with the clock reading after it.
* `Quiet` — nothing is half-way through arriving, or the line was silent for `idleGap`.
* `Listening` — the invariant of the loop: what its variables say of the reads so far.
* `readFrames_quiet` — the condition under which the pump returns in a quiet moment.

The exit for frames comes before the test for a frame half-way in, so a chunk that completes
one frame and begins another is where the condition bites; `frameAndMore` is such a chunk.
-/

namespace OpenAisg.Pump

open Hdlc Prog

/-- The port and the clock. -/
class Serial (W : Type) where
  /-- `time.monotonic()`. -/
  monotonic : W → Time × W
  /-- `ser.in_waiting`. -/
  inWaiting : Prog W String ℕ
  /-- `ser.read(n)`: no octets when its timeout passes without any. -/
  read : ℕ → Prog W String Bytes

/-- What a read brought, and the reading of the clock after it. -/
structure Read where
  chunk : Bytes
  now : Time
  deriving DecidableEq, Repr

/-- The world, the link's deframer, and the log, which no code reads. -/
structure St (W : Type) where
  world : W
  deframer : Deframer
  log : List Read := []

/-- The local variables that change while the pump runs. -/
structure Locals where
  frames : List Frame := []
  lastRx : Time := 0

variable {W : Type}

/-- A part of the pump. -/
abbrev PumpProg (W α : Type) := Prog (St W) String α

/-- An operation of the port. -/
def port {α : Type} (c : Prog W String α) : PumpProg W α :=
  zoom (·.world) (fun s w => { s with world := w }) c

/-- `time.monotonic`. -/
def monotonic [Serial W] : PumpProg W Time := fun s =>
  (.ret (Serial.monotonic s.world).1, { s with world := (Serial.monotonic s.world).2 })

/-- `self._deframer.feed(chunk)`. -/
def feed (chunk : Bytes) : PumpProg W (List Frame) := fun s =>
  (.ret (s.deframer.feed chunk).1, { s with deframer := (s.deframer.feed chunk).2 })

/-- Record a read. -/
def logRead (r : Read) : PumpProg W Unit := modify fun s => { s with log := s.log ++ [r] }

/-- `if chunk: …`. -/
def take (x : Locals) (chunk : Bytes) (now : Time) : PumpProg W Locals :=
  if chunk ≠ [] then do
    let fs ← feed chunk
    pure { frames := x.frames ++ fs, lastRx := now }
  else pure x

/-- The exits, in their order: frames, the hard end, the middle of a frame, the budget.  Only the
third lets the pump go on where the budget has run out. -/
def leave (stop hardEnd idleGap : Time) (x : Locals) (now : Time) :
    PumpProg W (Step (List Frame) Locals) :=
  if x.frames ≠ [] then pure (.done x.frames)
  else if hardEnd ≤ now then pure (.done x.frames)
  else do
    let mid ← Prog.read (·.deframer.isPartial)
    if mid ∧ now - x.lastRx < idleGap then pure (.next x)
    else if stop ≤ now then pure (.done x.frames)
    else pure (.next x)

variable [Serial W]

/-- One turn of the `while True`. -/
def pass (stop hardEnd idleGap : Time) (x : Locals) : PumpProg W (Step (List Frame) Locals) := do
  let waiting ← port Serial.inWaiting
  let chunk ← port (Serial.read (if waiting ≠ 0 then waiting else 1))
  let now ← monotonic
  logRead ⟨chunk, now⟩
  let x' ← take x chunk now
  leave stop hardEnd idleGap x' now

/-- `_read_frames`; `fuel` bounds the turns of its `while True`. -/
def readFrames (fuel : ℕ) (budget : Time) (idleGap : Time := ms 50) (hardCap : Time := ms 3000) :
    PumpProg W (List Frame) := do
  let start ← monotonic
  loop (pass (start + budget) (start + max budget hardCap) idleGap) fuel {}

section Wp

variable {E : String → St W → Prop} {S : St W → Prop} {s : St W}

@[simp] theorem wp_monotonic {Q : Time → St W → Prop} :
    wp monotonic Q E S s ↔
      Q (Serial.monotonic s.world).1 { s with world := (Serial.monotonic s.world).2 } := Iff.rfl

omit [Serial W] in
@[simp] theorem wp_feed {chunk : Bytes} {Q : List Frame → St W → Prop} :
    wp (feed chunk) Q E S s ↔
      Q (s.deframer.feed chunk).1 { s with deframer := (s.deframer.feed chunk).2 } := Iff.rfl

omit [Serial W] in
@[simp] theorem wp_logRead {r : Read} {Q : Unit → St W → Prop} :
    wp (logRead r) Q E S s ↔ Q () { s with log := s.log ++ [r] } := Iff.rfl

end Wp

/-! ## When the last octet arrived -/

/-- The reading after the last read that brought an octet; `before` if none did. -/
def lastHeard (before : Time) (L : List Read) : Time :=
  L.foldl (fun t r => if r.chunk = [] then t else r.now) before

/-- One read more. -/
theorem lastHeard_concat (before : Time) (L : List Read) (r : Read) :
    lastHeard before (L ++ [r]) = if r.chunk = [] then lastHeard before L else r.now := by
  simp [lastHeard]

/-- No octet came. -/
def Silent (L : List Read) : Prop := ∀ r ∈ L, r.chunk = []

theorem silent_concat (L : List Read) (r : Read) :
    Silent (L ++ [r]) ↔ Silent L ∧ r.chunk = [] := by
  simp [Silent, or_imp, forall_and]

/-- On a silent line the last octet came before the call. -/
theorem lastHeard_of_silent {L : List Read} (h : Silent L) (before : Time) :
    lastHeard before L = before := by
  induction L using List.reverseRecOn with
  | nil => rfl
  | append_singleton L r ih =>
      rw [silent_concat] at h
      rw [lastHeard_concat, if_pos h.2, ih h.1]

/-- Nothing is half-way through arriving at `now`, or the line was silent for `idleGap`. -/
def Quiet (idleGap before now : Time) (L : List Read) (d : Deframer) : Prop :=
  d.isPartial = false ∨ idleGap ≤ now - lastHeard before L

/-- Where a first octet came, the time before it does not matter. -/
theorem lastHeard_congr {L : List Read} (h : ¬ Silent L) (a b : Time) :
    lastHeard a L = lastHeard b L := by
  induction L using List.reverseRecOn with
  | nil => exact absurd (fun r hr => absurd hr List.not_mem_nil) h
  | append_singleton L r ih =>
      rw [lastHeard_concat, lastHeard_concat]
      by_cases hr : r.chunk = []
      · rw [if_pos hr, if_pos hr]
        exact ih fun hs => h ((silent_concat L r).2 ⟨hs, hr⟩)
      · rw [if_neg hr, if_neg hr]

/-! ## One turn -/

/-- What the reads `L` of a call, which began with the deframer `d₀`, say of its variables. -/
structure Listening (d₀ : Deframer) (L : List Read) (x : Locals) (d : Deframer) : Prop where
  silent : Silent L → d = d₀
  heard : ¬ Silent L → x.lastRx = lastHeard 0 L

/-- The call that began in `s` goes on. -/
def Since (s : St W) (x : Locals) (t : St W) : Prop :=
  ∃ L, t.log = s.log ++ L ∧ x.frames = [] ∧ Listening s.deframer L x t.deframer

/-- The conditions under which a call that returns `fs`, with `r` the last of its reads
`L`, leaves the line quiet. -/
def InTime (idleGap before : Time) (fs : List Frame) (L : List Read) (r : Read)
    (d₀ : Deframer) : Prop :=
  (fs ≠ [] → r.chunk.getLastD flag = flag ∨ idleGap ≤ 0) ∧
    (Silent L → d₀.isPartial = true → idleGap ≤ r.now - before)

/-- What is known of a call that began in `s` and returned `fs`. -/
def Returned (s : St W) (stop hardEnd idleGap before : Time) (fs : List Frame) (t : St W) : Prop :=
  ∃ L r, t.log = s.log ++ (L ++ [r]) ∧ (r.now < hardEnd →
    (Silent (L ++ [r]) → stop ≤ r.now) ∧ (Quiet idleGap before r.now (L ++ [r]) t.deframer ↔
      InTime idleGap before fs (L ++ [r]) r s.deframer))

/-- A chunk that completes a frame: what is left over shows in its last octet. -/
theorem quiet_of_frames {idleGap before : Time} {fs : List Frame} {L : List Read} {r : Read}
    {d d₀ : Deframer} (hr : r.chunk ≠ []) (hfs : fs ≠ []) :
    Quiet idleGap before r.now (L ++ [r]) (d.feed r.chunk).2 ↔
      InTime idleGap before fs (L ++ [r]) r d₀ := by
  have hnot : ¬ Silent (L ++ [r]) := fun h => hr ((silent_concat L r).1 h).2
  have hpart : (d.feed r.chunk).2.isPartial = false ↔ r.chunk.getLastD flag = flag := by
    rw [← Bool.not_eq_true, Deframer.feed_isPartial d hr, not_not]
  rw [Quiet, lastHeard_concat, if_neg hr, Int.sub_self, hpart]
  exact ⟨fun h => ⟨fun _ => h, fun hs => absurd hs hnot⟩, fun h => h.1 hfs⟩

/-- A budget that has run out, and no frame in the middle of arriving. -/
theorem quiet_of_budget {idleGap before : Time} {L : List Read} {r : Read} {x : Locals}
    {d d₀ : Deframer} (h : Listening d₀ L x d)
    (hmid : ¬ (d.isPartial = true ∧ r.now - x.lastRx < idleGap)) :
    Quiet idleGap before r.now L d ↔ InTime idleGap before [] L r d₀ := by
  by_cases hs : Silent L
  · rw [Quiet, lastHeard_of_silent hs, h.silent hs]
    refine ⟨fun hq => ⟨fun hn => absurd rfl hn, fun _ hp => ?_⟩, fun hi => ?_⟩
    · rcases hq with hq | hq
      · rw [hp] at hq
        cases hq
      · exact hq
    · by_cases hp : d₀.isPartial = true
      · exact Or.inr (hi.2 hs hp)
      · exact Or.inl (by simpa using hp)
  · refine iff_of_true ?_ ⟨fun hn => absurd rfl hn, fun hs' => absurd hs' hs⟩
    rw [h.heard hs, lastHeard_congr hs 0 before] at hmid
    by_cases hp : d.isPartial = true
    · refine Or.inr ?_
      by_contra hlt
      exact hmid ⟨hp, Int.not_le.1 hlt⟩
    · exact Or.inl (by simpa using hp)

omit [Serial W] in
/-- The exits, after the read `r`.  Each of the four either returns in a moment of which `InTime`
tells whether it is quiet, or goes on listening. -/
theorem wp_leave {s t : St W} {stop hardEnd idleGap before : Time} {L : List Read} {r : Read}
    {x : Locals} (hL : t.log = s.log ++ (L ++ [r]))
    (h : Listening s.deframer (L ++ [r]) x t.deframer)
    (hfs : x.frames ≠ [] → r.chunk ≠ [] ∧ ∃ d : Deframer, t.deframer = (d.feed r.chunk).2) :
    wp (leave stop hardEnd idleGap x r.now)
      (Step.post (Returned s stop hardEnd idleGap before) (Since s)) (fun _ _ => True)
      (fun _ => True) t := by
  unfold leave
  rw [wp_ite]
  refine ⟨fun hne => ?_, fun hnil => ?_⟩
  · obtain ⟨hr, d, hd⟩ := hfs hne
    refine ⟨L, r, hL, fun _ => ⟨fun hs => absurd ((silent_concat _ _).1 hs).2 hr, ?_⟩⟩
    rw [hd]
    exact quiet_of_frames hr hne
  have hnil : x.frames = [] := not_not.1 hnil
  rw [wp_ite]
  refine ⟨fun hend => ⟨L, r, hL, fun hlt => absurd hend (Int.not_le.2 hlt)⟩, fun _ => ?_⟩
  rw [wp_bind, wp_read, wp_ite]
  refine ⟨fun _ => ⟨_, hL, hnil, h⟩, fun hmid => ?_⟩
  rw [wp_ite]
  refine ⟨fun hstop => ⟨L, r, hL, fun _ => ⟨fun _ => hstop, ?_⟩⟩, fun _ => ⟨_, hL, hnil, h⟩⟩
  rw [hnil]
  exact quiet_of_budget h hmid

/-- One turn of the `while True`. -/
theorem wp_pass {s t : St W} {stop hardEnd idleGap before : Time} {x : Locals}
    (h : Since s x t) :
    wp (pass stop hardEnd idleGap x)
      (Step.post (Returned s stop hardEnd idleGap before) (Since s)) (fun _ _ => True)
      (fun _ => True) t := by
  obtain ⟨L, hL, hnil, hx⟩ := h
  unfold pass
  rw [wp_bind, port, wp_zoom]
  refine wp_any (fun waiting w => ?_) (fun _ _ => trivial) (fun _ => trivial) _
  rw [wp_bind, port, wp_zoom]
  refine wp_any (fun chunk w' => ?_) (fun _ _ => trivial) (fun _ => trivial) _
  simp only [wp_bind, wp_monotonic, wp_logRead]
  have hlog : t.log ++ [⟨chunk, (Serial.monotonic w').1⟩] =
      s.log ++ (L ++ [⟨chunk, (Serial.monotonic w').1⟩]) := by rw [hL, List.append_assoc]
  unfold take
  rw [wp_ite]
  refine ⟨fun hc => ?_, fun hc => ?_⟩
  · -- its octets go to the deframer
    simp only [wp_bind, wp_feed, wp_pure]
    refine wp_leave (r := ⟨chunk, (Serial.monotonic w').1⟩) hlog ⟨fun hs => ?_, fun _ => ?_⟩
      fun _ => ⟨hc, t.deframer, rfl⟩
    · exact absurd ((silent_concat _ _).1 hs).2 hc
    · rw [lastHeard_concat, if_neg hc]
  · have hc : chunk = [] := not_not.1 hc
    rw [wp_pure]
    refine wp_leave (r := ⟨chunk, (Serial.monotonic w').1⟩) hlog ⟨fun hs => ?_, fun hs => ?_⟩
      fun hne => absurd hnil hne
    · exact hx.silent ((silent_concat _ _).1 hs).1
    · rw [lastHeard_concat, if_pos hc]
      exact hx.heard fun hs' => hs ((silent_concat _ _).2 ⟨hs', hc⟩)

/-! ## The whole method -/

/-- **The pump is quiet** when it returns before its hard end, whatever the port and the
clock do, exactly when no frame was completed by a chunk that goes on behind it, and, if
it heard nothing and a frame was half-way through arriving before, that was long ago. -/
theorem readFrames_quiet (fuel : ℕ) (budget idleGap hardCap before : Time) {s t : St W}
    {fs : List Frame} (h : readFrames fuel budget idleGap hardCap s = (.ret fs, t)) :
    Returned s ((Serial.monotonic s.world).1 + budget)
      ((Serial.monotonic s.world).1 + max budget hardCap) idleGap before fs t := by
  have hwp : wp (readFrames fuel budget idleGap hardCap)
      (Returned s ((Serial.monotonic s.world).1 + budget)
        ((Serial.monotonic s.world).1 + max budget hardCap) idleGap before)
      (fun _ _ => True) (fun _ => True) s := by
    unfold readFrames
    rw [wp_bind, wp_monotonic]
    refine wp_loop (Since s) (fun _ _ _ => trivial) (fun x t hx => wp_pass hx) fuel _ _ ?_
    refine ⟨[], (List.append_nil _).symm, rfl, fun _ => rfl, fun hs => ?_⟩
    exact absurd (fun r hr => absurd hr List.not_mem_nil) hs
  exact (wp_iff.1 hwp).1 fs t h

omit [Serial W] in
/-- A call whose budget is no shorter than `idleGap`, after everything heard `before` it:
only a chunk that goes on behind a frame can leave the line unquiet. -/
theorem Returned.quiet_iff {s t : St W} {start budget hardEnd idleGap before : Time}
    {fs : List Frame} (h : Returned s (start + budget) hardEnd idleGap before fs t)
    (hgap : idleGap ≤ budget) (hbefore : before ≤ start) :
    ∃ L r, t.log = s.log ++ (L ++ [r]) ∧ (r.now < hardEnd →
      (Quiet idleGap before r.now (L ++ [r]) t.deframer ↔
        (fs ≠ [] → r.chunk.getLastD flag = flag ∨ idleGap ≤ 0))) := by
  obtain ⟨L, r, hL, hr⟩ := h
  refine ⟨L, r, hL, fun hlt => ?_⟩
  obtain ⟨hstop, hquiet⟩ := hr hlt
  refine hquiet.trans ⟨fun hi => hi.1, fun hi => ⟨hi, fun hs _ => ?_⟩⟩
  have hsum : idleGap + before ≤ start + budget := by
    rw [Int.add_comm start]
    exact Int.add_le_add hgap hbefore
  exact Int.le_sub_right_of_add_le (Int.le_trans hsum (hstop hs))

/-- A port that hands out chunks laid down beforehand, a millisecond apart. -/
structure Tape where
  chunks : List Bytes
  now : Time := 0

instance : Serial Tape where
  monotonic w := (w.now, { w with now := w.now + ms 1 })
  inWaiting := fun w => (.ret (w.chunks.headD []).length, w)
  read _ := fun w => (.ret (w.chunks.headD []), { w with chunks := w.chunks.drop 1 })

/-- An RR from address 1, with the first octets of the next frame in the same read. -/
def frameAndMore : St Tape where
  world := { chunks := [[0x7E, 0x01], [0x31, 0x95, 0x36, 0x7E, 0x01, 0x30]] }
  deframer := {}

/-- **A frame with another behind it.**  The RR is returned while the next frame is
arriving. -/
theorem frameAndMore_not_quiet :
    let r := readFrames 5 (ms 50) (ms 50) (ms 3000) frameAndMore
    r.1 = .ret [⟨0x01, 0x31, []⟩] ∧ (r.2.log.getLastD ⟨[], 0⟩).now < ms 3000 ∧
      ¬ Quiet (ms 50) 0 (r.2.log.getLastD ⟨[], 0⟩).now r.2.log r.2.deframer := by
  refine ⟨by decide +kernel, by decide +kernel, ?_⟩
  unfold Quiet
  decide +kernel

/-- The same reads, and what they leave behind. -/
theorem frameAndMore_returned :
    Returned frameAndMore (ms 50) (ms 3000) (ms 50) 0 [⟨0x01, 0x31, []⟩]
      (readFrames 5 (ms 50) (ms 50) (ms 3000) frameAndMore).2 :=
  readFrames_quiet 5 (ms 50) (ms 50) (ms 3000) 0 (Prod.ext_iff.2 ⟨by decide +kernel, rfl⟩)

end OpenAisg.Pump
