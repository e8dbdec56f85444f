import Mathlib.Tactic.Ring
import OpenAisg.Link.Exchange

/-!
# The deadline of a call

`exchange` gives up at the first look at its deadline that comes too late.  Each
indication moves the deadline on by four poll intervals, but no further than a whole
`timeout` from the present moment.  The cap is counted from the present and not from the
start, so a device that keeps reporting keeps the call alive.

* `SteadyClock` — the readings of the clock never decrease.  Nothing else is assumed.
* `toCheck` — a call up to the look at the deadline in one of its passes.
* `Bounded` — no deadline is later than the start and `B`, so the call ends there.
* `bounded_iff` — there is a `B` exactly if the poll interval is not positive.
* `chatter_never_ends` — a device that reports at each poll keeps a call going.

For the one direction every step keeps `By`, a bound on the deadline.  For the other,
`Burst` hands out any number of indications in one read, and so moves the deadline past
any bound that is proposed.
-/

namespace OpenAisg.Link

open Hdlc Prog

variable {W υ : Type} [Line W]

/-- A clock that never goes back: the present moment of a world, which every reading
comes to and nothing decreases. -/
structure SteadyClock (W : Type) [Line W] where
  now : W → Time
  monotonic : ∀ w, now w ≤ (Line.monotonic w).1 ∧ (Line.monotonic w).1 ≤ now (Line.monotonic w).2
  sleep : ∀ d w, now w ≤ now (Line.sleep d w)
  readFrames : ∀ d, Moves (fun w v => now w ≤ now v) (Line.readFrames d : Prog W String (List Rx))
  write : ∀ f, Moves (fun w v => now w ≤ now v) (Line.write f : Prog W String Unit)

/-- A call up to the look at the deadline in pass `n`, with the time of its start. -/
def toCheck (n : ℕ) (q : Call υ) : LinkProg W υ (Time × Step Bytes Flight) := do
  let p ← peer q.addr
  write (commandFrame q p)
  let now ← monotonic
  let r ← iterate (pass q (commandFrame q p) p.vs) n
    { deadline := now + q.timeout, retxAt := now + ms 1000 }
  match r with
  | .done payload => pure (now, .done payload)
  | .next x => do
      let frames ← readFrames q.pollInterval
      let r ← scan (onFrame q (commandFrame q p) p.vs) x frames
      pure (now, r)

/-- The command is to be sent again, and the deadline is not looked at. -/
def Flight.Resends (x : Flight) (now : Time) : Prop :=
  x.acked = false ∧ x.missing = true ∧ x.retxAt < now ∧ x.retxLeft ≠ 0

/-- No deadline of a call is later than its start and `bound`, and the call ends with the
first look at the deadline that is. -/
def Bounded (timeout pollInterval bound : Time) : Prop :=
  ∀ (W υ : Type) [Line W] (_ : SteadyClock W) (q : Call υ) (s t : LinkSt W υ) (n : ℕ)
    (start : Time) (x : Flight), q.timeout = timeout → q.pollInterval = pollInterval →
    toCheck n q s = (.ret (start, .next x), t) →
    x.deadline ≤ start + bound ∧
      (start + bound < (Line.monotonic t.world).1 → ¬ x.Resends (Line.monotonic t.world).1 →
        ∃ u, exchange (n + 1) q s =
          (.raise (.aisgTimeout q.addr (s.link.peers q.addr).vs x.acked x.polls), u))

/-! ## A call goes on from the look at its deadline -/

/-- What a call of `n + 1` passes does after the look at the deadline in the last one. -/
theorem exchange_check {n : ℕ} {q : Call υ} {s t : LinkSt W υ} {start : Time} {x : Flight}
    (h : toCheck n q s = (.ret (start, .next x), t)) :
    exchange (n + 1) q s =
      match passEnd q (commandFrame q (s.link.peers q.addr)) (s.link.peers q.addr).vs x t with
      | (.ret (.done payload), u) => (.ret payload, u)
      | (.ret (.next _), u) => (.stall, u)
      | (.raise e, u) => (.raise e, u)
      | (.stall, u) => (.stall, u) := by
  rw [toCheck, bind_run, peer, read_run] at h
  -- the run up to the look at the deadline returned, so each of its parts did
  obtain ⟨_, t₀, hwrite, h⟩ := ret_of_bind h
  rw [bind_run, monotonic] at h
  obtain ⟨r, t₁, hpasses, h⟩ := ret_of_bind h
  cases r with
  | done payload => cases h
  | next x₁ =>
      obtain ⟨fs, t₂, hread, h⟩ := ret_of_bind h
      obtain ⟨r, t₃, hscan, h⟩ := ret_of_bind h
      cases h
      rw [exchange_run, hwrite]
      dsimp only
      rw [loop_add, bind_of_ret hpasses]
      dsimp only
      rw [loop_run, pass, bind_of_ret hread, bind_of_ret hscan]
      dsimp only
      rcases passEnd q (commandFrame q (s.link.peers q.addr)) (s.link.peers q.addr).vs x t
        with ⟨o, u⟩
      cases o with
      | ret r => cases r <;> rfl
      | raise e => rfl
      | stall => rfl

/-- Where the clock is past the deadline and nothing is sent again, the pass is the last. -/
theorem passEnd_late {q : Call υ} {frame : Frame} {ns : Seq} {x : Flight} {t : LinkSt W υ}
    (hlate : x.deadline < (Line.monotonic t.world).1) (hx : ¬ x.Resends (Line.monotonic t.world).1) :
    passEnd q frame ns x t = (.raise (.aisgTimeout q.addr ns x.acked x.polls),
      { t with world := (Line.monotonic t.world).2 }) := by
  have hno : ¬ ((!x.acked) = true ∧ x.missing = true ∧ x.retxAt < (Line.monotonic t.world).1 ∧
      x.retxLeft ≠ 0) := by
    rintro ⟨ha, h⟩
    exact hx ⟨by simpa using ha, h⟩
  rw [passEnd, bind_run, monotonic]
  dsimp only
  rw [if_neg hno, if_pos hlate]
  rfl

/-! ## A poll interval that is not positive -/

section Bound

variable {q : Call υ} {frame : Frame} {ns : Seq} {x : Flight} {d : Time} {s : LinkSt W υ}

/-- The deadline of a flight is at most `d`. -/
def By (d : Time) (x : Flight) (_ : LinkSt W υ) : Prop := x.deadline ≤ d

/-- An indication adds nothing, if four poll intervals are none. -/
theorem onIFrame_by (hp : q.pollInterval ≤ 0) (hx : x.deadline ≤ d) (f : Rx) :
    wp (onIFrame q ns x f) (Step.post (fun _ _ => True) (By d)) (fun _ _ => True)
      (fun _ => True) s := by
  unfold onIFrame
  rw [wp_bind, wp_peer, wp_ite]
  refine ⟨fun _ => ?_, fun _ => ?_⟩
  · rw [wp_bind, wp_bump, wp_bind]
    exact wp_any (fun _ _ => hx) (fun _ _ => trivial) (fun _ => trivial) _
  rw [wp_bind, wp_logEvent, wp_bind, wp_setPeer]
  cases q.router f.payload with
  | accept =>
      rw [wp_bind]
      refine wp_any (fun _ t => ?_) (fun _ _ => trivial) (fun _ => trivial) _
      rw [wp_bind]
      exact wp_any (fun _ _ => trivial) (fun _ _ => trivial) (fun _ => trivial) _
  | indication =>
      rw [wp_bind]
      refine wp_any (fun _ t => ?_) (fun _ _ => trivial) (fun _ => trivial) _
      rw [wp_bind, wp_callback, wp_bind, wp_monotonic, wp_pure]
      -- the deadline moves on by no more than nothing
      have hmove : ∀ a b c : ℤ, b ≤ 0 → a ≤ c → a + b * 4 ≤ c := by
        intro a b c hb hc
        omega
      exact Int.le_trans (Int.min_le_left _ _) (hmove _ _ _ hp hx)
  | unexpected =>
      rw [wp_bind]
      exact wp_any (fun _ _ => hx) (fun _ _ => trivial) (fun _ => trivial) _

/-- No frame of a batch moves the deadline past the bound. -/
theorem onFrame_by (hp : q.pollInterval ≤ 0) (hx : x.deadline ≤ d) (f : Rx) :
    wp (onFrame q frame ns x f) (Step.post (fun _ _ => True) (By d)) (fun _ _ => True)
      (fun _ => True) s := by
  unfold onFrame
  rw [wp_ite]
  refine ⟨fun _ => ?_, fun _ => ?_⟩
  · rw [wp_bind, wp_bump]
    exact hx
  rw [wp_bind, wp_logEvent, wp_ite]
  refine ⟨fun _ => ?_, fun _ => ?_⟩
  · unfold onUFrame
    rw [wp_ite]
    exact ⟨fun _ => trivial, fun _ => hx⟩
  rw [wp_bind]
  refine wp_any (fun acked t => ?_) (fun _ _ => trivial) (fun _ => trivial) _
  have hrej : ∀ y : Flight, y.deadline ≤ d →
      wp (if !y.acked ∧ y.retxLeft ≠ 0 then do
        bump fun st => { st with retx := st.retx + 1 }
        write frame
        pure (.next { y with retxLeft := y.retxLeft - 1 })
      else pure (.next y) : LinkProg W υ (Step Bytes Flight)) (Step.post (fun _ _ => True) (By d))
      (fun _ _ => True) (fun _ => True) t := by
    intro y hy
    rw [wp_ite]
    refine ⟨fun _ => ?_, fun _ => hy⟩
    rw [wp_bind, wp_bump, wp_bind]
    exact wp_any (fun _ _ => hy) (fun _ _ => trivial) (fun _ => trivial) _
  unfold onSequenced
  cases kind f.ctrl with
  | rr => exact hx
  | rnr => exact hx
  | rej => exact hrej _ hx
  | srej => exact hrej _ hx
  | iFrame =>
      refine onIFrame_by hp ?_ f
      exact hx
  | uFrame =>
      refine onIFrame_by hp ?_ f
      exact hx

/-- Nor does the end of a pass. -/
theorem passEnd_by (hx : x.deadline ≤ d) :
    wp (passEnd q frame ns x) (Step.post (fun _ _ => True) (By d)) (fun _ _ => True)
      (fun _ => True) s := by
  unfold passEnd
  rw [wp_bind, wp_monotonic, wp_ite, wp_ite]
  refine ⟨fun _ => ?_, fun _ => ⟨fun _ => trivial, fun _ => ?_⟩⟩
  · rw [wp_bind, wp_bump, wp_bind]
    exact wp_any (fun _ _ => hx) (fun _ _ => trivial) (fun _ => trivial) _
  · rw [wp_bind, wp_bump, wp_bind, wp_callback, wp_bind, wp_sleep, wp_bind, wp_peer, wp_bind]
    exact wp_any (fun _ _ => hx) (fun _ _ => trivial) (fun _ => trivial) _

/-- Nor does a whole pass. -/
theorem pass_by (hp : q.pollInterval ≤ 0) (hx : x.deadline ≤ d) :
    wp (pass q frame ns x) (Step.post (fun _ _ => True) (By d)) (fun _ _ => True)
      (fun _ => True) s := by
  unfold pass
  rw [wp_bind]
  refine wp_any (fun fs t => ?_) (fun _ _ => trivial) (fun _ => trivial) _
  rw [wp_bind]
  refine (wp_scan (fun _ => By d) (fun f _ y u hy => onFrame_by hp hy f) fs x t hx).mono
    (fun r u hr => ?_) (fun _ _ _ => trivial) fun _ _ => trivial
  cases r with
  | done payload => trivial
  | next y => exact passEnd_by hr

/-- No deadline of a call is later than its start and its timeout. -/
theorem toCheck_by (hp : q.pollInterval ≤ 0) (n : ℕ) :
    wp (toCheck n q) (fun r t => Step.post (fun _ _ => True) (By (r.1 + q.timeout)) r.2 t)
      (fun _ _ => True) (fun _ => True) s := by
  unfold toCheck
  rw [wp_bind, wp_peer, wp_bind]
  refine wp_any (fun _ t => ?_) (fun _ _ => trivial) (fun _ => trivial) _
  rw [wp_bind, wp_monotonic, wp_bind]
  refine (wp_iterate (By _) (fun y u hy => pass_by hp hy) n _ _ (Int.le_refl _)).mono
    (fun r u hr => ?_) (fun _ _ _ => trivial) fun _ _ => trivial
  cases r with
  | done payload => trivial
  | next y =>
      rw [wp_bind]
      refine wp_any (fun fs v => ?_) (fun _ _ => trivial) (fun _ => trivial) _
      rw [wp_bind]
      exact wp_scan (fun _ => By _) (fun f _ z w hz => onFrame_by hp hz f) fs y v hr

end Bound

/-- Without a positive poll interval the timeout is the bound. -/
theorem bounded_of_nonpos {timeout pollInterval : Time} (hp : pollInterval ≤ 0) :
    Bounded timeout pollInterval timeout := by
  intro W υ _ _ q s t n start x hT hP h
  subst hT hP
  have hx : x.deadline ≤ start + q.timeout := (wp_iff.1 (toCheck_by hp n)).1 _ _ h
  refine ⟨hx, fun hlate hres => ?_⟩
  rw [exchange_check h, passEnd_late (Int.lt_of_le_of_lt hx hlate) hres]
  exact ⟨_, rfl⟩

/-! ## A positive poll interval -/

/-- A world whose clock goes on by `gap` with each reading; the next read delivers all
there is. -/
structure Burst (gap : ℕ) where
  readings : ℕ := 0
  inbox : List Rx

instance (gap : ℕ) : Line (Burst gap) where
  monotonic b := ((gap : ℤ) * b.readings, { b with readings := b.readings + 1 })
  sleep _ b := b
  serialOpen b := (.ok (), b)
  setDtr := pure ()
  readFrames _ := fun b => (.ret b.inbox, { b with inbox := [] })
  write _ := pure ()
  xfer _ _ := pure []
  serialClose := pure ()

/-- Its clock never goes back. -/
def Burst.steady (gap : ℕ) : SteadyClock (Burst gap) where
  now b := (gap : ℤ) * b.readings
  monotonic b := by
    refine ⟨Int.le_refl _, ?_⟩
    change (gap : ℤ) * b.readings ≤ gap * (b.readings + 1 : ℕ)
    push_cast
    rw [Int.mul_add]
    omega
  sleep _ _ := Int.le_refl _
  readFrames _ _ := Int.le_refl _
  write _ _ := Int.le_refl _

/-- A call at address 1 to which every payload is an indication. -/
def reporting (timeout pollInterval : Time) : Call Unit :=
  { addr := 1, message := [], timeout := timeout, pollInterval := pollInterval
    router := fun _ => .indication }

/-- `n` indications in sequence from V(R) on. -/
def reports : Seq → ℕ → List Rx
  | _, 0 => []
  | vr, n + 1 => { addr := 1, ctrl := iCtrl vr 1 } :: reports (vr + 1) n

section Burst

variable {gap : ℕ} {timeout pollInterval : Time} {frame : Frame} {ns : Seq}

/-- One report of a burst: the deadline moves on by the gap, which is what one look at the clock
costs. -/
theorem onFrame_report (hgap : pollInterval * 4 = gap) {x : Flight} {s : LinkSt (Burst gap) Unit}
    (hx : x.deadline + gap = gap * (s.world.readings : ℤ) + timeout) :
    wp (onFrame (reporting timeout pollInterval) frame ns x
        { addr := 1, ctrl := iCtrl (s.link.peers 1).vr 1 })
      (fun r t => ∃ y, r = .next y ∧ y.deadline = x.deadline + gap ∧
        t.world.readings = s.world.readings + 1 ∧ (t.link.peers 1).vr = (s.link.peers 1).vr + 1)
      (fun _ _ => False) (fun _ => False) s := by
  have hmin : min (x.deadline + pollInterval * 4) ((gap : ℤ) * s.world.readings + timeout) =
      x.deadline + gap := by
    rw [hgap, ← hx]
    exact Int.min_self _
  simp [onFrame, onSequenced, onIFrame, ackedOr, applyAck, wp_write, reporting, Line.write,
    Line.monotonic, hmin]

/-- Each indication of a batch moves the deadline on by the whole gap.  The induction is on the
reports that are left in the batch. -/
theorem scan_reports (hgap : pollInterval * 4 = gap) (n : ℕ) :
    ∀ (x : Flight) (s : LinkSt (Burst gap) Unit),
      x.deadline + gap = gap * (s.world.readings : ℤ) + timeout →
      wp (scan (onFrame (reporting timeout pollInterval) frame ns) x
          (reports (s.link.peers 1).vr n))
        (fun r _ => ∃ y, r = .next y ∧ y.deadline = x.deadline + gap * (n : ℤ))
        (fun _ _ => False) (fun _ => False) s := by
  induction n with
  | zero =>
      intro x s _
      exact ⟨x, rfl, by simp⟩
  | succ n ih =>
      intro x s hx
      unfold reports scan
      rw [wp_bind]
      refine (onFrame_report hgap hx).mono (fun r t hr => ?_) (fun _ _ h => h) fun _ h => h
      obtain ⟨y, rfl, hy, hread, hvr⟩ := hr
      rw [← hvr]
      have hnext : y.deadline + gap = gap * (t.world.readings : ℤ) + timeout := by
        rw [hy, hx, hread]
        push_cast
        ring
      refine (ih y t hnext).mono (fun r u hr => ?_) (fun _ _ h => h) fun _ h => h
      obtain ⟨z, hz, hzd⟩ := hr
      refine ⟨z, hz, ?_⟩
      rw [hzd, hy]
      push_cast
      ring

/-- A burst of `n` indications makes a deadline later than the start and the timeout by
`n` gaps. -/
theorem toCheck_burst (timeout : Time) (hgap : pollInterval * 4 = gap) (n : ℕ) :
    ∃ y t, toCheck 0 (reporting timeout pollInterval)
        (⟨{ inbox := reports 0 n }, {}, [], ()⟩ : LinkSt (Burst gap) Unit) =
      (.ret (0, .next y), t) ∧ y.deadline = timeout + gap * (n : ℤ) := by
  have h : wp (toCheck 0 (reporting timeout pollInterval))
      (fun r _ => ∃ y, r = (0, .next y) ∧ y.deadline = timeout + gap * (n : ℤ))
      (fun _ _ => False) (fun _ => False)
      (⟨{ inbox := reports 0 n }, {}, [], ()⟩ : LinkSt (Burst gap) Unit) := by
    unfold toCheck
    simp only [wp_bind, wp_peer, wp_write, wp_monotonic, iterate, wp_pure, wp_readFrames]
    refine (scan_reports hgap n _
      (⟨{ readings := 1, inbox := [] }, {}, _, ()⟩ : LinkSt (Burst gap) Unit) ?_).mono
      (fun r t hr => ?_) (fun _ _ h => h) fun _ h => h
    · change (gap : ℤ) * (0 : ℕ) + timeout + gap = gap * (1 : ℕ) + timeout
      push_cast
      ring
    · obtain ⟨y, rfl, hy⟩ := hr
      refine ⟨y, ?_, ?_⟩
      · change ((gap : ℤ) * (0 : ℕ), _) = _
        simp
      · rw [hy]
        change (gap : ℤ) * (0 : ℕ) + timeout + _ = _
        simp
  obtain ⟨hret, hraise, hstall⟩ := wp_iff.1 h
  rcases hc : toCheck 0 (reporting timeout pollInterval)
      (⟨{ inbox := reports 0 n }, {}, [], ()⟩ : LinkSt (Burst gap) Unit) with ⟨o, t⟩
  cases o with
  | ret r =>
      obtain ⟨y, rfl, hy⟩ := hret r t hc
      exact ⟨y, t, rfl, hy⟩
  | raise e => exact (hraise e t hc).elim
  | stall => exact (hstall t hc).elim

/-- With a positive poll interval a burst that is long enough passes any bound. -/
theorem not_bounded {timeout pollInterval : Time} (hp : 0 < pollInterval) (bound : Time) :
    ¬ Bounded timeout pollInterval bound := by
  intro h
  obtain ⟨k, hk⟩ := Int.eq_ofNat_of_zero_le (Int.le_of_lt hp)
  have hgap : pollInterval * 4 = ((k * 4 : ℕ) : ℤ) := by
    rw [hk]
    push_cast
    rfl
  have hk1 : 1 ≤ k := by
    rw [hk] at hp
    exact_mod_cast hp
  -- a burst long enough for the bound
  obtain ⟨y, t, hcheck, hy⟩ := toCheck_burst timeout hgap ((bound - timeout).toNat + 1)
  have hle : y.deadline ≤ 0 + bound :=
    (h _ _ (Burst.steady _) (reporting timeout pollInterval) _ _ _ _ _ rfl rfl hcheck).1
  rw [hy, Int.zero_add] at hle
  have hfar : ∀ (a b : ℤ) (m : ℕ), (b - a).toNat + 1 ≤ m → ¬ a + (m : ℤ) ≤ b := by
    intro a b m hm
    omega
  have hm : (bound - timeout).toNat + 1 ≤ k * 4 * ((bound - timeout).toNat + 1) :=
    Nat.le_mul_of_pos_left _ (by omega)
  have hno := hfar timeout bound _ hm
  rw [Nat.cast_mul] at hno
  exact hno hle

end Burst

/-- **When the deadline of a call is bounded**: exactly if indications do not move it on.  This
says what "a little longer, but bounded" can mean for the timeout and the poll interval of a call.
-/
theorem bounded_iff (timeout pollInterval : Time) :
    (∃ bound, Bounded timeout pollInterval bound) ↔ pollInterval ≤ 0 := by
  constructor
  · rintro ⟨bound, h⟩
    by_contra hp
    exact not_bounded (Int.not_le.1 hp) bound h
  · intro hp
    exact ⟨timeout, bounded_of_nonpos hp⟩

/-! ## A device that reports at each poll -/

/-- A world in which time passes while the primary sleeps, and each read delivers one
indication, the next in sequence. -/
structure Chatter where
  now : Time := 0
  vs : Seq := 0

instance : Line Chatter where
  monotonic c := (c.now, c)
  sleep d c := { c with now := c.now + d }
  serialOpen c := (.ok (), c)
  setDtr := pure ()
  readFrames _ := fun c => (.ret (reports c.vs 1), { c with vs := c.vs + 1 })
  write _ := pure ()
  xfer _ _ := pure []
  serialClose := pure ()

section Chatter

variable {timeout pollInterval : Time}

/-- Between two passes the deadline is a poll interval short of the timeout at most. -/
def Chatting (timeout pollInterval : Time) (x : Flight) (s : LinkSt Chatter Unit) : Prop :=
  s.world.now + timeout - pollInterval ≤ x.deadline ∧ (s.link.peers 1).vr = s.world.vs

/-- A report acknowledges the command and moves the deadline to a timeout from now. -/
theorem onFrame_chatter (hp : 0 ≤ pollInterval) (frame : Frame) {x : Flight}
    {s : LinkSt Chatter Unit} (hx : s.world.now + timeout - pollInterval ≤ x.deadline) :
    wp (onFrame (reporting timeout pollInterval) frame 0 x
        { addr := 1, ctrl := iCtrl (s.link.peers 1).vr 1 })
      (fun r t => ∃ y, r = .next y ∧ y.acked = true ∧ y.deadline = s.world.now + timeout ∧
        t.world = s.world ∧ (t.link.peers 1).vr = (s.link.peers 1).vr + 1)
      (fun _ _ => False) (fun _ => False) s := by
  have hcap : ∀ a b p : ℤ, 0 ≤ p → a - p ≤ b → min (b + p * 4) a = a := by
    intro a b p hp hab
    omega
  have hmin : min (x.deadline + pollInterval * 4) (s.world.now + timeout) =
      s.world.now + timeout := hcap _ _ _ hp hx
  simp [onFrame, onSequenced, onIFrame, ackedOr, applyAck, wp_write, reporting, Line.write,
    Line.monotonic, hmin]

/-- The pass ends with a poll. -/
theorem passEnd_chatter (ht : 0 ≤ timeout) {frame : Frame} {x : Flight} {s : LinkSt Chatter Unit}
    (hacked : x.acked = true) (hx : x.deadline = s.world.now + timeout)
    (hvr : (s.link.peers 1).vr = s.world.vs) :
    wp (passEnd (reporting timeout pollInterval) frame 0 x)
      (Step.post (fun _ _ => False) (Chatting timeout pollInterval)) (fun _ _ => False)
      (fun _ => False) s := by
  have hwait : ∀ a b : ℤ, 0 ≤ b → ¬ a + b < a := by
    intro a b hb
    omega
  have hin : ¬ x.deadline < s.world.now := hx ▸ hwait _ _ ht
  unfold passEnd
  rw [wp_bind, wp_monotonic, wp_ite, wp_ite]
  refine ⟨fun h => ?_, fun _ => ⟨fun h => hin h, fun _ => ?_⟩⟩
  · rw [hacked] at h
    exact absurd h.1 (by decide)
  rw [wp_bind, wp_bump, wp_bind, wp_callback, wp_bind, wp_sleep, wp_bind, wp_peer, wp_bind, wp_write]
  refine ⟨?_, hvr⟩
  have hslept : ∀ a b c : ℤ, a + b + c - b ≤ a + c := by
    intro a b c
    omega
  change s.world.now + pollInterval + timeout - pollInterval ≤ x.deadline
  rw [hx]
  exact hslept _ _ _

/-- One pass of the chatter: a read with one report, and a poll. -/
theorem pass_chatting (ht : 0 ≤ timeout) (hp : 0 ≤ pollInterval) {frame : Frame} {x : Flight}
    {s : LinkSt Chatter Unit} (h : Chatting timeout pollInterval x s) :
    wp (pass (reporting timeout pollInterval) frame 0 x)
      (Step.post (fun _ _ => False) (Chatting timeout pollInterval)) (fun _ _ => False)
      (fun _ => False) s := by
  obtain ⟨hx, hvr⟩ := h
  unfold pass
  rw [wp_bind, wp_readFrames]
  have hstep := onFrame_chatter hp frame (x := x)
    (s := { s with
      world := { s.world with vs := s.world.vs + 1 }
      log := s.log ++ [.batch (reports s.world.vs 1)] }) hx
  change wp (scan (onFrame (reporting timeout pollInterval) frame 0) x
    [{ addr := 1, ctrl := iCtrl s.world.vs 1 }] >>= _) _ _ _ _
  rw [wp_bind, scan, wp_bind]
  dsimp only at hstep
  rw [hvr] at hstep
  refine hstep.mono (fun r t hr => ?_) (fun _ _ h => h) fun _ h => h
  obtain ⟨y, rfl, hacked, hy, hw, hvr'⟩ := hr
  refine passEnd_chatter ht hacked ?_ ?_
  · rw [hy, hw]
  · rw [hvr', hw]

/-- **A device that reports at each poll keeps the call going for ever.**  No number of passes is
enough for it to return or to give up. -/
theorem chatter_never_ends (ht : 0 ≤ timeout) (hp : 0 ≤ pollInterval) (fuel : ℕ) :
    (exchange fuel (reporting timeout pollInterval)
      (⟨{}, {}, [], ()⟩ : LinkSt Chatter Unit)).1 = .stall := by
  have hstart : ∀ a b : ℤ, 0 ≤ b → 0 + a - b ≤ 0 + a := by
    intro a b hb
    omega
  have h : wp (exchange fuel (reporting timeout pollInterval)) (fun _ _ => False)
      (fun _ _ => False) (fun _ => True) (⟨{}, {}, [], ()⟩ : LinkSt Chatter Unit) := by
    unfold exchange
    rw [wp_bind, wp_peer, wp_bind, wp_write]
    change wp (monotonic >>= _) _ _ _ _
    rw [wp_bind, wp_monotonic]
    refine wp_loop (Chatting timeout pollInterval) (fun _ _ _ => trivial) (fun x s hx => ?_)
      fuel _ _ ⟨hstart _ _ hp, rfl⟩
    exact (pass_chatting ht hp hx).mono (fun _ _ h => h) (fun _ _ h => h) fun _ h => h.elim
  obtain ⟨hret, hraise, -⟩ := wp_iff.1 h
  rcases hc : exchange fuel (reporting timeout pollInterval)
      (⟨{}, {}, [], ()⟩ : LinkSt Chatter Unit) with ⟨o, t⟩
  cases o with
  | ret r => exact (hret r t hc).elim
  | raise e => exact (hraise e t hc).elim
  | stall => rfl

end Chatter

/-- With the defaults of `exchange`, no bound holds, and a call goes on for ever. -/
theorem default_not_bounded : (¬ ∃ bound, Bounded (ms 3000) (ms 50) bound) ∧
    ∀ fuel, (exchange fuel (reporting (ms 3000) (ms 50))
      (⟨{}, {}, [], ()⟩ : LinkSt Chatter Unit)).1 = .stall :=
  ⟨fun ⟨bound, h⟩ => not_bounded (by decide) bound h,
    chatter_never_ends (by decide) (by decide)⟩

end OpenAisg.Link
