import OpenAisg.Link.Exchange

/-!
# How frames are grouped into reads

`exchange` takes the frames of one read in turn, and returns on its response.  The frames behind
it in that read were taken off the line, but nobody has looked at them: an alarm among them is
lost, where in a read of its own it would have been left for the next call.

* `Reads` — what the coming reads return; `askAll` — one call after the other.
* `Progress.take`, `Progress.read` — what the calls make of one frame, and of one read.  Only the
  second depends on the grouping.
* `Progress.SparesAll` — no frame that would make a difference stands behind one that ends a call.
* `Amid` — the invariant: where the calls stand, and where the coming reads lead from there.
* `askAll_user` — whatever the grouping, what is handed out is what `Progress.readAll` says.
* `askAll_grouping_irrelevant` — two groupings that spare hand out the same.
* `grouping_not_irrelevant` — an alarm that is lost behind a response.
-/

namespace OpenAisg.Link

open Hdlc Prog

/-! ## The reads -/

/-- What the coming reads return, and the readings of the clock.  After the last one a read returns
nothing.  Nothing that is sent makes a difference. -/
structure Reads where
  coming : List (List Rx)
  clock : ℕ → Time
  ticks : ℕ := 0

instance : Line Reads where
  monotonic w := (w.clock w.ticks, { w with ticks := w.ticks + 1 })
  sleep _ w := w
  serialOpen w := (.ok (), w)
  setDtr := pure ()
  readFrames _ := fun w => (.ret (w.coming.headD []), { w with coming := w.coming.tail })
  write _ := pure ()
  xfer _ _ := fun w => (.ret [], w)
  serialClose := pure ()

/-! ## The calls -/

/-- The arguments of a call, but for its callbacks. -/
structure Query where
  message : Bytes
  timeout : Time := ms 3000
  pollInterval : Time := ms 50
  router : Bytes → Verdict := acceptAll

/-- The call; `on_indication` is `handed.append`. -/
def Query.call (a : Query) (addr : Byte) : Call (List Bytes) :=
  { addr := addr, message := a.message, timeout := a.timeout, pollInterval := a.pollInterval
    router := a.router
    onIndication := fun payload handed => handed ++ [payload] }

/-- One call after the other: what they return is handed out, too.  A call whose link was reset is
over. -/
def askAll (n : ℕ) (addr : Byte) : List Query → LinkProg Reads (List Bytes) Unit
  | [] => pure ()
  | a :: as => do
      handle (do
          let payload ← exchange n (a.call addr)
          modify fun s => { s with user := s.user ++ [payload] })
        fun e => if e.isReset then some (pure ()) else none
      askAll n addr as

/-! ## What they make of the frames -/

/-- The calls that are not over, the first of which is running; V(R); and what was handed out. -/
structure Progress where
  calls : List Query
  vr : Seq
  handed : List Bytes := []

namespace Progress

/-- One frame: a DM or FRMR of the peer ends the running call, and an I-frame in sequence goes to
its router. -/
def take (addr : Byte) (g : Progress) (f : Rx) : Progress :=
  match g.calls with
  | [] => g
  | a :: as =>
      if f.addr ≠ addr then g
      else if kind f.ctrl = .uFrame then
        if isReset f.ctrl then { g with calls := as, vr := 0 } else g
      else if kind f.ctrl ≠ .iFrame ∨ nsOf f.ctrl ≠ g.vr then g
      else match a.router f.payload with
        | .accept => { calls := as, vr := g.vr + 1, handed := g.handed ++ [f.payload] }
        | .indication => { g with vr := g.vr + 1, handed := g.handed ++ [f.payload] }
        | .unexpected => { g with vr := g.vr + 1 }

/-- The frames of a read.  The loop over them is left when the running call ends. -/
def read (addr : Byte) : Progress → List Rx → Progress
  | g, [] => g
  | g, f :: fs =>
      if (g.take addr f).calls.length < g.calls.length then g.take addr f
      else (g.take addr f).read addr fs

/-- One read after the other. -/
def readAll (addr : Byte) (g : Progress) (reads : List (List Rx)) : Progress :=
  reads.foldl (read addr) g

/-- A frame that would make a difference: a DM or FRMR of the peer, or its next I-frame. -/
def Heeds (addr : Byte) (g : Progress) (f : Rx) : Prop :=
  g.calls ≠ [] ∧ f.addr = addr ∧
    (kind f.ctrl = .uFrame ∧ isReset f.ctrl = true ∨ kind f.ctrl = .iFrame ∧ nsOf f.ctrl = g.vr)

/-- In the read, no frame that would make a difference stands behind one that ends a call. -/
def Spares (addr : Byte) : Progress → List Rx → Prop
  | _, [] => True
  | g, f :: fs =>
      if (g.take addr f).calls.length < g.calls.length then
        ∀ f' ∈ fs, ¬ (g.take addr f).Heeds addr f'
      else (g.take addr f).Spares addr fs

instance (addr : Byte) (g : Progress) (f : Rx) : Decidable (g.Heeds addr f) :=
  inferInstanceAs (Decidable (_ ∧ _ ∧ _))

/-- In none of the reads. -/
def SparesAll (addr : Byte) : Progress → List (List Rx) → Prop
  | _, [] => True
  | g, fs :: reads => g.Spares addr fs ∧ (g.read addr fs).SparesAll addr reads

instance decidableSpares (addr : Byte) : ∀ (g : Progress) (fs : List Rx), Decidable (g.Spares addr fs)
  | _, [] => .isTrue trivial
  | g, f :: fs =>
      if h : (g.take addr f).calls.length < g.calls.length then
        decidable_of_iff (∀ f' ∈ fs, ¬ (g.take addr f).Heeds addr f') (by rw [Spares, if_pos h])
      else
        have := decidableSpares addr (g.take addr f) fs
        decidable_of_iff ((g.take addr f).Spares addr fs) (by rw [Spares, if_neg h])

instance decidableSparesAll (addr : Byte) :
    ∀ (g : Progress) (reads : List (List Rx)), Decidable (g.SparesAll addr reads)
  | _, [] => .isTrue trivial
  | g, fs :: reads =>
      have := decidableSparesAll addr (g.read addr fs) reads
      inferInstanceAs (Decidable (_ ∧ _))

section

variable {addr : Byte} {g : Progress} {f : Rx} {fs : List Rx} {reads : List (List Rx)}

/-- When all calls are over nothing happens. -/
theorem take_of_nil (h : g.calls = []) : g.take addr f = g := by
  unfold take
  rw [h]

theorem read_of_nil (h : g.calls = []) : g.read addr fs = g := by
  induction fs with
  | nil => rfl
  | cons f fs ih => rw [read, take_of_nil h, if_neg (Nat.lt_irrefl _), ih]

theorem readAll_of_nil (h : g.calls = []) : g.readAll addr reads = g := by
  induction reads with
  | nil => rfl
  | cons fs reads ih =>
      rw [readAll, List.foldl_cons, read_of_nil h]
      exact ih

/-- A frame that makes no difference. -/
theorem take_of_not_heeds (h : ¬ g.Heeds addr f) : g.take addr f = g := by
  unfold take
  rcases hc : g.calls with _ | ⟨a, as⟩
  · rfl
  dsimp only
  split_ifs with haddr hu hr hi
  · rfl
  · exact absurd ⟨by simp [hc], not_not.1 haddr, Or.inl ⟨hu, hr⟩⟩ h
  · rfl
  · rfl
  · rw [not_or, not_not, not_not] at hi
    exact absurd ⟨by simp [hc], not_not.1 haddr, Or.inr hi⟩ h

/-- Frames that make no difference. -/
theorem foldl_take_of_not_heeds (h : ∀ f ∈ fs, ¬ g.Heeds addr f) : fs.foldl (take addr) g = g := by
  induction fs with
  | nil => rfl
  | cons f fs ih =>
      rw [List.foldl_cons, take_of_not_heeds (h f (List.mem_cons_self ..))]
      exact ih fun f' hf => h f' (List.mem_cons_of_mem _ hf)

/-- A read that spares is its frames one by one. -/
theorem read_of_spares (h : g.Spares addr fs) : g.read addr fs = fs.foldl (take addr) g := by
  induction fs generalizing g with
  | nil => rfl
  | cons f fs ih =>
      rw [read, List.foldl_cons]
      rw [Spares] at h
      split_ifs at h ⊢
      · exact (foldl_take_of_not_heeds h).symm
      · exact ih h

/-- Reads that spare are all their frames one by one, however these are grouped. -/
theorem readAll_of_sparesAll (h : g.SparesAll addr reads) :
    g.readAll addr reads = reads.flatten.foldl (take addr) g := by
  induction reads generalizing g with
  | nil => rfl
  | cons fs reads ih =>
      rw [List.flatten_cons, List.foldl_append, ← read_of_spares h.1]
      exact ih h.2

/-- Reads of one frame each spare. -/
theorem sparesAll_of_single (h : ∀ fs ∈ reads, fs.length ≤ 1) : g.SparesAll addr reads := by
  induction reads generalizing g with
  | nil => trivial
  | cons fs reads ih =>
      refine ⟨?_, ih fun fs' hfs => h fs' (List.mem_cons_of_mem _ hfs)⟩
      have hlen := h fs (List.mem_cons_self ..)
      rcases fs with _ | ⟨f, _ | ⟨f', fs⟩⟩
      · trivial
      · rw [Spares]
        split_ifs
        · exact fun f' hf => absurd hf List.not_mem_nil
        · trivial
      · simp at hlen

/-- The call goes on. -/
theorem read_cons_of_calls (h : (g.take addr f).calls = g.calls) :
    g.read addr (f :: fs) = (g.take addr f).read addr fs := by
  rw [read, h, if_neg (Nat.lt_irrefl _)]

/-- The call is over. -/
theorem read_cons_of_over {a : Query} {as : List Query} (hg : g.calls = a :: as)
    (h : (g.take addr f).calls = as) : g.read addr (f :: fs) = g.take addr f := by
  rw [read, h, hg, if_pos (by simp)]

end

end Progress

/-! ## A call and what it makes of the frames -/

section Walk

variable {addr : Byte} {a : Query} {as : List Query} {u out : List Bytes} {goal g : Progress}
  {k n : ℕ} {f : Rx} {fs : List Rx} {x : Flight} {s t v : LinkSt Reads (List Bytes)}
  {E : Exn → LinkSt Reads (List Bytes) → Prop} {S : LinkSt Reads (List Bytes) → Prop}

/-- The link and the callbacks are where `g` says, while the frames `fs` of a read are still to be
taken up and `out` is still to be handed out; and from there the reads lead to `goal`. -/
structure Stands (addr : Byte) (u : List Bytes) (goal g : Progress) (fs : List Rx)
    (out : List Bytes) (n : ℕ) (t : LinkSt Reads (List Bytes)) : Prop where
  vr : (t.link.peers addr).vr = g.vr
  handed : t.user ++ out = u ++ g.handed
  goal : (g.read addr fs).readAll addr t.world.coming = goal
  left : t.world.coming.length ≤ n

/-- So they are for some progress that has the calls `calls` before it. -/
def Amid (addr : Byte) (u : List Bytes) (goal : Progress) (n : ℕ) (calls : List Query)
    (fs : List Rx) (out : List Bytes) (t : LinkSt Reads (List Bytes)) : Prop :=
  ∃ g : Progress, g.calls = calls ∧ Stands addr u goal g fs out n t

/-- All that there is to hand out has been. -/
def HandedAll (u : List Bytes) (goal : Progress) (t : LinkSt Reads (List Bytes)) : Prop :=
  t.user = u ++ goal.handed

/-- A reset of the link ends the running call; any other exception is a deadline that expired. -/
def ResetLeaves (addr : Byte) (as : List Query) (u : List Bytes) (goal : Progress) (n : ℕ) (e : Exn)
    (t : LinkSt Reads (List Bytes)) : Prop :=
  e.isReset = true → Amid addr u goal n as [] [] t

/-- What does not matter. -/
theorem Stands.same (h : Stands addr u goal g fs out n t) (hw : v.world.coming = t.world.coming)
    (hu : v.user = t.user) (hp : (v.link.peers addr).vr = (t.link.peers addr).vr) :
    Stands addr u goal g fs out n v :=
  ⟨hp.trans h.vr, by rw [hu, h.handed], by rw [hw, h.goal], by rw [hw]; exact h.left⟩

/-- Writing makes no difference. -/
theorem wp_write_reads {f : Frame} {Q : Unit → LinkSt Reads (List Bytes) → Prop}
    (hQ : ∀ log, Q () { t with log := log }) : wp (write f) Q E S t := by
  rw [wp_write]
  exact hQ _

/-- A read takes the next of the coming ones, and nothing when there is none. -/
theorem wp_readFrames_reads {b : Time} {Q : List Rx → LinkSt Reads (List Bytes) → Prop} :
    wp (readFrames b) Q E S t ↔ Q (t.world.coming.headD [])
      { t with
        world := { t.world with coming := t.world.coming.tail }
        log := t.log ++ [.batch (t.world.coming.headD [])] } := by
  rw [wp_readFrames]
  exact Iff.rfl

/-- A frame that changes nothing. -/
theorem Stands.skip (h : Stands addr u goal g (f :: fs) out n t)
    (hf : g.take addr f = g) : Stands addr u goal g fs out n t := by
  have hread : g.read addr (f :: fs) = (g.take addr f).read addr fs :=
    Progress.read_cons_of_calls (by rw [hf])
  rw [hf] at hread
  exact ⟨h.vr, h.handed, by rw [← hread]; exact h.goal, h.left⟩

/-- The I-frame path. -/
theorem wp_onIFrame_grouped {ns : Seq} (haddr : f.addr = addr) (hk : kind f.ctrl = .iFrame)
    (h : Amid addr u goal n (a :: as) (f :: fs) [] t) :
    wp (onIFrame (a.call addr) ns x f)
      (Step.post (fun payload => Amid addr u goal n as [] [payload])
        fun _ => Amid addr u goal n (a :: as) fs [])
      (ResetLeaves addr as u goal n) (fun _ => False) t := by
  obtain ⟨g, hg, h⟩ := h
  unfold onIFrame
  rw [wp_bind, wp_peer, wp_ite]
  refine ⟨fun hns => ?_, fun hns => ?_⟩
  · rw [wp_bind, wp_bump, wp_bind]
    refine wp_write_reads fun log => ?_
    have hns : nsOf f.ctrl ≠ g.vr := by rwa [← h.vr]
    have hskip := h.skip (Progress.take_of_not_heeds fun hh => by
      rcases hh.2.2 with hu | hi
      · rw [hk] at hu
        cases hu.1
      · exact hns hi.2)
    exact ⟨g, hg, hskip.same rfl rfl rfl⟩
  have hns : nsOf f.ctrl = g.vr := by rw [← h.vr]; exact not_not.1 hns
  have htake : g.take addr f = match a.router f.payload with
      | .accept => { calls := as, vr := g.vr + 1, handed := g.handed ++ [f.payload] }
      | .indication => { g with vr := g.vr + 1, handed := g.handed ++ [f.payload] }
      | .unexpected => { g with vr := g.vr + 1 } := by
    unfold Progress.take
    rw [hg]
    dsimp only
    rw [if_neg (not_not.2 haddr), if_neg (by simp [hk]), if_neg (by simp [hk, hns])]
  rw [wp_bind, wp_logEvent, wp_bind, wp_setPeer]
  have hrouter : (a.call addr).router f.payload = a.router f.payload := rfl
  rw [hrouter]
  cases hroute : a.router f.payload with
  | accept =>
      rw [hroute] at htake
      rw [wp_bind]
      refine wp_write_reads fun log => ?_
      have hover : g.read addr (f :: fs) = g.take addr f :=
        Progress.read_cons_of_over hg (by rw [htake])
      have hends : ∀ v : LinkSt Reads (List Bytes), v.world = t.world → v.user = t.user →
          (v.link.peers addr).vr = nsOf f.ctrl + 1 → Amid addr u goal n as [] [f.payload] v := by
        intro v hw hu hp
        refine ⟨g.take addr f, by rw [htake], ?_, ?_, ?_, by rw [hw]; exact h.left⟩
        · rw [hp, htake, hns]
        · have hhanded := h.handed
          rw [List.append_nil] at hhanded
          rw [hu, htake, hhanded, List.append_assoc]
        · rw [hw, ← h.goal, hover]
          rfl
      rw [wp_bind, wp_onlyIf]
      refine ⟨fun _ => ?_, fun _ => ?_⟩
      · rw [wp_setPeer, wp_bind, wp_logEvent, wp_pure]
        exact hends _ rfl rfl (by simp [Query.call])
      · rw [wp_bind, wp_logEvent, wp_pure]
        exact hends _ rfl rfl (by simp [Query.call])
  | indication =>
      rw [hroute] at htake
      rw [wp_bind]
      refine wp_write_reads fun log => ?_
      rw [wp_bind, wp_callback, wp_bind, wp_monotonic, wp_pure]
      have hread : g.read addr (f :: fs) = (g.take addr f).read addr fs :=
        Progress.read_cons_of_calls (by rw [htake])
      refine ⟨g.take addr f, by rw [htake, hg], ?_, ?_, ?_, h.left⟩
      · rw [htake]
        simp [Query.call, hns]
      · have hhanded := h.handed
        rw [List.append_nil] at hhanded
        rw [htake]
        simp [Query.call, hhanded]
      · rw [← h.goal, hread]
        rfl
  | unexpected =>
      rw [hroute] at htake
      rw [wp_bind]
      refine wp_write_reads fun log => ?_
      rw [wp_bind, wp_bump, wp_pure]
      have hread : g.read addr (f :: fs) = (g.take addr f).read addr fs :=
        Progress.read_cons_of_calls (by rw [htake])
      refine ⟨g.take addr f, by rw [htake, hg], ?_, ?_, ?_, h.left⟩
      · rw [htake]
        simp [Query.call, hns]
      · rw [htake]
        exact h.handed
      · rw [← h.goal, hread]

/-- One frame of a read. -/
theorem wp_onFrame_grouped {cmd : Frame} {ns : Seq} (h : Amid addr u goal n (a :: as) (f :: fs) [] t) :
    wp (onFrame (a.call addr) cmd ns x f)
      (Step.post (fun payload => Amid addr u goal n as [] [payload])
        fun _ => Amid addr u goal n (a :: as) fs [])
      (ResetLeaves addr as u goal n) (fun _ => False) t := by
  -- the frame changes nothing, and what is left is written, counted or remembered
  have hskip : (∀ g : Progress, g.Heeds addr f → False) → ∀ v : LinkSt Reads (List Bytes),
      v.world = t.world → v.user = t.user →
        (v.link.peers addr).vr = (t.link.peers addr).vr → Amid addr u goal n (a :: as) fs [] v := by
    intro hno v hw hu hp
    obtain ⟨g, hg, h⟩ := h
    exact ⟨g, hg, (h.skip (Progress.take_of_not_heeds (hno g))).same (by rw [hw]) hu hp⟩
  unfold onFrame
  rw [wp_ite]
  refine ⟨fun hforeign => ?_, fun haddr => ?_⟩
  · rw [wp_bind, wp_bump, wp_pure]
    exact hskip (fun g hh => hforeign hh.2.1) _ rfl rfl rfl
  have haddr : f.addr = addr := not_not.1 haddr
  rw [wp_bind, wp_logEvent, wp_ite]
  refine ⟨fun hu => ?_, fun hu => ?_⟩
  · unfold onUFrame
    rw [wp_ite]
    refine ⟨fun hr => ?_, fun hr => ?_⟩
    · rw [wp_bind, wp_setPeer, wp_bind, wp_bump, wp_raise]
      obtain ⟨g, hg, h⟩ := h
      have htake : g.take addr f = { g with calls := as, vr := 0 } := by
        unfold Progress.take
        rw [hg]
        dsimp only
        rw [if_neg (not_not.2 haddr), if_pos hu, if_pos hr]
      have hover : g.read addr (f :: fs) = g.take addr f :=
        Progress.read_cons_of_over hg (by rw [htake])
      refine fun _ => ⟨g.take addr f, by rw [htake], ?_, ?_, ?_, h.left⟩
      · rw [htake]
        simp [Query.call, PeerState.reset]
      · rw [htake]
        exact h.handed
      · rw [← h.goal, hover]
        rfl
    · refine hskip (fun g hh => ?_) _ rfl rfl rfl
      rcases hh.2.2 with hreset | hi
      · exact hr hreset.2
      · rw [hu] at hi
        cases hi.1
  rw [wp_bind]
  have hrest : ∀ (y : Flight) (v : LinkSt Reads (List Bytes)), v.world = t.world →
      v.user = t.user → (v.link.peers addr).vr = (t.link.peers addr).vr →
      wp (onSequenced (a.call addr) cmd ns y f)
        (Step.post (fun payload => Amid addr u goal n as [] [payload])
          fun _ => Amid addr u goal n (a :: as) fs [])
        (ResetLeaves addr as u goal n) (fun _ => False) v := by
    intro y v hw huser hp
    have hsuper : kind f.ctrl ≠ .iFrame → ∀ v' : LinkSt Reads (List Bytes), v'.world = t.world →
        v'.user = t.user → (v'.link.peers addr).vr = (t.link.peers addr).vr →
          Amid addr u goal n (a :: as) fs [] v' := fun hk =>
      hskip fun g hh => hh.2.2.elim (fun h => hu h.1) fun h => hk h.1
    have hresend : kind f.ctrl ≠ .iFrame → wp (if !y.acked ∧ y.retxLeft ≠ 0 then do
          bump fun st => { st with retx := st.retx + 1 }
          write cmd
          pure (.next { y with retxLeft := y.retxLeft - 1 })
        else pure (.next y) : LinkProg Reads (List Bytes) (Step Bytes Flight))
        (Step.post (fun payload => Amid addr u goal n as [] [payload])
          fun _ => Amid addr u goal n (a :: as) fs [])
        (ResetLeaves addr as u goal n) (fun _ => False) v := by
      intro hk
      rw [wp_ite]
      refine ⟨fun _ => ?_, fun _ => hsuper hk v hw huser hp⟩
      rw [wp_bind, wp_bump, wp_bind]
      exact wp_write_reads fun log => hsuper hk _ hw huser hp
    unfold onSequenced
    cases hk : kind f.ctrl with
    | rr => exact hsuper (by simp [hk]) v hw huser hp
    | rnr =>
        dsimp only
        rw [wp_bind, wp_bump, wp_pure]
        exact hsuper (by simp [hk]) _ hw huser hp
    | rej => exact hresend (by simp [hk])
    | srej => exact hresend (by simp [hk])
    | iFrame =>
        obtain ⟨g, hg, h⟩ := h
        exact wp_onIFrame_grouped haddr hk ⟨g, hg, h.same (by rw [hw]) huser hp⟩
    | uFrame => exact absurd hk hu
  unfold ackedOr
  rw [wp_ite]
  refine ⟨fun _ => hrest _ _ rfl rfl rfl, fun _ => ?_⟩
  unfold applyAck
  rw [wp_ite]
  refine ⟨fun _ => ?_, fun _ => hrest _ _ rfl rfl rfl⟩
  rw [wp_bind, wp_setPeer, wp_pure]
  exact hrest _ _ rfl rfl (by simp [Query.call])

/-- The end of a pass. -/
theorem wp_passEnd_grouped {cmd : Frame} {ns : Seq} (h : Amid addr u goal n (a :: as) [] [] t) :
    wp (passEnd (a.call addr) cmd ns x)
      (Step.post (fun payload => Amid addr u goal n as [] [payload])
        fun _ => Amid addr u goal n (a :: as) [] [])
      (ResetLeaves addr as u goal n) (fun _ => False) t := by
  obtain ⟨g, hg, h⟩ := h
  have hgo : ∀ v : LinkSt Reads (List Bytes), v.world.coming = t.world.coming → v.user = t.user →
      (v.link.peers addr).vr = (t.link.peers addr).vr → Amid addr u goal n (a :: as) [] [] v :=
    fun v hw hu hp => ⟨g, hg, h.same hw hu hp⟩
  unfold passEnd
  rw [wp_bind, wp_monotonic, wp_ite]
  refine ⟨fun _ => ?_, fun _ => ?_⟩
  · rw [wp_bind, wp_bump, wp_bind]
    exact wp_write_reads fun log => hgo _ rfl rfl rfl
  rw [wp_ite]
  refine ⟨fun _ => ?_, fun _ => ?_⟩
  · rw [wp_raise]
    intro hr
    cases hr
  rw [wp_bind, wp_bump, wp_bind, wp_callback, wp_bind, wp_sleep, wp_bind, wp_peer, wp_bind]
  exact wp_write_reads fun log => hgo _ rfl rfl rfl

/-- A read takes the next of the coming ones. -/
theorem Amid.taken {calls : List Query} (h : Amid addr u goal (n + 1) calls [] [] t)
    (hw : v.world.coming = t.world.coming.tail) (hu : v.user = t.user)
    (hp : (v.link.peers addr).vr = (t.link.peers addr).vr) :
    Amid addr u goal n calls (t.world.coming.headD []) [] v := by
  obtain ⟨g, hg, h⟩ := h
  have hgoal := h.goal
  have hleft := h.left
  refine ⟨g, hg, hp.trans h.vr, by rw [hu, h.handed], ?_, by rw [hw, List.length_tail]; omega⟩
  rw [hw]
  rcases hc : t.world.coming with _ | ⟨fs, coming⟩
  · rw [hc] at hgoal
    exact hgoal
  · rw [hc] at hgoal
    exact hgoal

/-- There may be more passes left. -/
theorem Amid.mono {calls : List Query} {m : ℕ} (h : Amid addr u goal n calls fs out t)
    (hm : n ≤ m) : Amid addr u goal m calls fs out t := by
  obtain ⟨g, hg, h⟩ := h
  exact ⟨g, hg, h.vr, h.handed, h.goal, Nat.le_trans h.left hm⟩

/-- One pass, of at most `n + 1`. -/
theorem wp_pass_grouped {cmd : Frame} {ns : Seq} (h : Amid addr u goal (n + 1) (a :: as) [] [] t) :
    wp (pass (a.call addr) cmd ns x)
      (Step.post (fun payload => Amid addr u goal n as [] [payload])
        fun _ => Amid addr u goal n (a :: as) [] [])
      (ResetLeaves addr as u goal n) (fun _ => False) t := by
  unfold pass
  rw [wp_bind, wp_readFrames_reads, wp_bind]
  have hread : Amid addr u goal n (a :: as) (t.world.coming.headD []) []
      { t with
        world := { t.world with coming := t.world.coming.tail }
        log := t.log ++ [.batch (t.world.coming.headD [])] } := h.taken rfl rfl rfl
  refine (wp_scan (fun fs _ => Amid addr u goal n (a :: as) fs [])
    (fun f fs x t ht => wp_onFrame_grouped ht) _ x _ hread).mono
    (fun r w hr => ?_) (fun _ _ h => h) fun _ h => h
  cases r with
  | done payload => exact hr
  | next y => exact wp_passEnd_grouped hr

/-- Once the reads are over, or the calls, all is handed out. -/
theorem Amid.handedAll_of_left (h : Amid addr u goal 0 as [] [] t) : HandedAll u goal t := by
  obtain ⟨g, -, h⟩ := h
  have hnil : t.world.coming = [] := List.length_eq_zero_iff.1 (Nat.le_zero.1 h.left)
  have hgoal := h.goal
  rw [hnil] at hgoal
  have hhanded := h.handed
  rw [List.append_nil] at hhanded
  rw [HandedAll, hhanded, ← hgoal]
  rfl

theorem Amid.handedAll_of_nil (h : Amid addr u goal n [] [] [] t) : HandedAll u goal t := by
  obtain ⟨g, hg, h⟩ := h
  have hgoal := h.goal
  rw [Progress.read, Progress.readAll_of_nil hg] at hgoal
  have hhanded := h.handed
  rw [List.append_nil] at hhanded
  rw [HandedAll, hhanded, hgoal]

/-- One call, for a bound that the coming reads do not exceed. -/
theorem wp_exchange_grouped (h : Amid addr u goal n (a :: as) [] [] t) :
    wp (exchange n (a.call addr)) (fun payload => Amid addr u goal n as [] [payload])
      (ResetLeaves addr as u goal n) (HandedAll u goal) t := by
  have hsame : ∀ v : LinkSt Reads (List Bytes), v.world.coming = t.world.coming →
      v.user = t.user → (v.link.peers addr).vr = (t.link.peers addr).vr →
        Amid addr u goal n (a :: as) [] [] v := by
    intro v hw hu hp
    obtain ⟨g, hg, h⟩ := h
    exact ⟨g, hg, h.same hw hu hp⟩
  unfold exchange
  rw [wp_bind, wp_peer, wp_bind]
  refine wp_write_reads fun log => ?_
  rw [wp_bind, wp_monotonic]
  -- the passes left are as many as the reads that may still come
  refine wp_loop_left (fun m _ v => m ≤ n ∧ Amid addr u goal m (a :: as) [] [] v)
    (fun _ v hv => hv.2.handedAll_of_left) (fun m x v hv => ?_) n _ _
    ⟨Nat.le_refl n, hsame _ rfl rfl rfl⟩
  have hm : m ≤ n := Nat.le_of_succ_le hv.1
  refine (wp_pass_grouped hv.2).mono (fun r w hr => ?_) (fun e w he hr => (he hr).mono hm)
    fun _ h => h.elim
  cases r with
  | done payload => exact hr.mono hm
  | next y => exact ⟨hm, hr⟩

/-- One call after the other. -/
theorem wp_askAll_grouped {calls : List Query} (h : Amid addr u goal n calls [] [] t) :
    wp (askAll n addr calls) (fun _ => HandedAll u goal) (fun _ _ => True) (HandedAll u goal) t := by
  induction calls generalizing t with
  | nil => exact h.handedAll_of_nil
  | cons a as ih =>
      unfold askAll
      rw [wp_bind, wp_handle, wp_bind]
      refine (wp_exchange_grouped h).mono (fun payload v hv => ?_) (fun e v he => ?_)
        fun _ h => h
      · rw [wp_modify]
        obtain ⟨g, hg, hv⟩ := hv
        exact ih ⟨g, hg, hv.vr, by rw [List.append_nil]; exact hv.handed, hv.goal, hv.left⟩
      · by_cases hr : e.isReset = true
        · rw [if_pos hr]
          exact ih (he hr)
        · rw [if_neg hr]
          trivial

end Walk

/-! ## Runs of calls -/

section Runs

variable {addr : Byte} {as : List Query} {n : ℕ} {s s' : LinkSt Reads (List Bytes)}

/-- Before the first of the calls `as`. -/
def atStart (addr : Byte) (as : List Query) (s : LinkSt Reads (List Bytes)) : Progress :=
  { calls := as, vr := (s.link.peers addr).vr }

/-- No deadline expires. -/
def Unhurried (n : ℕ) (addr : Byte) (as : List Query) (s : LinkSt Reads (List Bytes)) : Prop :=
  ∀ e, (askAll n addr as s).1 ≠ .raise e

/-- What the calls hand out is a function of the reads, of V(R) and of their routers. -/
theorem askAll_user (hn : s.world.coming.length ≤ n) (h : Unhurried n addr as s) :
    (askAll n addr as s).2.user =
      s.user ++ ((atStart addr as s).readAll addr s.world.coming).handed := by
  have hstart : Amid addr s.user ((atStart addr as s).readAll addr s.world.coming) n as [] [] s :=
    ⟨atStart addr as s, rfl, rfl, rfl, rfl, hn⟩
  have hwp := wp_askAll_grouped hstart
  unfold wp at hwp
  rcases hc : askAll n addr as s with ⟨o, t⟩
  rw [hc] at hwp
  cases o with
  | ret _ => exact hwp
  | raise e => exact absurd (by rw [hc]) (h e)
  | stall => exact hwp

/-- A grouping that spares the frames loses none of them. -/
theorem askAll_user_of_sparesAll (hn : s.world.coming.length ≤ n) (h : Unhurried n addr as s)
    (hs : (atStart addr as s).SparesAll addr s.world.coming) :
    (askAll n addr as s).2.user = s.user ++
      (s.world.coming.flatten.foldl (Progress.take addr) (atStart addr as s)).handed := by
  rw [askAll_user hn h, Progress.readAll_of_sparesAll hs]

/-- **The same frames, the same payloads**, in two groupings which spare them.  No bound on the
passes is needed but that there is one for each read. -/
theorem askAll_grouping_irrelevant (hframes : s'.world.coming.flatten = s.world.coming.flatten)
    (hvr : (s'.link.peers addr).vr = (s.link.peers addr).vr) (huser : s'.user = s.user)
    (hn : s.world.coming.length ≤ n) (hn' : s'.world.coming.length ≤ n)
    (h : Unhurried n addr as s) (h' : Unhurried n addr as s')
    (hs : (atStart addr as s).SparesAll addr s.world.coming)
    (hs' : (atStart addr as s').SparesAll addr s'.world.coming) :
    (askAll n addr as s').2.user = (askAll n addr as s).2.user := by
  have hstart : atStart addr as s' = atStart addr as s := by
    rw [atStart, atStart, hvr]
  rw [askAll_user_of_sparesAll hn h hs, askAll_user_of_sparesAll hn' h' hs', huser, hframes, hstart]

end Runs

/-! ## An alarm behind a response -/

/-- After `connect`, with these reads to come. -/
def onLine (coming : List (List Rx)) : LinkSt Reads (List Bytes) where
  world := { coming := coming, clock := fun n => n }
  link := {}
  log := []
  user := []

/-- A request for the tilt; whoever asks lets alarms through. -/
def tiltQuery : Query where
  message := [0x34, 0, 0]
  router payload := if payload.head? = some 0x07 then .indication else .accept

/-- An answer to it. -/
def tiltIs (ns : Seq) (tilt : Byte) : Rx :=
  { addr := 1, ctrl := iCtrl ns 1, payload := [0x34, 3, 0, 0, tilt, 0] }

/-- An AlarmIndication. -/
def jammed (ns : Seq) : Rx := { addr := 1, ctrl := iCtrl ns 1, payload := [0x07, 2, 0, 2, 1] }

/-- An alarm in one read with the response after it is handed out as in a read of its own. -/
theorem askAll_grouping_irrelevant_jammed :
    (askAll 10 1 [tiltQuery, tiltQuery] (onLine [[tiltIs 0 30], [jammed 1, tiltIs 2 30]])).2.user =
      (askAll 10 1 [tiltQuery, tiltQuery]
        (onLine [[tiltIs 0 30], [jammed 1], [tiltIs 2 30]])).2.user := by
  have hret : (askAll 10 1 [tiltQuery, tiltQuery]
      (onLine [[tiltIs 0 30], [jammed 1], [tiltIs 2 30]])).1 = .ret () := by decide +kernel
  have hret' : (askAll 10 1 [tiltQuery, tiltQuery]
      (onLine [[tiltIs 0 30], [jammed 1, tiltIs 2 30]])).1 = .ret () := by decide +kernel
  refine askAll_grouping_irrelevant rfl rfl rfl (by decide) (by decide) ?_ ?_
    (Progress.sparesAll_of_single (by decide)) (by decide)
  · intro e he
    rw [hret] at he
    cases he
  · intro e he
    rw [hret'] at he
    cases he

/-- **The alarm behind the first response is lost** when both are in one read, and both calls
return either way. -/
theorem grouping_not_irrelevant :
    [[tiltIs 0 30, jammed 1], [tiltIs 1 40], [tiltIs 2 50]].flatten =
        [[tiltIs 0 30], [jammed 1], [tiltIs 1 40], [tiltIs 2 50]].flatten ∧
      (askAll 10 1 [tiltQuery, tiltQuery]
        (onLine [[tiltIs 0 30], [jammed 1], [tiltIs 1 40], [tiltIs 2 50]])).1 = .ret () ∧
      (askAll 10 1 [tiltQuery, tiltQuery]
        (onLine [[tiltIs 0 30, jammed 1], [tiltIs 1 40], [tiltIs 2 50]])).1 = .ret () ∧
      (askAll 10 1 [tiltQuery, tiltQuery]
        (onLine [[tiltIs 0 30], [jammed 1], [tiltIs 1 40], [tiltIs 2 50]])).2.user =
          [(tiltIs 0 30).payload, (jammed 1).payload, (tiltIs 2 50).payload] ∧
      (askAll 10 1 [tiltQuery, tiltQuery]
        (onLine [[tiltIs 0 30, jammed 1], [tiltIs 1 40], [tiltIs 2 50]])).2.user =
          [(tiltIs 0 30).payload, (tiltIs 1 40).payload] := by
  decide +kernel

end OpenAisg.Link
