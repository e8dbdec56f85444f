import OpenAisg.Session.Bench
import OpenAisg.Session.Walk

/-!
# The emitted alarm events and the active set

A listener that starts from the first baseline and folds the emitted edges over it
should always hold the active set.  A baseline that is taken in silence can break that, and
one is taken at every reconnect.

* `WorkerSteps` — the walk over the worker, for relations that only look at its
  attributes.
* `Worker.alarmsSince` — the edges that a listener has had since a moment.
* `Folds` — the invariant: the fold gives the active set, as long as no later silent
  baseline changed it.
* `folds_steps`, `grows_steps` — every update of the worker keeps it, and the records of
  what was emitted only grow.
* `head_alarms` — it holds at every head of the loop, and an alarm that appeared or
  disappeared between two heads was reported in between.
* `reconnect_swallows_alarm` — a motor that jams between two duty cycles, of which no
  listener ever hears.
-/

namespace OpenAisg.Session

open Hdlc Link Retap Prog

variable {W : Type} [Line W] [Clients W]

/-! ## Relations on the attributes of the worker -/

/-- What the worker does to its own attributes. -/
structure WorkerSteps (T : Worker → Worker → Prop) : Prop where
  books : ∀ wk wk', Books wk wk' → T wk wk'
  stored : ∀ wk d, T wk { wk with deviceData := d }
  state : ∀ wk state error, T wk (wk.setState state error)
  address : ∀ wk a b, T wk { wk with address := a, wantLink := b }
  armed : ∀ wk d, T wk { wk with backoffUntil := d }
  report : ∀ wk names, T wk (wk.report names)
  baseline : ∀ wk names, T wk (wk.baseline names)
  indicate : ∀ wk payload, T wk (wk.indicate payload)
  heed : ∀ wk payload, T wk (wk.heed payload)
  unpark : ∀ wk, T wk { wk with indications := [] }
  queue : ∀ payload wk, T wk (wk.queueIndication payload)
  head : ∀ wk c, T wk { wk with head := c }

/-- `T`, between the workers of two states. -/
def OnWorker (T : Worker → Worker → Prop) (s t : St W) : Prop := T s.wk t.wk

instance {T : Worker → Worker → Prop} [IsPreorder Worker T] :
    IsPreorder (St W) (OnWorker T) where
  refl s := Std.Refl.refl (r := T) s.wk
  trans _ _ _ h h' := IsTrans.trans (r := T) _ _ _ h h'

/-- To drain the parked indications is to hand each to the tracker. -/
theorem WorkerSteps.parked {T : Worker → Worker → Prop} [IsPreorder Worker T]
    (h : WorkerSteps T) (wk : Worker) : T wk wk.drainIndications := by
  have hfold : ∀ (ps : List Bytes) (wk' : Worker), T wk' (ps.foldl Worker.indicate wk') := by
    intro ps
    induction ps with
    | nil => exact fun wk' => Std.Refl.refl (r := T) wk'
    | cons p ps ih => exact fun wk' => IsTrans.trans (r := T) _ _ _ (h.indicate wk' p) (ih _)
  exact IsTrans.trans (r := T) _ _ _ (h.unpark wk) (hfold _ _)

theorem WorkerSteps.passClosed {T : Worker → Worker → Prop} [IsPreorder Worker T]
    (h : WorkerSteps T) : PassClosed (W := W) (OnWorker T) := by
  have hrefl : ∀ wk : Worker, T wk wk := Std.Refl.refl
  have hlift : ∀ a b : LinkSt W Worker, T a.user b.user → Lift (OnWorker T) a b :=
    fun a b hab _ _ _ => hab
  have hquiet : QuietClosed (W := W) (OnWorker T) :=
    { world := fun s w => hrefl _
      calls := fun s calls => hrefl _
      books := fun s wk hwk => h.books _ _ hwk
      stored := fun s d _ => h.stored _ _
      report := fun s names => h.report _ _
      baseline := fun s names => h.baseline _ _
      parked := fun s => h.parked _
      wire := fun s e _ => hrefl _
      keepaliveTake := fun addr vr f _ =>
        moves_keepaliveTake (fun s w => hlift _ _ (hrefl _)) (fun s e _ => hlift _ _ (hrefl _))
          (fun s l _ => hlift _ _ (hrefl _)) (fun s pl => h.heed s.wk pl) addr vr f
      drainTake := fun f =>
        moves_drainTake (fun s w => hlift _ _ (hrefl _)) (fun s e _ => hlift _ _ (hrefl _))
          (fun s l _ => hlift _ _ (hrefl _)) f }
  have hframes : FrameClosed (W := W) (OnWorker T) :=
    { hquiet with
      log := fun s e _ => hrefl _
      link := fun s l l' _ _ => hrefl _
      iFrame := fun p addr m t ns x f =>
        moves_onIFrame (fun s w => hlift _ _ (hrefl _)) (fun s e _ _ => hlift _ _ (hrefl _))
          (fun s l _ => hlift _ _ (hrefl _)) (fun pl s => hlift _ _ (h.queue pl s.user)) ns x f }
  have hsteps : StepClosed (W := W) (OnWorker T) :=
    { hframes.busClosed with
      state := fun s _ _ => h.state _ _ _
      address := fun s _ _ => h.address _ _ _
      opened := fun s => hrefl _
      closed := fun s => hrefl _
      dropped := fun s => hrefl _
      armed := fun s d => h.armed _ _ }
  exact hsteps.passClosed (fun s sh => hrefl _) fun s c => h.head _ _

/-! ## The fold -/

/-- The alarm edges emitted after the first `n` events. -/
def Worker.alarmsSince (wk : Worker) (n : ℕ) : List AlarmEvent := alarmsOf (wk.emitted.drop n)

/-- The records of what was emitted and of the silent baselines only grow. -/
def Grows (wk wk' : Worker) : Prop := wk.emitted <+: wk'.emitted ∧ wk.silent <+: wk'.silent

/-- Folding the edges emitted since the first baseline over it gives the active set,
if no later baseline changed the set in silence. -/
def Folds (wk : Worker) : Prop :=
  ∀ b rest, wk.silent = b :: rest → (∀ c ∈ rest, c.new = c.old) →
    b.emitted ≤ wk.emitted.length ∧
      foldAlarms b.new (wk.alarmsSince b.emitted) = wk.alarms.active

/-- The edges among these events and those. -/
theorem alarmsOf_append (es fs : List Event) : alarmsOf (es ++ fs) = alarmsOf es ++ alarmsOf fs :=
  List.filterMap_append ..

/-- Edges that are emitted are the edges among what is emitted. -/
theorem alarmsOf_map_alarm (es : List AlarmEvent) : alarmsOf (es.map .alarm) = es := by
  induction es with
  | nil => rfl
  | cons e es ih =>
      show e :: alarmsOf (es.map .alarm) = e :: es
      rw [ih]

/-- What is emitted now, a listener has after what it has. -/
theorem Worker.alarmsSince_append {wk wk' : Worker} {es : List Event} {n : ℕ}
    (h : wk'.emitted = wk.emitted ++ es) (hn : n ≤ wk.emitted.length) :
    wk'.alarmsSince n = wk.alarmsSince n ++ alarmsOf es := by
  rw [Worker.alarmsSince, h, List.drop_append_of_le_length hn, alarmsOf_append]
  rfl

/-- The fold goes on with the edges that lead to the new active set. -/
theorem Folds.emit {wk wk' : Worker} (h : Folds wk) {es : List Event}
    (he : wk'.emitted = wk.emitted ++ es) (hs : wk'.silent = wk.silent)
    (ha : foldAlarms wk.alarms.active (alarmsOf es) = wk'.alarms.active) : Folds wk' := by
  intro b rest hb hrest
  obtain ⟨hle, hf⟩ := h b rest (hs ▸ hb) hrest
  refine ⟨by rw [he, List.length_append]; omega, ?_⟩
  rw [Worker.alarmsSince_append he hle, foldAlarms_append, hf, ha]

/-- The tracker returns edges that lead to its new set. -/
theorem Folds.track {wk : Worker} (h : Folds wk) {r : List AlarmEvent × AlarmTracker}
    (hr : foldAlarms wk.alarms.active r.1 = r.2.active) : Folds (wk.track r) :=
  h.emit rfl rfl (by rw [alarmsOf_map_alarm]; exact hr)

theorem Folds.indicate {wk : Worker} (h : Folds wk) (payload : Bytes) :
    Folds (wk.indicate payload) :=
  Folds.emit h rfl rfl (by rw [alarmsOf_map_alarm]; exact foldAlarms_indicate _ _)

/-- A silent baseline emits nothing, and is on record if it changed the set. -/
theorem Folds.baseline {wk : Worker} (h : Folds wk) (names : List String) :
    Folds (wk.baseline names) := by
  intro b rest hb hrest
  cases hs : wk.silent with
  | nil =>
      have hb' : [(⟨wk.alarms.active, reported names.toFinset, wk.emitted.length⟩ : Silent)] =
          b :: rest := by
        rw [← hb]
        show _ = wk.silent ++ _
        rw [hs]
        rfl
      cases hb'
      refine ⟨le_rfl, ?_⟩
      rw [Worker.alarmsSince, show (wk.baseline names).emitted = wk.emitted from rfl,
        List.drop_length]
      rfl
  | cons b₀ rest₀ =>
      have hb' : b₀ :: (rest₀ ++ [⟨wk.alarms.active, reported names.toFinset,
          wk.emitted.length⟩]) = b :: rest := by
        rw [← hb]
        show _ = wk.silent ++ _
        rw [hs]
        rfl
      obtain ⟨rfl, rfl⟩ := List.cons.inj hb'
      obtain ⟨hle, hf⟩ := h b₀ rest₀ hs fun c hc => hrest c (List.mem_append_left _ hc)
      have hnew := hrest _ (List.mem_append_right _ (List.mem_singleton_self _))
      exact ⟨hle, hf.trans hnew.symm⟩

/-- No method of the worker breaks the fold. -/
theorem folds_steps : WorkerSteps (Keeps Folds) where
  books wk wk' hb h := by
    obtain ⟨es, he, hes⟩ := hb.emitted
    exact Folds.emit h he hb.silent (by rw [hes, hb.alarms]; rfl)
  stored wk d h := h
  state wk state error h := by
    obtain ⟨es, hc, hes⟩ := wk.setState_core state error
    refine Folds.emit h (congrArg Core.emitted hc) (congrArg Core.silent hc) ?_
    rw [hes]
    exact congrArg AlarmTracker.active (congrArg Core.alarms hc).symm
  address wk a b h := h
  armed wk d h := h
  report wk names h := Folds.track h (foldAlarms_snapshot _ _)
  baseline wk names h := Folds.baseline h names
  indicate wk payload h := Folds.indicate h payload
  heed wk payload h := Folds.indicate h payload
  unpark wk h := h
  queue _ wk h := h
  head wk c h := h

instance : IsPreorder Worker Grows where
  refl _ := ⟨List.prefix_refl _, List.prefix_refl _⟩
  trans _ _ _ h h' := ⟨h.1.trans h'.1, h.2.trans h'.2⟩

theorem grows_steps : WorkerSteps Grows where
  books wk wk' hb := by
    obtain ⟨es, he, -⟩ := hb.emitted
    exact ⟨⟨es, he.symm⟩, by rw [hb.silent]⟩
  stored _ _ := ⟨List.prefix_refl _, List.prefix_refl _⟩
  state wk state error := by
    obtain ⟨es, hc, -⟩ := wk.setState_core state error
    have hs : (wk.setState state error).silent = wk.silent := congrArg Core.silent hc
    exact ⟨⟨es, (congrArg Core.emitted hc).symm⟩, by rw [hs]⟩
  address _ _ _ := ⟨List.prefix_refl _, List.prefix_refl _⟩
  armed _ _ := ⟨List.prefix_refl _, List.prefix_refl _⟩
  report _ _ := ⟨List.prefix_append _ _, List.prefix_refl _⟩
  baseline _ _ := ⟨List.prefix_refl _, List.prefix_append _ _⟩
  indicate _ _ := ⟨List.prefix_append _ _, List.prefix_refl _⟩
  heed _ _ := ⟨List.prefix_append _ _, List.prefix_refl _⟩
  unpark _ := ⟨List.prefix_refl _, List.prefix_refl _⟩
  queue _ _ := ⟨List.prefix_refl _, List.prefix_refl _⟩
  head _ _ := ⟨List.prefix_refl _, List.prefix_refl _⟩

/-! ## Heads of the loop -/

/-- The fold gives the active set at every head. -/
theorem folds_head {cfg : Config} {w : W} {s : St W} (h : Head cfg w s) : Folds s.wk := by
  refine (folds_steps).passClosed.run h ?_
  intro b rest hb
  cases hb

/-- An alarm that the fold gains was raised. -/
theorem raised_of_mem_foldAlarms {es : List AlarmEvent} {A : Finset String} {n : String}
    (h : n ∈ foldAlarms A es) (hA : n ∉ A) : ⟨true, n⟩ ∈ es := by
  induction es generalizing A with
  | nil => exact absurd h hA
  | cons e es ih =>
      by_cases he : n ∈ applyAlarm A e
      · have hraised : e = ⟨true, n⟩ := by
          obtain ⟨r, m⟩ := e
          cases r with
          | true =>
              rcases Finset.mem_insert.1 he with rfl | hm
              · rfl
              · exact absurd hm hA
          | false => exact absurd (Finset.mem_of_mem_erase he) hA
        rw [hraised]
        exact List.mem_cons_self ..
      · exact List.mem_cons_of_mem _ (ih h he)

/-- An alarm that the fold loses was cleared. -/
theorem cleared_of_notMem_foldAlarms {es : List AlarmEvent} {A : Finset String} {n : String}
    (h : n ∉ foldAlarms A es) (hA : n ∈ A) : ⟨false, n⟩ ∈ es := by
  induction es generalizing A with
  | nil => exact absurd hA h
  | cons e es ih =>
      by_cases he : n ∈ applyAlarm A e
      · exact List.mem_cons_of_mem _ (ih h he)
      · have hcleared : e = ⟨false, n⟩ := by
          obtain ⟨r, m⟩ := e
          cases r with
          | true => exact absurd (Finset.mem_insert_of_mem hA) he
          | false =>
              by_cases hm : n = m
              · rw [hm]
              · exact absurd (Finset.mem_erase.2 ⟨hm, hA⟩) he
        rw [hcleared]
        exact List.mem_cons_self ..

/-- **Alarm events.**  Let `s` be a head after the first baseline `b` and `t` a later
one.  If every later silent baseline found the set that it replaced, the edges emitted
since `b` fold to the active set, every alarm that appeared between `s` and `t` was
raised in between, and every one that disappeared was cleared. -/
theorem head_alarms {cfg : Config} {w : W} {s t : St W} (hs : Head cfg w s)
    (hrun : Relation.ReflTransGen (Pass cfg) s t) (hfirst : s.wk.silent ≠ []) {b : Silent}
    {rest : List Silent} (hb : t.wk.silent = b :: rest) (hrest : ∀ c ∈ rest, c.new = c.old) :
    foldAlarms b.new (t.wk.alarmsSince b.emitted) = t.wk.alarms.active ∧
    (∀ n ∈ t.wk.alarms.active, n ∉ s.wk.alarms.active →
      ⟨true, n⟩ ∈ t.wk.alarmsSince s.wk.emitted.length) ∧
    ∀ n ∈ s.wk.alarms.active, n ∉ t.wk.alarms.active →
      ⟨false, n⟩ ∈ t.wk.alarmsSince s.wk.emitted.length := by
  obtain ⟨⟨es, hes⟩, hsilent⟩ : Grows s.wk t.wk := (grows_steps).passClosed.run hrun
  obtain ⟨b₀, rest₀, hb₀⟩ := List.exists_cons_of_ne_nil hfirst
  rw [hb, hb₀, List.cons_prefix_cons] at hsilent
  obtain ⟨rfl, hrest₀⟩ := hsilent
  obtain ⟨hle, hf⟩ := folds_head hs b₀ rest₀ hb₀ fun c hc => hrest c (hrest₀.subset hc)
  obtain ⟨-, hf'⟩ := folds_head (hs.trans hrun) b₀ rest hb hrest
  have hsince : t.wk.alarmsSince s.wk.emitted.length = alarmsOf es := by
    rw [Worker.alarmsSince, ← hes, List.drop_left]
  have hfold : foldAlarms s.wk.alarms.active (alarmsOf es) = t.wk.alarms.active := by
    rw [← hf', Worker.alarmsSince_append hes.symm hle, foldAlarms_append, hf]
  rw [hsince]
  refine ⟨hf', fun n hn hns => ?_, fun n hn hnt => ?_⟩
  · exact raised_of_mem_foldAlarms (by rwa [hfold]) hns
  · exact cleared_of_notMem_foldAlarms (by rwa [hfold]) hn

/-! ## Two runs on the bench -/

/-- A short duty cycle. -/
def shortCycle : Config := { monitorPeriod := ms 500, fuel := 5 }

/-- A device that reports the alarms `late` from its `n`-th command on, none before. -/
def alarmsFrom (n : ℕ) (late : Bytes) : Bench ClientCall where
  plan :=
    { answer := fun i pl => deviceAnswer (if i < n then [] else late) pl
      reply := fun _ f => deviceReply f }
  now := ms 60000

/-- The head after the first connection. -/
def firstHead (w : Bench ClientCall) : St (Bench ClientCall) :=
  runPasses shortCycle 1 (St.init w)

/-- The head after the next cycle, which reconnects. -/
def thirdHead (w : Bench ClientCall) : St (Bench ClientCall) :=
  runPasses shortCycle 2 (firstHead w)

theorem head_alarms_quiet :
    foldAlarms ∅ ((thirdHead (alarmsFrom 100 [])).wk.alarmsSince 3) =
      (thirdHead (alarmsFrom 100 [])).wk.alarms.active := by
  have hb : (thirdHead (alarmsFrom 100 [])).wk.silent = ⟨∅, ∅, 3⟩ :: [⟨∅, ∅, 9⟩] := by
    decide +kernel
  exact (head_alarms (reaches_runPasses shortCycle 1 _)
    (reaches_runPasses shortCycle 2 (firstHead _)) (by decide +kernel) hb (by decide)).1

/-- **A swallowed edge.**  The motor jams between two duty cycles.  The silent baseline
of the reconnect puts the alarm into the active set, so the poll of that cycle finds
nothing new: no event is ever emitted. -/
theorem reconnect_swallows_alarm :
    Head shortCycle (alarmsFrom 17 [0x02]) (thirdHead (alarmsFrom 17 [0x02])) ∧
    "MotorJam" ∉ (firstHead (alarmsFrom 17 [0x02])).wk.alarms.active ∧
    "MotorJam" ∈ (runPasses shortCycle 1 (thirdHead (alarmsFrom 17 [0x02]))).wk.alarms.active ∧
    alarmsOf (runPasses shortCycle 1 (thirdHead (alarmsFrom 17 [0x02]))).wk.emitted = [] ∧
    ∃ b ∈ (thirdHead (alarmsFrom 17 [0x02])).wk.silent.head?,
      foldAlarms b.new ((thirdHead (alarmsFrom 17 [0x02])).wk.alarmsSince b.emitted) ≠
        (thirdHead (alarmsFrom 17 [0x02])).wk.alarms.active := by
  refine ⟨(reaches_runPasses shortCycle 1 _).trans (reaches_runPasses shortCycle 2 (firstHead _)),
    ?_⟩
  decide +kernel

end OpenAisg.Session
