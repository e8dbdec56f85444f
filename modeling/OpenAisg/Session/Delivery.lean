import OpenAisg.Session.Machine

/-!
# AlarmIndications on their way to the tracker

Three receivers move V(R): `exchange` parks an indication, `_keepalive_poll` hands it to
the tracker, and `_drain` drops it, whatever its N(S).  An indication is acknowledged with
the RR after V(R) has moved, so the device will not send it again.

* `acknowledged` — the indications that V(R) has moved past, read off the log.
* `Delivers` — each of them was handed to the tracker once, or is parked once, and V(R)
  moved past expected frames only.
* `Heeded` — `_drain` took no indication and nothing out of sequence, and the port did not
  fail over the acknowledgement of an indication.
* `Balance` — the invariant: the acknowledged indications are the told ones and the lost ones,
  and the log is heeded exactly if none was lost and V(R) moved past expected frames only.
* `Balance.take` — one I-frame and its acknowledgement; `written`, `plain`, `dropped` and
  `faulted` are its cases.
* `head_delivers` — the one holds exactly when the other does.
-/

namespace OpenAisg.Session

open Hdlc Link Retap Prog Trace

/-! ## The log -/

/-- The indication that V(R) moves past. -/
def alarmOf : WireEvent → Option Bytes
  | .taken _ _ f => if isIndication f.payload then some f.payload else none
  | _ => none

/-- All of them. -/
def acknowledged (log : List WireEvent) : List Bytes := log.filterMap alarmOf

/-- V(R) moves past the I-frame it expects, if it moves. -/
def inSequence : WireEvent → Bool
  | .taken _ vr f => nsOf f.ctrl = vr
  | _ => true

/-- The last event is that V(R) moved past an indication. -/
def owesAlarm (past : List WireEvent) : Bool := ((past.getLast?).bind alarmOf).isSome

/-- An event that loses no indication: `_drain` takes an expected I-frame that is none, and
the port does not fail over the acknowledgement of one. -/
def heeded (past : List WireEvent) : WireEvent → Bool
  | .taken .drain vr f => nsOf f.ctrl = vr && !isIndication f.payload
  | .txFault _ => !owesAlarm past
  | _ => true

/-- No event loses one. -/
def Heeded (log : List WireEvent) : Prop := Always (fun past e => heeded past e = true) log

instance (log : List WireEvent) : Decidable (Heeded log) := inferInstanceAs (Decidable (Always _ log))

/-- V(R) moves. -/
def takes : WireEvent → Bool
  | .taken .. => true
  | _ => false

/-- Where V(R) does not move there is no indication to lose. -/
theorem alarmOf_of_not_takes {e : WireEvent} (h : takes e = false) : alarmOf e = none := by
  cases e with
  | taken who vr f => cases h
  | _ => rfl

theorem inSequence_of_not_takes {e : WireEvent} (h : takes e = false) : inSequence e = true := by
  cases e with
  | taken who vr f => cases h
  | _ => rfl

theorem takes_of_passive {e : WireEvent} (h : e.passive = true) : takes e = false := by
  cases e with
  | taken who vr f => cases h
  | _ => rfl

/-- A receiver that compares N(S) loses nothing by itself. -/
theorem heeded_taken {past : List WireEvent} {who : Receiver} {vr : Seq} {f : Rx}
    (h : who ≠ .drain) : heeded past (.taken who vr f) = true := by
  cases who with
  | drain => exact absurd rfl h
  | _ => rfl

/-- Only the failed acknowledgement of an indication loses one later. -/
theorem heeded_of_not_takes {past : List WireEvent} {e : WireEvent} (h : takes e = false)
    (hp : owesAlarm past = false) : heeded past e = true := by
  cases e with
  | taken who vr f => cases h
  | txFault g => simp [heeded, hp]
  | _ => rfl

/-- Only the last event counts. -/
theorem owesAlarm_concat (past : List WireEvent) (e : WireEvent) :
    owesAlarm (past ++ [e]) = (alarmOf e).isSome := by
  simp [owesAlarm]

/-- The balance between the steps of the worker: the indications that were told, and those
that went missing. -/
structure Balance (told : List Bytes) (log : List WireEvent) : Prop where
  /-- The acknowledgement is written before anything else happens. -/
  rests : ∀ e ∈ log.getLast?, takes e = false
  missing : ∃ lost, (told ++ lost).Perm (acknowledged log) ∧
    (Heeded log ↔ lost = [] ∧ ∀ e ∈ log, inSequence e = true)

namespace Balance

variable {told : List Bytes} {log : List WireEvent}

/-- Before anything has happened nothing is lost. -/
theorem nil : Balance [] [] :=
  ⟨by simp, [], List.Perm.refl _, iff_of_true always_nil ⟨rfl, by simp⟩⟩

/-- In which order they were told does not matter. -/
theorem perm (h : Balance told log) {told' : List Bytes} (hp : told'.Perm told) :
    Balance told' log := by
  obtain ⟨lost, hlost, hiff⟩ := h.missing
  exact ⟨h.rests, lost, (hp.append_right lost).trans hlost, hiff⟩

/-- An event that moves no V(R). -/
theorem concat (h : Balance told log) {e : WireEvent} (he : takes e = false) :
    Balance told (log ++ [e]) := by
  obtain ⟨lost, hlost, hiff⟩ := h.missing
  have howes : owesAlarm log = false := by
    unfold owesAlarm
    cases hlast : log.getLast? with
    | none => rfl
    | some e' => simp [alarmOf_of_not_takes (h.rests e' hlast)]
  refine ⟨fun e' he' => ?_, lost, ?_, ?_⟩
  · rw [List.getLast?_concat] at he'
    cases he'
    exact he
  · unfold acknowledged at hlost ⊢
    rw [List.filterMap_append]
    simpa [alarmOf_of_not_takes he] using hlost
  · unfold Heeded at hiff ⊢
    rw [always_concat, hiff]
    simp [heeded_of_not_takes he howes, inSequence_of_not_takes he, or_imp, forall_and]

/-- An I-frame that V(R) moves past, and its acknowledgement: of an indication it is known
whether it was told or lost. -/
theorem take (h : Balance told log) {a b : WireEvent} {new lost : List Bytes}
    (hperm : (new ++ lost).Perm (alarmOf a).toList) (hb : takes b = false)
    (hiff : heeded log a = true ∧ heeded (log ++ [a]) b = true ↔
      lost = [] ∧ inSequence a = true) :
    Balance (told ++ new) (log ++ [a] ++ [b]) := by
  obtain ⟨old, hold, hiff'⟩ := h.missing
  refine ⟨fun e he => ?_, old ++ lost, ?_, ?_⟩
  · rw [List.getLast?_concat] at he
    cases he
    exact hb
  · have hack : acknowledged (log ++ [a] ++ [b]) = acknowledged log ++ (alarmOf a).toList := by
      unfold acknowledged
      rw [List.filterMap_append, List.filterMap_append]
      cases ha : alarmOf a <;> simp [ha, alarmOf_of_not_takes hb]
    rw [hack]
    refine List.Perm.trans ?_ (hold.append hperm)
    simp only [List.append_assoc]
    exact (List.perm_append_comm_assoc new old lost).append_left told
  · unfold Heeded at hiff' ⊢
    rw [always_concat, always_concat, hiff', and_assoc, hiff, List.append_eq_nil_iff]
    simp only [List.append_assoc, List.mem_append, List.mem_cons, List.not_mem_nil, or_false]
    constructor
    · rintro ⟨⟨hold', hlog⟩, hlost, hina⟩
      refine ⟨⟨hold', hlost⟩, fun e he => ?_⟩
      rcases he with he | rfl | rfl
      · exact hlog e he
      · exact hina
      · exact inSequence_of_not_takes hb
    · rintro ⟨⟨hold', hlost⟩, hall⟩
      exact ⟨⟨hold', fun e he => hall e (Or.inl he)⟩, hlost, hall a (Or.inr (Or.inl rfl))⟩

/-- A receiver that compares N(S), once its acknowledgement is written: an indication is
told next. -/
theorem written (h : Balance told log) {who : Receiver} {vr : Seq} {f : Rx} (hw : who ≠ .drain)
    (hns : nsOf f.ctrl = vr) (g : Frame) :
    Balance (told ++ (alarmOf (.taken who vr f)).toList) (log ++ [.taken who vr f] ++ [.tx g]) :=
  h.take (List.Perm.of_eq (List.append_nil _)) rfl
    (iff_of_true ⟨heeded_taken hw, rfl⟩ ⟨rfl, decide_eq_true hns⟩)

/-- Nothing more is told of this I-frame. -/
theorem untold (h : Balance told log) {a b : WireEvent} (hb : takes b = false)
    (hiff : heeded log a = true ∧ heeded (log ++ [a]) b = true ↔
      (alarmOf a).toList = [] ∧ inSequence a = true) : Balance told (log ++ [a] ++ [b]) := by
  have h' := h.take (List.Perm.of_eq (List.nil_append (alarmOf a).toList)) hb hiff
  exact h'.perm (List.Perm.of_eq (List.append_nil told).symm)

/-- The same, where the port fails over the acknowledgement. -/
theorem faulted (h : Balance told log) {who : Receiver} {vr : Seq} {f : Rx} (hw : who ≠ .drain)
    (hns : nsOf f.ctrl = vr) (g : Frame) :
    Balance told (log ++ [.taken who vr f] ++ [.txFault g]) := by
  refine h.untold rfl ?_
  have hin : inSequence (.taken who vr f) = true := decide_eq_true hns
  rw [heeded_taken hw, hin]
  cases hal : alarmOf (.taken who vr f) <;> simp [heeded, owesAlarm_concat, hal]

/-- An expected I-frame that is no indication. -/
theorem plain (h : Balance told log) {who : Receiver} {vr : Seq} {f : Rx} (hw : who ≠ .drain)
    (hns : nsOf f.ctrl = vr) (hpl : isIndication f.payload = false) {b : WireEvent}
    (hb : takes b = false) : Balance told (log ++ [.taken who vr f] ++ [b]) := by
  have hal : alarmOf (.taken who vr f) = none := by simp [alarmOf, hpl]
  refine h.untold hb (iff_of_true ⟨heeded_taken hw, ?_⟩ ⟨by rw [hal]; rfl, decide_eq_true hns⟩)
  exact heeded_of_not_takes hb (by rw [owesAlarm_concat, hal]; rfl)

/-- `_drain`, whether or not the port fails. -/
theorem dropped (h : Balance told log) {vr : Seq} {f : Rx} {b : WireEvent}
    (hb : takes b = false) : Balance told (log ++ [.taken .drain vr f] ++ [b]) := by
  refine h.untold hb ?_
  by_cases hpl : isIndication f.payload = true
  · simp [heeded, alarmOf, hpl]
  · have hal : alarmOf (.taken .drain vr f) = none := if_neg hpl
    rw [heeded_of_not_takes hb (by rw [owesAlarm_concat, hal]; rfl), hal]
    simp [heeded, inSequence, hpl]

end Balance

/-! ## The worker keeps the balance -/

variable {W : Type}

/-- The indications that the tracker was given, and the parked ones. -/
def Worker.told (wk : Worker) : List Bytes := wk.indicated ++ wk.indications

/-- The balance of a state. -/
def Balanced (s : St W) : Prop := Balance s.wk.told s.log

/-- The balance of a method of the link object. -/
def BalancedOn (s : LinkSt W Worker) : Prop := Balance s.user.told s.log

/-- A method that keeps the balance, as a step of the walk. -/
theorem keeps_balanced {α : Type} {c : LinkProg W Worker α}
    (h : ∀ s, BalancedOn s → wp c (fun _ t => BalancedOn t) (fun _ t => BalancedOn t)
      BalancedOn s) : Moves (Lift (Keeps Balanced)) c := by
  intro s ports n sh hs
  exact (h s hs).leaves

/-- Bookkeeping tells nothing. -/
theorem Books.told {wk wk' : Worker} (h : Books wk wk') : wk'.told = wk.told := by
  unfold Worker.told
  rw [h.indicated, h.indications]

theorem Worker.setState_told (wk : Worker) (state : LinkState) (error : String) :
    (wk.setState state error).told = wk.told := by
  obtain ⟨es, hc, -⟩ := wk.setState_core state error
  exact congrArg (fun c => c.indicated ++ c.indications) hc

theorem Worker.queueIndication_told (wk : Worker) (pl : Bytes) :
    (Worker.queueIndication pl wk).told = wk.told ++ [pl] :=
  (List.append_assoc ..).symm

/-- What the tracker is given is told. -/
theorem Worker.indicate_told (wk : Worker) (pl : Bytes) :
    (wk.indicate pl).told.Perm (wk.told ++ [pl]) := by
  show (wk.indicated ++ [pl] ++ wk.indications).Perm (wk.indicated ++ wk.indications ++ [pl])
  simp only [List.append_assoc]
  exact List.perm_append_comm.append_left _

/-- A parked indication that is drained is told. -/
theorem Worker.drainIndications_told (wk : Worker) : wk.drainIndications.told = wk.told := by
  have h : ∀ (ps : List Bytes) (wk' : Worker), wk'.indications = [] →
      (ps.foldl Worker.indicate wk').told = wk'.indicated ++ ps := by
    intro ps
    induction ps with
    | nil =>
        intro wk' hnil
        exact congrArg (wk'.indicated ++ ·) hnil
    | cons p ps ih =>
        intro wk' hnil
        rw [List.foldl_cons, ih (wk'.indicate p) hnil]
        exact List.append_assoc wk'.indicated [p] ps
  exact h wk.indications { wk with indications := [] } rfl

variable [Line W] [Clients W]

omit [Clients W] in
/-- The I-frame path of a session's exchange. -/
theorem keeps_onIFrame (p : ℕ → Bool → Worker → Worker) (addr : Byte) (m : Bytes) (t : Time)
    (ns : Seq) (x : Flight) (f : Rx) :
    Moves (Lift (Keeps Balanced)) (onIFrame (W := W) (sessionCall p addr m t) ns x f) := by
  refine keeps_balanced fun s hs => ?_
  have hex : (Receiver.exchange m) ≠ .drain := by simp
  unfold onIFrame
  rw [wp_bind, wp_peer, wp_ite]
  refine ⟨fun _ => ?_, fun hns => ?_⟩
  · rw [wp_bind, wp_bump, wp_bind, wp_write]
    exact wp_any (fun _ _ => hs.concat rfl) (fun _ _ => hs.concat rfl) (fun _ => hs.concat rfl) _
  have hns : nsOf f.ctrl = (s.link.peers addr).vr := not_not.1 hns
  rw [wp_bind, wp_logEvent, wp_bind, wp_setPeer]
  have hverdict := retapRouter_indication_iff m.head? f.payload
  have hnone : retapRouter m.head? f.payload ≠ .indication → ∀ b, takes b = false →
      Balance s.user.told
        (s.log ++ [.taken (.exchange m) (s.link.peers addr).vr f] ++ [b]) :=
    fun hne b hb => hs.plain hex hns (by simpa [hverdict] using hne) hb
  simp only [sessionCall]
  cases hr : retapRouter m.head? f.payload with
  | indication =>
      rw [hr] at hverdict
      have hal : alarmOf (.taken (.exchange m) (s.link.peers addr).vr f) = some f.payload :=
        if_pos (hverdict.1 rfl)
      rw [wp_bind, wp_write]
      refine wp_any (fun _ w => ?_) (fun _ w => hs.faulted hex hns _)
        (fun w => hs.faulted hex hns _) _
      have htold := hs.written hex hns (rrFrame addr (nsOf f.ctrl + 1))
      rw [hal] at htold
      rw [wp_bind, wp_callback, wp_bind, wp_monotonic, wp_pure]
      show Balance (Worker.queueIndication f.payload s.user).told _
      rw [Worker.queueIndication_told]
      exact htold
  | accept =>
      have hlog := hnone (by simp [hr])
      rw [wp_bind, wp_write]
      refine wp_any (fun _ w => ?_) (fun _ w => hlog _ rfl) (fun w => hlog _ rfl) _
      rw [wp_bind, wp_onlyIf]
      exact ⟨fun _ => (hlog _ rfl).concat rfl, fun _ => (hlog _ rfl).concat rfl⟩
  | unexpected =>
      have hlog := hnone (by simp [hr])
      rw [wp_bind, wp_write]
      exact wp_any (fun _ w => hlog _ rfl) (fun _ w => hlog _ rfl) (fun w => hlog _ rfl) _

omit [Clients W] in
/-- An I-frame of `_keepalive_poll`. -/
theorem keeps_keepaliveTake (addr : Byte) (vr : Seq) (f : Rx) (hns : nsOf f.ctrl = vr) :
    Moves (Keeps Balanced) (keepaliveTake addr vr f : WorkerProg W Unit) := by
  refine moves_of_wp fun s => ?_
  by_cases hs : Balanced s
  · unfold keepaliveTake
    rw [wp_bind]
    refine wp_onLink (fun _ _ _ => id) fun l hl => ?_
    have hka : Receiver.keepalive ≠ .drain := by simp
    rw [wp_bind, wp_logEvent, wp_bind, wp_setPeer, wp_write]
    refine wp_any (fun _ w => ?_) (fun _ w _ => Balance.faulted hs hka hns _)
      (fun w _ => Balance.faulted hs hka hns _) _
    rw [wp_onlyIf]
    refine ⟨fun hpl _ => ?_, fun hpl _ => Balance.plain hs hka hns hpl rfl⟩
    have hal : alarmOf (.taken .keepalive vr f) = some f.payload := if_pos hpl
    have hw := Balance.written hs hka hns (rrFrame addr (nsOf f.ctrl + 1) false)
    rw [hal] at hw
    exact hw.perm (Worker.indicate_told _ _)
  · exact wp_any (fun _ _ h => absurd h hs) (fun _ _ h => absurd h hs) (fun _ h => absurd h hs) s

omit [Clients W] in
/-- An I-frame of `_drain`. -/
theorem keeps_drainTake (f : Rx) :
    Moves (Lift (Keeps Balanced)) (drainTake f : LinkProg W Worker Unit) := by
  refine keeps_balanced fun s hs => ?_
  have hrx : Balance s.user.told (s.log ++ [.rx .drain f]) := hs.concat rfl
  unfold drainTake
  rw [wp_bind, wp_logEvent, wp_bind, wp_peer, wp_bind, wp_logEvent, wp_bind, wp_setPeer, wp_write]
  exact wp_any (fun _ w => hrx.dropped rfl) (fun _ w => hrx.dropped rfl)
    (fun w => hrx.dropped rfl) _

omit [Line W] [Clients W] in
theorem keeps_of_eq {s t : St W} (hw : t.wk.told = s.wk.told) (hl : t.log = s.log) :
    Keeps Balanced s t := by
  intro hs
  unfold Balanced
  rw [hw, hl]
  exact hs

omit [Clients W] in
/-- Every kind of step keeps the balance, the three receivers by their own lemmas. -/
theorem balanced_frames : FrameClosed (W := W) (Keeps Balanced) where
  world _ _ := id
  calls _ _ := id
  books _ _ h := keeps_of_eq h.told rfl
  stored _ _ _ := id
  report _ _ := id
  baseline _ _ := id
  parked s := keeps_of_eq s.wk.drainIndications_told rfl
  wire _ _ he hs := hs.concat (takes_of_passive (WireEvent.passive_of_quiet he))
  keepaliveTake addr vr f hns := keeps_keepaliveTake addr vr f hns
  drainTake f := keeps_drainTake f
  log _ _ he hs := hs.concat (takes_of_passive he)
  link _ _ _ _ _ := id
  iFrame p addr m t ns x f := keeps_onIFrame p addr m t ns x f

omit [Clients W] in
theorem balanced_steps : StepClosed (W := W) (Keeps Balanced) where
  toBusClosed := (balanced_frames).busClosed
  state s state error := keeps_of_eq (s.wk.setState_told state error) rfl
  address _ _ _ := id
  opened _ := id
  closed _ := id
  dropped _ := id
  armed _ _ := id

theorem balanced_closed : PassClosed (W := W) (Keeps Balanced) :=
  (balanced_steps).passClosed (fun _ _ => id) fun _ _ => id

/-! ## The result -/

/-- Every indication that V(R) has moved past was told, or is parked, and exactly once; and
V(R) has moved past expected frames only. -/
structure Delivers (s : St W) : Prop where
  once : (s.wk.indicated ++ s.wk.indications).Perm (acknowledged s.log)
  sequence : ∀ e ∈ s.log, inSequence e = true

/-- Every head of the loop is balanced. -/
theorem balanced_head {cfg : Config} {w : W} {s : St W} (h : Head cfg w s) : Balanced s :=
  (balanced_closed).run h Balance.nil

/-- **Indications are delivered once**, at every head of the loop and for every behaviour
of the bus and of the other threads, exactly when `_drain` took neither an indication nor a
frame out of sequence, and no acknowledgement of an indication failed. -/
theorem head_delivers {cfg : Config} {w : W} {s : St W} (h : Head cfg w s) :
    Delivers s ↔ Heeded s.log := by
  obtain ⟨lost, hlost, hiff⟩ := (balanced_head h).missing
  rw [hiff]
  refine ⟨fun hd => ⟨?_, hd.sequence⟩, fun ⟨hnil, hall⟩ => ⟨?_, hall⟩⟩
  · have hlen := hlost.length_eq
    have honce : s.wk.told.length = (acknowledged s.log).length := hd.once.length_eq
    rw [List.length_append] at hlen
    exact List.eq_nil_of_length_eq_zero (by omega)
  · rw [hnil, List.append_nil] at hlost
    exact hlost

/-- An AlarmIndication of the device, with N(S) = `ns`. -/
def alarmFrame (ns : Seq) : Rx := fromDevice (iCtrl ns 7) [alarmIndication, 2, 0, 0x02, 1]

/-- A device with an alarm for the first keepalive poll of its session. -/
def alarmAtPoll : Bench ClientCall :=
  { plan :=
    { answer := fun _ => deviceAnswer []
      arrives := fun i => if i = 15 then [alarmFrame 7] else []
      reply := fun _ => deviceReply } }

theorem head_delivers_alarmAtPoll :
    Delivers (runPasses attentive 6 (St.init alarmAtPoll)) :=
  (head_delivers (reaches_runPasses attentive 6 _)).2 (by decide +kernel)

/-- A device that acknowledges a GetTilt and never answers it; while the worker drains, the
I-frame comes in. -/
def alarmInDrain (ns : Seq) : Bench ClientCall :=
  { plan :=
    { answer := fun i m => if i = 15 then none else deviceAnswer [] m
      arrives := fun i => if i = 15 then [fromDevice (rrCtrl 0 true)]
        else if i = 46 then [alarmFrame ns] else []
      reply := fun _ => deviceReply
      calls := fun i => if i = 8 then [.submit .getTilt [] 5 0 (ms 20000)] else [] } }

/-- **An alarm is dropped.**  It is the frame V(R) expects, it is acknowledged, and the
tracker is not told. -/
theorem alarmInDrain_lost :
    let s := runPasses attentive 3 (St.init (alarmInDrain 7))
    Head attentive (alarmInDrain 7) s ∧ s.wk.state = .connected ∧
      (∀ e ∈ s.log, inSequence e = true) ∧ acknowledged s.log = [(alarmFrame 7).payload] ∧
      s.wk.indications = [] ∧ s.wk.indicated = [] :=
  ⟨reaches_runPasses attentive 3 _, by decide +kernel⟩

/-- An I-frame from before moves V(R) back. -/
example : ¬ ∀ e ∈ (runPasses attentive 3 (St.init (alarmInDrain 4))).log,
    inSequence e = true := by
  decide +kernel

end OpenAisg.Session
