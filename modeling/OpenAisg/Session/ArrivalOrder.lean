import Mathlib.Data.Finset.Lattice.Lemmas
import OpenAisg.Session.Baselines

/-!
# Alarm reports in the order of their arrival

An AlarmIndication that comes in before a response is parked, and the tracker is given it
later: after the GetAlarmStatus response that came in after it.  The response lists what is
active when the device answers, so the parked indication is the older news of the two.

* `arrived` — the active set that the reports lead to in the order in which they came in.
* `overtaken` — the indications that were parked when the last GetAlarmStatus response came in.
* `Accounted` — the active and the parked alarms are the arrived and the overtaken ones.
* `accounted_steps` — no method of the worker breaks the account.
* `Confirmed` — the last response lists the alarms of the indications it overtook, or they came
  in once more since.
* `head_arrived_iff` — with nothing parked, the active set is the arrived one exactly then.
* `stale_alarm` — a motor jam that the device has withdrawn stays active.
-/

namespace OpenAisg.Session

open Hdlc Link Retap Prog

/-! ## What came in -/

/-- The alarms of some indications. -/
def alarmsIn (payloads : List Bytes) : Finset String :=
  alarmNames (payloads.flatMap fun pl => pl.drop 3)

@[simp] theorem alarmsIn_nil : alarmsIn [] = ∅ := rfl

/-- The alarms of these and of those. -/
theorem alarmsIn_append (ps qs : List Bytes) : alarmsIn (ps ++ qs) = alarmsIn ps ∪ alarmsIn qs := by
  rw [alarmsIn, List.flatMap_append, alarmNames_append]
  rfl

/-- The active set that these reports lead to, one after the other. -/
def arrived (hs : List Heard) : Finset String :=
  (AlarmTracker.reports {} (hs.map Heard.report)).2.active

/-- A GetAlarmStatus response overtakes what is parked. -/
def overtake (ps : List Bytes) (h : Heard) : List Bytes :=
  match h.report with
  | .snapshot _ => h.parked
  | .indicate _ => ps

/-- The indications that the last GetAlarmStatus response overtook. -/
def overtaken (hs : List Heard) : List Bytes := hs.foldl overtake []

/-- The indication that came in. -/
def Heard.indication (h : Heard) : Option Bytes :=
  match h.report with
  | .snapshot _ => none
  | .indicate pl => some pl

/-- Each alarm of the indications that the last GetAlarmStatus response overtook is listed by
that response, or by an indication that came in after it. -/
def Confirmed (hs : List Heard) : Prop :=
  ∀ past names parked later, hs = past ++ ⟨.snapshot names, parked⟩ :: later →
    (∀ h ∈ later, h.indication ≠ none) →
      alarmsIn parked ⊆ reported names.toFinset ∪ alarmsIn (later.filterMap Heard.indication)

/-- Names of codes other than OK are reported as they are. -/
theorem reported_alarmNames (codes : Bytes) : reported (alarmNames codes) = alarmNames codes := by
  rw [← reported_rcName, reported_reported]

/-- To report two sets is to report them both. -/
theorem reported_union (s t : Finset String) : reported (s ∪ t) = reported s ∪ reported t :=
  Finset.filter_union ..

/-- On a set that a report leaves, an indication adds its alarms. -/
theorem names_indicate {s : Finset String} (h : reported s = s) (pl : Bytes) :
    (Report.indicate pl).names s = s ∪ alarmsIn [pl] := by
  simp only [Report.names, reported_rcName, reported_union, h, reported_alarmNames]
  simp [alarmsIn]

section Arrived

variable (hs : List Heard) (h : Heard)

/-- One report more. -/
theorem arrived_concat : arrived (hs ++ [h]) = h.report.names (arrived hs) := by
  simp only [arrived, List.map_append, List.map_cons, List.map_nil, reports_append,
    AlarmTracker.reports, report_eq]

/-- A response overtakes what is parked, and an indication nothing. -/
theorem overtaken_concat : overtaken (hs ++ [h]) = overtake (overtaken hs) h := by
  simp [overtaken]

/-- What arrived holds neither the empty name nor `OK`. -/
theorem reported_arrived : reported (arrived hs) = arrived hs := by
  induction hs using List.reverseRecOn with
  | nil => rfl
  | append_singleton hs h _ => rw [arrived_concat, Report.names_subset]

/-- After an indication. -/
theorem heard_indicate (pl : Bytes) (ps : List Bytes) :
    arrived (hs ++ [⟨.indicate pl, ps⟩]) = arrived hs ∪ alarmsIn [pl] ∧
      overtaken (hs ++ [⟨.indicate pl, ps⟩]) = overtaken hs := by
  rw [arrived_concat, overtaken_concat]
  exact ⟨names_indicate (reported_arrived hs) pl, rfl⟩

end Arrived

/-- After a GetAlarmStatus response and then indications only. -/
theorem since_status (past : List Heard) (names : List String) (parked : List Bytes)
    {later : List Heard} (hl : ∀ h ∈ later, h.indication ≠ none) :
    arrived (past ++ ⟨.snapshot names, parked⟩ :: later) =
        reported names.toFinset ∪ alarmsIn (later.filterMap Heard.indication) ∧
      overtaken (past ++ ⟨.snapshot names, parked⟩ :: later) = parked := by
  induction later using List.reverseRecOn with
  | nil =>
      rw [arrived_concat, overtaken_concat]
      exact ⟨(Finset.union_empty _).symm, rfl⟩
  | append_singleton later h ih =>
      obtain ⟨harr, hover⟩ := ih fun h' hh' => hl h' (List.mem_append_left _ hh')
      have hlast := hl h (List.mem_append_right _ (List.mem_singleton_self h))
      have hassoc : past ++ ⟨.snapshot names, parked⟩ :: (later ++ [h]) =
          (past ++ ⟨.snapshot names, parked⟩ :: later) ++ [h] := by simp
      rw [hassoc]
      obtain ⟨r, ps⟩ := h
      cases r with
      | snapshot names' => exact absurd rfl hlast
      | indicate pl =>
          obtain ⟨harr', hover'⟩ := heard_indicate (past ++ ⟨.snapshot names, parked⟩ :: later) pl ps
          refine ⟨?_, hover'.trans hover⟩
          rw [harr', harr, Finset.union_assoc, ← alarmsIn_append]
          simp [Heard.indication]

/-- Nothing has been overtaken, or there is a last GetAlarmStatus response. -/
theorem last_status (hs : List Heard) : overtaken hs = [] ∨ ∃ past names parked later,
    hs = past ++ ⟨.snapshot names, parked⟩ :: later ∧ ∀ h ∈ later, h.indication ≠ none := by
  induction hs using List.reverseRecOn with
  | nil => exact Or.inl rfl
  | append_singleton hs h ih =>
      obtain ⟨r, ps⟩ := h
      cases r with
      | snapshot names => exact Or.inr ⟨hs, names, ps, [], rfl, fun h hh => nomatch hh⟩
      | indicate pl =>
          rcases ih with hnil | ⟨past, names, parked, later, rfl, hl⟩
          · exact Or.inl ((heard_indicate hs pl ps).2.trans hnil)
          · right
            refine ⟨past, names, parked, later ++ [⟨.indicate pl, ps⟩], by simp, fun h hh => ?_⟩
            rcases List.mem_append.1 hh with hh | hh
            · exact hl h hh
            · rw [List.mem_singleton.1 hh]
              exact Option.some_ne_none pl

/-- The condition, in terms of what arrived. -/
theorem confirmed_iff {hs : List Heard} : Confirmed hs ↔ alarmsIn (overtaken hs) ⊆ arrived hs := by
  constructor
  · intro h
    rcases last_status hs with hnil | ⟨past, names, parked, later, rfl, hl⟩
    · simp [hnil]
    · obtain ⟨harr, hover⟩ := since_status past names parked hl
      rw [harr, hover]
      exact h past names parked later rfl hl
  · rintro h past names parked later rfl hl
    obtain ⟨harr, hover⟩ := since_status past names parked hl
    rwa [harr, hover] at h

/-! ## The account -/

/-- The active alarms and the parked ones are the arrived ones and the overtaken ones. -/
structure Accounted (wk : Worker) : Prop where
  clean : reported wk.alarms.active = wk.alarms.active
  sum : wk.alarms.active ∪ alarmsIn wk.indications =
    arrived wk.heard ∪ alarmsIn (overtaken wk.heard)

namespace Accounted

variable {wk wk' : Worker}

/-- What the account is about is as before. -/
theorem of_eq (h : Accounted wk) (ha : wk'.alarms = wk.alarms)
    (hi : wk'.indications = wk.indications) (hh : wk'.heard = wk.heard) : Accounted wk' := by
  refine ⟨?_, ?_⟩
  · rw [ha]
    exact h.clean
  · rw [ha, hi, hh]
    exact h.sum

/-- Writing the state is not about alarms. -/
theorem setState (h : Accounted wk) (state : LinkState) (error : String) :
    Accounted (wk.setState state error) := by
  obtain ⟨es, hc, -⟩ := wk.setState_core state error
  exact h.of_eq (congrArg Core.alarms hc) (congrArg Core.indications hc) (congrArg Core.heard hc)

/-- A GetAlarmStatus response replaces both sides. -/
theorem status (wk : Worker) {names : List String} (ha : wk'.alarms.active = reported names.toFinset)
    (hi : wk'.indications = wk.indications)
    (hh : wk'.heard = wk.heard ++ [⟨.snapshot names, wk.indications⟩]) : Accounted wk' := by
  refine ⟨?_, ?_⟩
  · rw [ha, reported_reported]
  · rw [hh, arrived_concat, overtaken_concat, ha, hi]
    rfl

theorem report (wk : Worker) (names : List String) : Accounted (wk.report names) :=
  status wk rfl rfl rfl

theorem baseline (wk : Worker) (names : List String) : Accounted (wk.baseline names) :=
  status wk rfl rfl rfl

/-- An indication is parked. -/
theorem queue (h : Accounted wk) (pl : Bytes) : Accounted (Worker.queueIndication pl wk) := by
  obtain ⟨harr, hover⟩ := heard_indicate wk.heard pl wk.indications
  have ha : (Worker.queueIndication pl wk).alarms = wk.alarms := rfl
  have hi : (Worker.queueIndication pl wk).indications = wk.indications ++ [pl] := rfl
  have hh : (Worker.queueIndication pl wk).heard =
      wk.heard ++ [⟨.indicate pl, wk.indications⟩] := rfl
  refine ⟨h.clean, ?_⟩
  rw [ha, hi, hh, harr, hover, alarmsIn_append, ← Finset.union_assoc, h.sum,
    Finset.union_right_comm]

/-- An indication goes to the tracker. -/
theorem indicate_active (h : reported wk.alarms.active = wk.alarms.active) (pl : Bytes) :
    (wk.indicate pl).alarms.active = wk.alarms.active ∪ alarmsIn [pl] :=
  names_indicate h pl

/-- An indication of the keepalive poll. -/
theorem heed (h : Accounted wk) (pl : Bytes) : Accounted (wk.heed pl) := by
  obtain ⟨harr, hover⟩ := heard_indicate wk.heard pl wk.indications
  have ha : (wk.heed pl).alarms = (wk.indicate pl).alarms := rfl
  have hi : (wk.heed pl).indications = wk.indications := rfl
  have hh : (wk.heed pl).heard = wk.heard ++ [⟨.indicate pl, wk.indications⟩] := rfl
  refine ⟨reported_reported _, ?_⟩
  rw [ha, hi, hh, harr, hover, indicate_active h.clean, Finset.union_right_comm, h.sum,
    Finset.union_right_comm]

/-- The parked indications go to the tracker. -/
theorem drained (h : Accounted wk) : Accounted wk.drainIndications := by
  have hfold : ∀ (ps : List Bytes) (wk' : Worker), reported wk'.alarms.active = wk'.alarms.active →
      (ps.foldl Worker.indicate wk').alarms.active = wk'.alarms.active ∪ alarmsIn ps ∧
        (ps.foldl Worker.indicate wk').indications = wk'.indications ∧
        (ps.foldl Worker.indicate wk').heard = wk'.heard := by
    intro ps
    induction ps with
    | nil => exact fun wk' _ => ⟨(Finset.union_empty _).symm, rfl, rfl⟩
    | cons p ps ih =>
        intro wk' hclean
        obtain ⟨ha, hi, hh⟩ := ih (wk'.indicate p) (reported_reported _)
        refine ⟨?_, hi, hh⟩
        rw [List.foldl_cons, ha, indicate_active hclean, Finset.union_assoc, ← alarmsIn_append]
        rfl
  obtain ⟨ha, hi, hh⟩ := hfold wk.indications { wk with indications := [] } h.clean
  have hactive : wk.drainIndications.alarms.active =
      arrived wk.heard ∪ alarmsIn (overtaken wk.heard) := ha.trans h.sum
  have hclean : reported wk.drainIndications.alarms.active = wk.drainIndications.alarms.active := by
    rw [hactive, reported_union, reported_arrived, alarmsIn, reported_alarmNames]
  refine ⟨hclean, ?_⟩
  rw [hactive, show wk.drainIndications.indications = [] from hi,
    show wk.drainIndications.heard = wk.heard from hh, alarmsIn_nil, Finset.union_empty]

end Accounted

variable {W : Type} [Line W] [Clients W]

omit [Clients W] in
/-- No method of the worker breaks the account. -/
theorem accounted_frames : FrameClosed (W := W) (Keeps fun s => Accounted s.wk) where
  world _ _ := id
  calls _ _ := id
  books _ _ hb h := h.of_eq hb.alarms hb.indications hb.heard
  stored _ _ _ h := h.of_eq rfl rfl rfl
  report s names _ := Accounted.report s.wk names
  baseline s names _ := Accounted.baseline s.wk names
  parked _ h := h.drained
  wire _ _ _ := id
  keepaliveTake addr vr f _ := moves_keepaliveTake (fun _ _ _ _ _ => id)
    (fun _ _ _ _ _ _ => id) (fun _ _ _ _ _ _ => id) (fun _ pl h => h.heed pl) addr vr f
  drainTake f := moves_drainTake (fun _ _ _ _ _ => id) (fun _ _ _ _ _ _ => id)
    (fun _ _ _ _ _ _ => id) f
  log _ _ _ := id
  link _ _ _ _ _ := id
  iFrame _ _ _ _ ns x f := moves_onIFrame (fun _ _ _ _ _ => id) (fun _ _ _ _ _ _ _ => id)
    (fun _ _ _ _ _ _ => id) (fun pl _ _ _ _ h => h.queue pl) ns x f

omit [Clients W] in
theorem accounted_steps : StepClosed (W := W) (Keeps fun s => Accounted s.wk) where
  toBusClosed := (accounted_frames).busClosed
  state _ state error h := h.setState state error
  address _ _ _ h := h.of_eq rfl rfl rfl
  opened _ := id
  closed _ := id
  dropped _ := id
  armed _ _ h := h.of_eq rfl rfl rfl

theorem accounted_closed : PassClosed (W := W) (Keeps fun s => Accounted s.wk) :=
  (accounted_steps).passClosed (fun _ _ => id) fun _ _ h => h.of_eq rfl rfl rfl

/-- **Reports in their order.**  At every head of the loop, and after the pass that follows it
however that ends: when no indication is parked, the active set is the one that the reports lead
to in the order in which they came in if and only if each alarm of the indications that the last
GetAlarmStatus response overtook is listed by it or came in after it. -/
theorem head_arrived_iff {cfg : Config} {w : W} {s t : St W} (h : Head cfg w s)
    (ht : t = s ∨ t = (runPass cfg s).2) (hq : t.wk.indications = []) :
    t.wk.alarms.active = arrived t.wk.heard ↔ Confirmed t.wk.heard := by
  have hs : Accounted s.wk := (accounted_closed).run h ⟨rfl, rfl⟩
  have hacc : Accounted t.wk := by
    rcases ht with rfl | rfl
    · exact hs
    · exact (accounted_closed).runPass cfg s hs
  have hactive : t.wk.alarms.active = arrived t.wk.heard ∪ alarmsIn (overtaken t.wk.heard) := by
    rw [← hacc.sum, hq, alarmsIn_nil, Finset.union_empty]
  rw [hactive, confirmed_iff, Finset.union_eq_left]

/-! ## A motor jam during a poll -/

/-- A device that sends the indication of a motor jam before the response of the first alarm
poll, which lists `listed`. -/
def jamBeforeStatus (listed : Bytes) : Bench ClientCall where
  plan :=
    { answer := fun i pl => if i < 15 then deviceAnswer [] pl else none
      arrives := fun i =>
        if i = 15 then [fromDevice (iCtrl 7 0) [alarmIndication, 1, 0, 0x02],
          fromDevice (iCtrl 0 0) (okResponse getAlarmStatus listed)]
        else if i = 16 then [fromDevice (iCtrl 1 1) (okResponse Retap.getTilt [30, 0])]
        else []
      reply := fun _ => deviceReply }
  now := ms 60000

theorem head_arrived_jammed :
    let s := runPasses shortCycle 2 (St.init (jamBeforeStatus [0x02]))
    s.wk.alarms.active = arrived s.wk.heard ∧ Confirmed s.wk.heard := by
  have hq : (runPasses shortCycle 2 (St.init (jamBeforeStatus [0x02]))).wk.indications = [] := by
    decide +kernel
  have heq : (runPasses shortCycle 2 (St.init (jamBeforeStatus [0x02]))).wk.alarms.active =
      arrived (runPasses shortCycle 2 (St.init (jamBeforeStatus [0x02]))).wk.heard := by
    decide +kernel
  exact ⟨heq, (head_arrived_iff (reaches_runPasses shortCycle 2 _) (Or.inl rfl) hq).1 heq⟩

/-- **A stale alarm.**  The jam is over when the device answers the poll, but the parked
indication is applied after the response: the worker closes the link with the alarm active. -/
theorem stale_alarm :
    let s := runPasses shortCycle 2 (St.init (jamBeforeStatus []))
    Head shortCycle (jamBeforeStatus []) s ∧ s.wk.indications = [] ∧
      s.wk.heard.map Heard.report =
        [.snapshot [], .indicate [alarmIndication, 1, 0, 0x02], .snapshot []] ∧
      s.wk.alarms.active = {"MotorJam"} ∧ arrived s.wk.heard = ∅ :=
  ⟨reaches_runPasses shortCycle 2 _, by decide +kernel⟩

end OpenAisg.Session
