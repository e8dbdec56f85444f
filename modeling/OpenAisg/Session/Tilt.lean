import OpenAisg.Session.Walk

/-!
# Device data and tilt commands

What an endpoint that checks an angle against the device data relies on: the device data is
the antenna's, and the angle that was checked is the one that is sent.

* `Sourced`, `swept_head` — at every head of the loop, the device data of the worker came in.
* `Writes` — the log has gone on, and every frame written has a payload of a certain kind.
* `writes_transport`, `writes_proc` — a request writes its message, and RRs.
* `writes_execute` — what `_execute` does around a command writes nothing, so it writes what
  the command does.
* `Sets`, `writes_setTilt` — a `set_tilt` command writes no SetTilt message but that of its
  angle.
-/

namespace OpenAisg.Session

open Hdlc Link Retap Prog

variable {W : Type} [Line W] [Clients W]

/-! ## The device data of the worker -/

/-- The log goes on, and device data that came in stays so. -/
def Sourced (s t : St W) : Prop :=
  s.log <+: t.log ∧ (Swept s.log s.wk.deviceData → Swept t.log t.wk.deviceData)

instance : IsPreorder (St W) Sourced where
  refl _ := ⟨List.prefix_rfl, id⟩
  trans _ _ _ h h' := ⟨h.1.trans h'.1, h'.2 ∘ h.2⟩

omit [Line W] [Clients W] in
/-- The log goes on, and the device data is as before. -/
theorem Sourced.of_prefix {s t : St W} (hl : s.log <+: t.log)
    (hd : t.wk.deviceData = s.wk.deviceData) : Sourced s t :=
  ⟨hl, fun h => hd ▸ h.mono hl⟩

theorem Worker.drainIndications_deviceData (wk : Worker) :
    wk.drainIndications.deviceData = wk.deviceData := by
  have h : ∀ (ps : List Bytes) (wk' : Worker),
      (ps.foldl Worker.indicate wk').deviceData = wk'.deviceData := by
    intro ps
    induction ps with
    | nil => exact fun _ => rfl
    | cons p ps ih => exact fun wk' => ih (wk'.indicate p)
  exact h _ _

theorem Worker.setState_deviceData (wk : Worker) (state : LinkState) (error : String) :
    (wk.setState state error).deviceData = wk.deviceData := by
  obtain ⟨es, hc, -⟩ := wk.setState_core state error
  exact congrArg Core.deviceData hc

omit [Line W] [Clients W] in
theorem sourced_lift {a b : LinkSt W Worker} (hl : a.log <+: b.log)
    (hd : b.user.deviceData = a.user.deviceData) : Lift Sourced a b :=
  fun _ _ _ => Sourced.of_prefix hl hd

omit [Clients W] in
/-- Every kind of step, of which only the sweep stores device data. -/
theorem sourced_frames : FrameClosed (W := W) Sourced where
  world _ _ := Sourced.of_prefix List.prefix_rfl rfl
  calls _ _ := Sourced.of_prefix List.prefix_rfl rfl
  books _ _ h := Sourced.of_prefix List.prefix_rfl h.deviceData
  stored _ _ h := ⟨List.prefix_rfl, fun _ => h⟩
  report _ _ := Sourced.of_prefix List.prefix_rfl rfl
  baseline _ _ := Sourced.of_prefix List.prefix_rfl rfl
  parked s := Sourced.of_prefix List.prefix_rfl s.wk.drainIndications_deviceData
  wire _ _ _ := Sourced.of_prefix (List.prefix_append _ _) rfl
  keepaliveTake addr vr f _ := moves_keepaliveTake (fun _ _ => sourced_lift List.prefix_rfl rfl)
    (fun _ _ _ => sourced_lift (List.prefix_append _ _) rfl)
    (fun _ _ _ => sourced_lift List.prefix_rfl rfl)
    (fun _ _ => Sourced.of_prefix List.prefix_rfl rfl) addr vr f
  drainTake f := moves_drainTake (fun _ _ => sourced_lift List.prefix_rfl rfl)
    (fun _ _ _ => sourced_lift (List.prefix_append _ _) rfl)
    (fun _ _ _ => sourced_lift List.prefix_rfl rfl) f
  log _ _ _ := Sourced.of_prefix (List.prefix_append _ _) rfl
  link _ _ _ _ _ := Sourced.of_prefix List.prefix_rfl rfl
  iFrame _ _ _ _ := moves_onIFrame (fun _ _ => sourced_lift List.prefix_rfl rfl)
    (fun _ _ _ _ => sourced_lift (List.prefix_append _ _) rfl)
    (fun _ _ _ => sourced_lift List.prefix_rfl rfl) fun _ _ => sourced_lift List.prefix_rfl rfl

omit [Clients W] in
theorem sourced_steps : StepClosed (W := W) Sourced where
  toBusClosed := (sourced_frames).busClosed
  state s _ _ := Sourced.of_prefix List.prefix_rfl (s.wk.setState_deviceData _ _)
  address _ _ _ := Sourced.of_prefix List.prefix_rfl rfl
  opened _ := Sourced.of_prefix List.prefix_rfl rfl
  closed _ := Sourced.of_prefix List.prefix_rfl rfl
  dropped _ := Sourced.of_prefix List.prefix_rfl rfl
  armed _ _ := Sourced.of_prefix List.prefix_rfl rfl

theorem sourced_closed : PassClosed (W := W) Sourced :=
  (sourced_steps).passClosed (fun _ _ => Sourced.of_prefix List.prefix_rfl rfl)
    fun _ _ => Sourced.of_prefix List.prefix_rfl rfl

/-- **What the worker stores came in.** -/
theorem swept_head {cfg : Config} {w : W} {s : St W} (h : Head cfg w s) :
    Swept s.log s.wk.deviceData :=
  (sourced_closed.run h).2 (swept_nil _)

/-! ## What a command writes -/

/-- The log has gone on, and the payload of every frame written is of kind `ok`. -/
def Writes (ok : Bytes → Prop) (s t : St W) : Prop :=
  ∃ new, t.log = s.log ++ new ∧ ∀ e ∈ new, ∀ f, e.sent = some f → ok f.payload

variable {ok : Bytes → Prop}

instance : IsPreorder (St W) (Writes ok) where
  refl s := ⟨[], (List.append_nil _).symm, fun _ h => nomatch h⟩
  trans s t u h h' := by
    obtain ⟨new, ht, hnew⟩ := h
    obtain ⟨new', hu, hnew'⟩ := h'
    refine ⟨new ++ new', by rw [hu, ht, List.append_assoc], fun e he => ?_⟩
    exact (List.mem_append.1 he).elim (hnew e) (hnew' e)

omit [Line W] [Clients W] in
/-- Nothing was logged. -/
theorem Writes.of_eq {s t : St W} (h : t.log = s.log) : Writes ok s t :=
  ⟨[], by rw [h, List.append_nil], fun _ h => nomatch h⟩

omit [Line W] [Clients W] in
/-- One event, with its frame if it sent one. -/
theorem Writes.concat {s t : St W} {e : WireEvent} (h : t.log = s.log ++ [e])
    (he : ∀ f, e.sent = some f → ok f.payload) : Writes ok s t :=
  ⟨[e], h, fun _ he' => List.mem_singleton.1 he' ▸ he⟩

omit [Line W] [Clients W] in
/-- A kind that takes in more. -/
theorem Writes.mono {ok' : Bytes → Prop} {s t : St W} (h : Writes ok s t)
    (hok : ∀ p, ok p → ok' p) : Writes ok' s t := by
  obtain ⟨new, ht, hnew⟩ := h
  exact ⟨new, ht, fun e he f hf => hok _ (hnew e he f hf)⟩

omit [Line W] [Clients W] in
/-- The one-shot path logs its frames with their replies, and sends nothing in an exchange. -/
theorem writes_oneShot : OneShot (W := W) (Lift (Writes ok)) where
  world _ _ _ _ _ := Writes.of_eq rfl
  raw _ _ _ _ _ _ := Writes.concat rfl fun _ h => nomatch h
  reset _ _ _ _ _ _ := Writes.of_eq rfl

omit [Clients W] in
/-- A request writes its message and RR frames. -/
theorem writes_transport (cfg : Config) (p : ℕ → Bool → Worker → Worker) (a : Option Byte)
    {m : Bytes} (hm : ok m) (hnil : ok []) (t : Time) :
    Moves (Writes ok) (transport cfg p a m t : WorkerProg W Bytes) := by
  have hcarries : ∀ {e : WireEvent}, e.Carries m → ∀ f, e.sent = some f → ok f.payload := by
    intro e he f hf
    rcases he f hf with h | h
    · exact h ▸ hnil
    · exact h ▸ hm
  have hex : ∀ addr, Exchanging (sessionCall p addr m t) (Lift (W := W) (Writes ok)) := fun addr =>
    { world := fun _ _ _ _ _ => Writes.of_eq rfl
      wire := fun _ _ _ he _ _ _ => Writes.concat rfl (hcarries he)
      link := fun _ _ _ _ _ _ => Writes.of_eq rfl
      poll := fun _ _ _ _ _ _ => Writes.of_eq rfl
      iFrame := moves_onIFrame (fun _ _ _ _ _ => Writes.of_eq rfl)
        (fun _ _ _ he _ _ _ => Writes.concat rfl (hcarries he))
        (fun _ _ _ _ _ _ => Writes.of_eq rfl) fun _ _ _ _ _ => Writes.of_eq rfl
      uFrame := fun x f => by
        refine moves_bind (fun _ _ _ _ => Writes.concat rfl fun _ h => nomatch h) fun _ =>
          moves_ite (fun _ => ?_) fun _ => moves_pure _
        exact moves_bind (fun _ _ _ _ => Writes.of_eq rfl) fun _ =>
          moves_bind (fun _ _ _ _ => Writes.of_eq rfl) fun _ => moves_raise _ }
  cases a with
  | none => exact fun s => Writes.of_eq rfl
  | some a => exact fun s => moves_onLink (moves_exchange (hex a) cfg.fuel) s

omit [Line W] [Clients W] in
/-- A procedure writes its message. -/
theorem writes_proc {r : Ret (St W)} (hr : r.antenna = none)
    (hreq : ∀ m t, ok m → Moves (Writes ok) (r.request m t)) {code : Byte} {data : Bytes}
    (hm : ∀ m, procMessage none code data = .ok m → ok m) (t : Time) :
    Moves (Writes ok) (r.proc code data t) := by
  unfold Ret.proc
  rw [hr]
  cases h : procMessage none code data with
  | error e => exact fun s => Writes.of_eq rfl
  | ok m => exact fun s => moves_bind (hreq m t (hm m h)) (fun _ => moves_ofExcept _) s

omit [Clients W] in
/-- `_release` writes nothing in an exchange: its DISC goes the one-shot way. -/
theorem writes_release : Moves (Writes ok) (release : WorkerProg W Unit) := by
  unfold release
  refine moves_bind (moves_read _) fun _ => moves_onlyIf fun _ =>
    moves_bind (fun _ => Writes.of_eq rfl) fun _ => moves_bind (moves_onOsOrAisg ?_ fun _ =>
      moves_pure _) fun _ => moves_bind ?_ fun _ _ => Writes.of_eq rfl
  · refine moves_bind (moves_read _) fun a => ?_
    cases a with
    | none => exact moves_pure _
    | some a => exact moves_onLink (moves_disconnect writes_oneShot _ _)
  · refine moves_handle (moves_bind (fun _ => Writes.of_eq rfl) fun _ => moves_onLink
      (moves_portOp (fun _ _ _ _ _ => Writes.of_eq rfl) fun _ _ _ _ _ =>
        Writes.of_eq (List.append_nil _))) fun e k hk => ?_
    cases e <;> simp only [reduceCtorEq, Option.some.injEq] at hk
    subst hk
    exact moves_pure _

omit [Clients W] in
/-- Nor does `_fail_link`. -/
theorem writes_failLink (why : String) : Moves (Writes ok) (failLink why : WorkerProg W Unit) := by
  refine moves_bind writes_release fun _ => moves_bind (fun _ => Writes.of_eq rfl) fun _ =>
    moves_bind (fun _ => Writes.of_eq rfl) fun _ => moves_bind (fun _ => Writes.of_eq rfl)
      fun _ => moves_bind (fun _ => Writes.of_eq rfl) fun _ => moves_bind (moves_read _) fun _ => ?_
  exact moves_onlyIf fun _ _ => Writes.of_eq rfl

omit [Line W] in
theorem writes_resolve (seq : ℕ) (o : Except Exn Result) :
    Moves (Writes ok) (resolve seq o : WorkerProg W Unit) := by
  refine moves_bind (fun _ => Writes.of_eq rfl) fun f => ?_
  cases f.state with
  | pending | running => exact fun _ => Writes.of_eq rfl
  | cancelled | notified | finished => exact moves_raise _

/-- What `_execute` does around the command writes nothing. -/
theorem writes_execute {cfg : Config} {cmd : Command}
    (h : ∀ a, Moves (Writes ok) (callCommand (ret cfg a (onPoll cmd.name)) cmd.name cmd.args
      : WorkerProg W Result)) :
    Moves (Writes ok) (execute cfg cmd : WorkerProg W Unit) := by
  refine moves_bind (moves_read _) fun a => moves_bind (moves_onlyIf fun _ =>
    moves_bind (moves_ofExcept _) fun _ _ => Writes.of_eq rfl) fun _ => moves_ensure ?_ ?_
  · refine moves_bind (moves_onReset (moves_bind (h a) fun _ => moves_pure _) (fun e _ => ?_)
      fun e _ => ?_) fun result => ?_
    · exact moves_bind (fun _ => Writes.of_eq rfl) fun _ => moves_bind (writes_failLink _) fun _ =>
        moves_bind (writes_resolve _ _) fun _ => moves_pure _
    · exact moves_bind (fun _ => Writes.of_eq rfl) fun _ =>
        moves_bind (moves_onlyIf fun _ _ => Writes.of_eq rfl) fun _ =>
          moves_bind (writes_resolve _ _) fun _ => moves_pure _
    · cases result with
      | none => exact moves_pure _
      | some x =>
          refine moves_bind (moves_bind (fun _ => Writes.of_eq rfl) fun _ => moves_bind ?_ fun _ _ =>
            Writes.of_eq rfl) fun _ => writes_resolve _ _
          exact fun _ => Writes.of_eq rfl
  · exact moves_bind (fun _ => Writes.of_eq rfl) fun _ => moves_bind (fun _ => Writes.of_eq rfl)
      fun _ _ => Writes.of_eq rfl

/-! ## SetTilt -/

/-- The data of a SetTilt message. -/
def tiltData : Bytes → Option Bytes
  | code :: _ :: _ :: data => if code = setTilt then some data else none
  | _ => none

/-- No SetTilt message, or the one of `n` tenths of a degree. -/
def Sets (n : ℤ) (payload : Bytes) : Prop :=
  ∀ data, tiltData payload = some data → packInt16 n = .ok data

/-- A message without an antenna number is the code, the length and the data. -/
theorem procMessage_none {code : Byte} {data m : Bytes} (h : procMessage none code data = .ok m) :
    ∃ lo hi, m = code :: lo :: hi :: data := by
  unfold procMessage packUint16 at h
  split_ifs at h
  · cases h
    exact ⟨_, _, rfl⟩
  · cases h

/-- **A `set_tilt` command** writes no SetTilt message but that of its angle. -/
theorem writes_setTilt {cfg : Config} {cmd : Command} {degrees : ℚ} (hname : cmd.name = .setTilt)
    (hargs : cmd.args = [("degrees", .float degrees)]) :
    Moves (Writes (Sets (pyRound (degrees * 10)))) (execute cfg cmd : WorkerProg W Unit) := by
  have hnil : Sets (pyRound (degrees * 10)) [] := fun _ h => nomatch h
  refine writes_execute fun a => ?_
  rw [hname, hargs]
  have hreq : ∀ m t, Sets (pyRound (degrees * 10)) m → Moves (Writes (Sets (pyRound (degrees * 10))))
      ((ret cfg a (onPoll .setTilt)).request m t : WorkerProg W Bytes) :=
    fun m t hm => writes_transport cfg _ a hm hnil t
  have hget : Moves (Writes (Sets (pyRound (degrees * 10))))
      (ret cfg a (onPoll .setTilt) : Ret (St W)).getTilt := by
    refine moves_bind (writes_proc rfl hreq (fun m hm => ?_) _) fun _ => moves_ofExcept _
    obtain ⟨lo, hi, rfl⟩ := procMessage_none hm
    exact fun _ h => nomatch h
  have hset : Moves (Writes (Sets (pyRound (degrees * 10))))
      ((ret cfg a (onPoll .setTilt) : Ret (St W)).setTiltUnits (pyRound (degrees * 10))) := by
    unfold Ret.setTiltUnits
    cases hp : packInt16 (pyRound (degrees * 10)) with
    | error e => exact fun s => Writes.of_eq rfl
    | ok data =>
        refine fun s => moves_bind (writes_proc rfl hreq (fun m hm => ?_) _)
          (fun _ => moves_pure _) s
        obtain ⟨lo, hi, rfl⟩ := procMessage_none hm
        intro data' hd
        cases hd
        exact hp
  exact fun s => moves_bind (moves_bind hset fun _ => hget) (fun _ => moves_pure _) s

end OpenAisg.Session
