import OpenAisg.Lib.Trace
import OpenAisg.Session.Bench
import OpenAisg.Session.Walk

/-!
# The state machine and its port

At a head of the loop the state of the session, the link object and the port go
together: the worker is `Up` or `Down`.  In between they need not, and an exception can
cut a method short anywhere; what holds even then is `Weak`, and it is enough for the
catch-all handler of `run` to put things right.

* `Held`, `Shut`, `Weak` — the port is open and the link object is its owner; neither
  is there; and what holds of the two at any moment, also when an exception cuts a
  method short.
* `Keep`, `Resettable` — what an operation on the bus leaves alone, and how a DM or
  FRMR ends one.
* `Tallied`, `Swallowing` — the requests that met a DM or FRMR since the SNRM, and the two
  methods that swallow one.
* `Ends` — a method ends in `Q`, or an exception leaves the port with its owner; `Pairs` —
  from a paired state it ends in one.
* `pairs_loopPass` — a pass that starts `Up` or `Down` ends so, whatever it raised.
* `head_paired` — the pairing of states and port at every head.
* `head_connected` — a head in CONNECTED has a live peer, in a run where no DM or FRMR
  reached one of the two methods that swallow it.
-/

namespace OpenAisg.Session

open Hdlc Link Retap Prog Trace

variable {W : Type} [Line W]

/-! ## The port and the link object -/

/-- The states in which the port is free for others. -/
def released : List LinkState := [.closed, .portBusy, .portLost, .noDevices, .backoff, .leased]

/-- No link object, no open port. -/
def Shut (s : St W) : Prop := s.link = none ∧ s.ports = []

/-- One open port, and the link object owns it. -/
def Held (s : St W) : Prop := ∃ l, s.link = some l ∧ s.ports = [l.ident]

/-- The port of the link object is the only one that may be open. -/
def Weak (s : St W) : Prop := Shut s ∨ ∃ l, s.link = some l ∧ (s.ports = [] ∨ s.ports = [l.ident])

omit [Line W] in
/-- A held port has its owner. -/
theorem Held.weak {s : St W} (h : Held s) : Weak s := by
  obtain ⟨l, hl, hp⟩ := h
  exact Or.inr ⟨l, hl, Or.inr hp⟩

omit [Line W] in
/-- A port that is shut needs none. -/
theorem Shut.weak {s : St W} (h : Shut s) : Weak s := Or.inl h

omit [Line W] in
/-- Without a link object nothing is open. -/
theorem Weak.shut {s : St W} (h : Weak s) (hl : s.link = none) : Shut s := by
  rcases h with h | ⟨l, hl', -⟩
  · exact h
  · rw [hl] at hl'
    cases hl'

/-- The session address has a peer that has not dropped the link. -/
def Alive (s : St W) : Prop :=
  ∃ a l, s.wk.address = some a ∧ s.link = some l ∧ (l.peers a).connected = true

/-- A SNRM was sent. -/
def isSnrm : WireEvent → Bool
  | .raw f _ => f.ctrl = ctrlSnrm ||| pf
  | _ => false

/-- A request of `_sweep_device_data` or `_subscribe`, which swallow every
`AisgError`. -/
def Swallowing (m : Bytes) : Prop := m.head? = some getDeviceData ∨ m.head? = some alarmSubscribe

instance (m : Bytes) : Decidable (Swallowing m) := inferInstanceAs (Decidable (_ ∨ _))

/-- The request that a DM or FRMR answered. -/
def resetOf : WireEvent → Option Bytes
  | .rx (.exchange m) f => if isReset f.ctrl then some m else none
  | _ => none

/-- The requests that met a DM or FRMR since the last SNRM. -/
def resetsOf (log : List WireEvent) : List Bytes := (since isSnrm log).filterMap resetOf

variable [Clients W] in
/-- A calm event is no reset. -/
theorem resetsOf_concat {log : List WireEvent} {e : WireEvent} (he : e.calm = true) :
    resetsOf (log ++ [e]) = resetsOf log := by
  have hsnrm : isSnrm e = false := by cases e <;> simp_all [WireEvent.calm, isSnrm]
  have hreset : resetOf e = none := by
    cases e with
    | rx who f => cases who <;> simp_all [WireEvent.calm, resetOf]
    | _ => rfl
  unfold resetsOf
  rw [since_concat_of_not e hsnrm, List.filterMap_append]
  simp [hreset]

/-- The session has an address; its peer is connected exactly when no request met a
reset, and those that did have swallowed it. -/
structure Tallied (s : St W) : Prop where
  address : s.wk.address.isSome = true
  alive : Alive s ↔ resetsOf s.log = []
  swallowed : ∀ m ∈ resetsOf s.log, Swallowing m

/-! ## What an operation on the bus leaves alone -/

/-- The port, its owner and the state. -/
structure Still (s t : St W) : Prop where
  link : t.link.map (·.ident) = s.link.map (·.ident)
  ports : t.ports = s.ports
  state : t.wk.state = s.wk.state

/-- The session address too, also when the peer drops the link. -/
structure Drop (s t : St W) : Prop extends Still s t where
  address : t.wk.address = s.wk.address

/-- And the tally of the peer. -/
structure Keep (s t : St W) : Prop extends Drop s t where
  tally : Tallied s → Tallied t

instance : IsPreorder (St W) Still where
  refl _ := ⟨rfl, rfl, rfl⟩
  trans _ _ _ h h' := ⟨h'.link.trans h.link, h'.ports.trans h.ports, h'.state.trans h.state⟩

instance : IsPreorder (St W) Drop where
  refl s := ⟨Std.Refl.refl (r := Still) s, rfl⟩
  trans _ _ _ h h' := ⟨IsTrans.trans (r := Still) _ _ _ h.toStill h'.toStill,
    h'.address.trans h.address⟩

instance : IsPreorder (St W) Keep where
  refl s := ⟨Std.Refl.refl (r := Drop) s, id⟩
  trans _ _ _ h h' := ⟨IsTrans.trans (r := Drop) _ _ _ h.toDrop h'.toDrop,
    fun ht => h'.tally (h.tally ht)⟩

omit [Line W] in
/-- What leaves the port and its owner alone leaves it held, -/
theorem Still.held {s t : St W} (h : Still s t) (hs : Held s) : Held t := by
  obtain ⟨l, hl, hp⟩ := hs
  have ht := h.link
  rw [hl, Option.map_some, Option.map_eq_some_iff] at ht
  obtain ⟨l', hl', hi⟩ := ht
  exact ⟨l', hl', by rw [h.ports, hp, hi]⟩

omit [Line W] in
/-- or in the hands of its owner. -/
theorem Still.weak {s t : St W} (h : Still s t) (hs : Weak s) : Weak t := by
  have ht := h.link
  rcases hs with ⟨hl, hp⟩ | ⟨l, hl, hp⟩
  · rw [hl, Option.map_none, Option.map_eq_none_iff] at ht
    exact Or.inl ⟨ht, h.ports.trans hp⟩
  · rw [hl, Option.map_some, Option.map_eq_some_iff] at ht
    obtain ⟨l', hl', hi⟩ := ht
    exact Or.inr ⟨l', hl', by rw [h.ports, hi]; exact hp⟩

omit [Line W] in
/-- Only attributes that neither the machine nor the peers are about. -/
theorem Keep.of_eq {s t : St W} (hl : t.link = s.link) (hp : t.ports = s.ports)
    (hs : t.wk.state = s.wk.state) (ha : t.wk.address = s.wk.address)
    (hlog : resetsOf t.log = resetsOf s.log) : Keep s t := by
  refine ⟨⟨⟨by rw [hl], hp, hs⟩, ha⟩, fun ht => ⟨by rw [ha]; exact ht.address, ?_, ?_⟩⟩
  · have halive := ht.alive
    unfold Alive at halive ⊢
    rwa [hl, ha, hlog]
  · rw [hlog]
    exact ht.swallowed

omit [Line W] in
/-- Seen from the link object: no peer is connected or disconnected. -/
theorem keep_alike {a b : LinkSt W Worker} (hl : AisgLink.Alike a.link b.link)
    (hs : b.user.state = a.user.state) (ha : b.user.address = a.user.address)
    (hlog : resetsOf b.log = resetsOf a.log) : Lift Keep a b := by
  intro ports n sh
  refine ⟨⟨⟨congrArg some hl.1, rfl, hs⟩, ha⟩, fun ht =>
    ⟨(congrArg Option.isSome ha).trans ht.address, ?_, fun m hm => ht.swallowed m (hlog ▸ hm)⟩⟩
  have halive := ht.alive
  unfold Alive at halive ⊢
  show (∃ addr l, b.user.address = some addr ∧ some b.link = some l ∧ _) ↔ resetsOf b.log = []
  rw [hlog, ha]
  refine Iff.trans (exists_congr fun addr => ?_) halive
  have hc := hl.2 addr
  constructor
  · rintro ⟨l, haddr, hlink, hconn⟩
    cases hlink
    exact ⟨a.link, haddr, rfl, by rw [← hc]; exact hconn⟩
  · rintro ⟨l, haddr, hlink, hconn⟩
    cases hlink
    exact ⟨b.link, haddr, rfl, by rw [hc]; exact hconn⟩

omit [Line W] in
theorem keep_world (a : LinkSt W Worker) (w : W) : Lift Keep a { a with world := w } :=
  keep_alike ⟨rfl, fun _ => rfl⟩ rfl rfl rfl

omit [Line W] in
theorem keep_log (a : LinkSt W Worker) (e : WireEvent) (he : e.calm = true) :
    Lift Keep a { a with log := a.log ++ [e] } :=
  keep_alike ⟨rfl, fun _ => rfl⟩ rfl rfl (resetsOf_concat he)

omit [Line W] in
theorem keep_link (a : LinkSt W Worker) (l : AisgLink) (hl : AisgLink.Alike a.link l) :
    Lift Keep a { a with link := l } :=
  keep_alike hl rfl rfl rfl

/-- Monitoring and bookkeeping keep everything. -/
theorem keep_closed : QuietClosed (W := W) Keep where
  world _ _ := Keep.of_eq rfl rfl rfl rfl rfl
  calls _ _ := Keep.of_eq rfl rfl rfl rfl rfl
  books _ _ h := Keep.of_eq rfl rfl h.state h.address rfl
  stored _ _ _ := Keep.of_eq rfl rfl rfl rfl rfl
  report _ _ := Keep.of_eq rfl rfl rfl rfl rfl
  baseline _ _ := Keep.of_eq rfl rfl rfl rfl rfl
  parked s := Keep.of_eq rfl rfl s.wk.drainIndications_state s.wk.drainIndications_address rfl
  wire _ _ he := Keep.of_eq rfl rfl rfl rfl (resetsOf_concat (WireEvent.calm_of_quiet he))
  keepaliveTake addr vr f _ := moves_keepaliveTake keep_world keep_log keep_link
    (fun _ _ => Keep.of_eq rfl rfl rfl rfl rfl) addr vr f
  drainTake f := moves_drainTake keep_world keep_log keep_link f

/-! ## Exchanges -/

/-- So does an exchange that no DM or FRMR ends. -/
theorem keep_polling {p : ℕ → Bool → Worker → Worker} (hp : Reports p) (addr : Byte)
    (m : Bytes) (t : Time) : Polling (W := W) (sessionCall p addr m t) (Lift Keep) where
  world := keep_world
  wire a e he _ := keep_log a e (WireEvent.calm_of_quiet he)
  link := keep_link
  poll n acked a := keep_alike ⟨rfl, fun _ => rfl⟩ (hp n acked a.user).state
    (hp n acked a.user).address rfl
  iFrame := moves_onIFrame keep_world (fun a e he _ => keep_log a e he) keep_link
    fun _ _ => keep_alike ⟨rfl, fun _ => rfl⟩ rfl rfl rfl

omit [Line W] in
/-- A reset that is swallowed leaves the tally right. -/
theorem tallied_afterReset {q : Call Worker} {f : Rx} {b : LinkSt W Worker} {ports : List ℕ}
    {n : ℕ} {sh : Shared} (hb : Tallied (around b ports n sh)) (hq : Swallowing q.message)
    (hf : isReset f.ctrl = true) (ha : b.user.address = some q.addr) :
    Tallied (around (afterReset q f b) ports n sh) := by
  have hnot : ¬ Alive (around (afterReset q f b) ports n sh) := by
    rintro ⟨a, l, haddr, hlink, hconn⟩
    have haq : a = q.addr := Option.some.inj (haddr.symm.trans ha)
    cases hlink
    simp [afterReset, haq] at hconn
  have hresets : resetsOf (b.log ++ [WireEvent.rx (.exchange q.message) f]) =
      resetsOf b.log ++ [q.message] := by
    unfold resetsOf
    rw [since_concat_of_not _ rfl, List.filterMap_append]
    simp [resetOf, hf]
  refine ⟨congrArg Option.isSome ha, iff_of_false hnot ?_, ?_⟩
  · show resetsOf (b.log ++ [WireEvent.rx (.exchange q.message) f]) ≠ []
    rw [hresets]
    exact List.append_ne_nil_of_right_ne_nil _ (List.cons_ne_nil _ _)
  · show ∀ m ∈ resetsOf (b.log ++ [WireEvent.rx (.exchange q.message) f]), Swallowing m
    rw [hresets]
    intro m hm
    rcases List.mem_append.1 hm with hm | hm
    · exact hb.swallowed m hm
    · rwa [List.mem_singleton.1 hm]

/-- A transport at the session address keeps everything, unless a link reset is raised;
the methods that swallow one still leave the tally right. -/
def Guarded (a : Option Byte) (r : Ret (St W)) : Prop :=
  ∀ m t s, s.wk.address = a → wp (r.request m t) (fun _ u => Keep s u)
    (fun e u => Keep s u ∨ (e.isReset = true ∧ Drop s u ∧ (Swallowing m → Tallied s → Tallied u)))
    (Keep s) s

/-- The transport of the session is of this kind. -/
theorem guarded_ret (cfg : Config) (a : Option Byte) {p : ℕ → Bool → Worker → Worker}
    (hp : Reports p) : Guarded (W := W) a (ret cfg a p) := by
  intro m t s haddr
  have hrefl : Keep s s := Std.Refl.refl s
  cases a with
  | none => exact Or.inl hrefl
  | some a =>
      refine wp_onLink (fun _ _ _ => Or.inl hrefl) fun l hl => ?_
      have hs : s = around ⟨s.world, l, s.log, s.wk⟩ s.ports s.nextIdent s.shared := by
        obtain ⟨world, log, link, ports, n, sh, wk⟩ := s
        cases hl
        rfl
      have hback : ∀ {b : LinkSt W Worker}, Lift Keep ⟨s.world, l, s.log, s.wk⟩ b →
          Keep s (around b s.ports s.nextIdent s.shared) := by
        intro b hb
        have hk := hb s.ports s.nextIdent s.shared
        rwa [← hs] at hk
      refine ((keep_polling hp a m t).wp_exchange cfg.fuel _).mono (fun _ b hb => hback hb)
        (fun e b hb => ?_) fun b hb => hback hb
      rcases hb with hb | ⟨b', f, hb', hf, he, rfl⟩
      · exact Or.inl (hback hb)
      · have hk := hback hb'
        have hdrop : Drop s (around (afterReset (sessionCall p a m t) f b') s.ports s.nextIdent
            s.shared) := ⟨⟨hk.link, hk.ports, hk.state⟩, hk.address⟩
        exact Or.inr ⟨he, hdrop, fun hm hs =>
          tallied_afterReset (hk.tally hs) hm hf (hk.address.trans haddr)⟩

/-- From a session at address `a`, everything is kept unless a link reset is raised. -/
def Resettable (a : Option Byte) {α : Type} (c : WorkerProg W α) : Prop :=
  ∀ s, s.wk.address = a → wp c (fun _ t => Keep s t)
    (fun e t => Keep s t ∨ (e.isReset = true ∧ Drop s t)) (Keep s) s

/-- `Keep`, from a session at address `a`. -/
def KeepAt (a : Option Byte) (s t : St W) : Prop := s.wk.address = a → Keep s t

instance (a : Option Byte) : IsPreorder (St W) (KeepAt a) where
  refl s _ := Std.Refl.refl s
  trans _ _ _ h h' hs := IsTrans.trans _ _ _ (h hs) (h' ((h hs).address.trans hs))

theorem keepAt_closed (a : Option Byte) : QuietClosed (W := W) (KeepAt a) :=
  (keep_closed).mono fun _ _ h _ => h

section Resettable

variable {α β : Type} {a : Option Byte}

omit [Line W] in
theorem resettable_of_keepAt {c : WorkerProg W α} (h : Moves (KeepAt a) c) : Resettable a c :=
  fun s hs => (h.wp s).mono (fun _ _ h => h hs) (fun _ _ h => Or.inl (h hs)) fun _ h => h hs

omit [Line W] in
theorem resettable_of_keep {c : WorkerProg W α} (h : Moves Keep c) : Resettable a c :=
  resettable_of_keepAt (h.mono fun _ _ h _ => h)

omit [Line W] in
/-- Two parts; the second begins only where no reset was raised. -/
theorem Resettable.bind {c : WorkerProg W α} {f : α → WorkerProg W β} (hc : Resettable a c)
    (hf : ∀ x, Resettable a (f x)) : Resettable a (c >>= f) := by
  intro s hs
  rw [wp_bind]
  refine (hc s hs).mono (fun x t ht => ?_) (fun _ _ h => h) fun _ h => h
  refine (hf x t (ht.address.trans hs)).mono (fun _ u hu => IsTrans.trans _ _ _ ht hu)
    (fun e u hu => ?_) fun u hu => IsTrans.trans _ _ _ ht hu
  exact hu.imp (fun hk => IsTrans.trans _ _ _ ht hk)
    fun hd => ⟨hd.1, IsTrans.trans (r := Drop) _ _ _ ht.toDrop hd.2⟩

omit [Line W] in
theorem Resettable.onlyIf {b : Bool} {c : WorkerProg W Unit} (hc : Resettable a c) :
    Resettable a (onlyIf b c) := by
  cases b with
  | true => exact hc
  | false => exact resettable_of_keep (moves_pure ())

end Resettable

variable [Clients W] in
/-- The message of a procedure begins with its code. -/
theorem procMessage_head {antenna : Option Byte} {code : Byte} {data m : Bytes}
    (h : procMessage antenna code data = .ok m) : m.head? = some code := by
  unfold procMessage at h
  cases hl : packUint16 (antenna.toList.length + data.length) with
  | error e => rw [hl] at h; cases h
  | ok len => rw [hl] at h; cases h; rfl

section Procedures

variable {a : Option Byte} {r : Ret (St W)} (h : Guarded a r)

include h

omit [Line W] in
/-- A request. -/
theorem Guarded.request (m : Bytes) (t : Time) : Resettable a (r.request m t) := fun s hs =>
  (h m t s hs).mono (fun _ _ h => h) (fun _ _ h => h.imp id fun hd => ⟨hd.1, hd.2.1⟩) fun _ h => h

omit [Line W] in
theorem Guarded.proc (code : Byte) (data : Bytes) (t : Time) :
    Resettable a (r.proc code data t) :=
  (resettable_of_keep (moves_ofExcept _)).bind fun _ => (h.request _ _).bind fun _ =>
    resettable_of_keep (moves_ofExcept _)

omit [Line W] in
theorem Guarded.perform (code : Byte) (data : Bytes) (t : Time) :
    Resettable a (r.perform code data t) :=
  (h.proc _ _ _).bind fun _ => resettable_of_keep (moves_pure _)

omit [Line W] in
theorem Guarded.getTilt : Resettable a r.getTilt :=
  (h.proc _ _ _).bind fun _ => resettable_of_keep (moves_ofExcept _)

omit [Line W] in
/-- A procedure whose resets are swallowed keeps everything. -/
theorem Guarded.swallowed {code : Byte} (hc : code = getDeviceData ∨ code = alarmSubscribe)
    (data : Bytes) (t : Time) : Moves (KeepAt a) (r.proc code data t) := by
  unfold Ret.proc
  cases hm : procMessage r.antenna code data with
  | error e => exact moves_raise e
  | ok m =>
      show Moves (KeepAt a)
        (r.request m t >>= fun resp => Link.ofExcept (procResult r.antenna code resp))
      refine moves_bind (moves_of_wp fun s => ?_) fun _ => moves_ofExcept _
      have hsw : Swallowing m := by
        unfold Swallowing
        rw [procMessage_head hm]
        exact hc.imp (congrArg some) (congrArg some)
      by_cases hs : s.wk.address = a
      · refine (h m t s hs).mono (fun _ _ h _ => h) (fun e u hu _ => ?_) fun _ h _ => h
        rcases hu with hk | ⟨-, hd, hu⟩
        · exact hk
        · exact ⟨hd, hu hsw⟩
      · exact wp_any (fun _ _ h => absurd h hs) (fun _ _ h => absurd h hs) (fun _ h => absurd h hs) s

omit [Line W] in
/-- The sweep swallows the resets of its requests. -/
theorem Guarded.getDeviceData (hr : r.antenna = none) (fid : ℕ) :
    Moves (KeepAt a) (r.getDeviceData fid) := by
  refine moves_bind (moves_ofExcept _) fun b => h.swallowed (Or.inl ?_) _ _
  rw [Ret.code, hr]
  rfl

/-- The entry actions. -/
theorem Guarded.entryActions (hr : r.antenna = none) : Resettable a (entryActions r) := by
  have hk := keep_closed (W := W)
  have hm : ∀ {α : Type} {c : WorkerProg W α}, Moves Keep c → Resettable a c := resettable_of_keep
  refine (hm (moves_read _)).bind fun _ => Resettable.bind (Resettable.onlyIf ?_) fun _ => ?_
  · refine Resettable.bind ((h.proc _ _ _).bind fun _ => hm (moves_pure _)) fun _ => ?_
    exact hm (hk.assign fun _ => rfl)
  refine (hm (moves_read _)).bind fun _ => Resettable.bind (Resettable.onlyIf ?_) fun _ => ?_
  · exact (resettable_of_keepAt (moves_sweepDeviceData (h.getDeviceData hr) _)).bind fun _ =>
      hm fun _ => Keep.of_eq rfl rfl rfl rfl rfl
  have hsub : Moves (KeepAt a) (subscribe r) := by
    refine (keepAt_closed a).subscribe ?_
    exact moves_bind (h.swallowed (Or.inr rfl) _ _) fun _ => moves_pure _
  refine (resettable_of_keepAt hsub).bind fun _ =>
    Resettable.bind (hm (hk.assign fun _ => rfl)) fun _ => ?_
  refine Resettable.bind ((h.proc _ _ _).bind fun _ => hm (moves_pure _)) fun names => ?_
  refine (hm fun s => hk.baseline s names).bind fun _ => h.getTilt.bind fun _ => ?_
  exact hm (hk.assign fun _ => rfl)

omit [Line W] in
/-- The commands. -/
theorem Guarded.callCommand (hr : r.antenna = none) (name : CommandName)
    (args : List (String × PyVal)) : Resettable a (callCommand r name args) := by
  have hm : ∀ {α : Type} {c : WorkerProg W α}, Moves Keep c → Resettable a c := resettable_of_keep
  have hsweep : ∀ last, Resettable a (sweepDeviceData r last) := fun last =>
    resettable_of_keepAt (moves_sweepDeviceData (h.getDeviceData hr) last)
  have hperform : ∀ code data t,
      Resettable a (r.perform code data t >>= fun _ => pure Result.none) :=
    fun code data t => (h.perform code data t).bind fun _ => hm (moves_pure _)
  unfold Session.callCommand
  split
  · exact Resettable.bind ((h.proc _ _ _).bind fun _ => hm (moves_pure _)) fun _ => hm (moves_pure _)
  · exact h.getTilt.bind fun _ => hm (moves_pure _)
  · exact Resettable.bind ((h.proc _ _ _).bind fun _ => hm (moves_pure _)) fun _ => hm (moves_pure _)
  · exact (hsweep _).bind fun _ => hm (moves_pure _)
  · exact (hsweep _).bind fun _ => hm (moves_pure _)
  · refine (hm (moves_ofExcept _)).bind fun _ => Resettable.bind (Resettable.bind ?_ fun _ =>
      h.getTilt) fun _ => hm (moves_pure _)
    exact (hm (moves_ofExcept _)).bind fun _ => h.perform _ _ _
  · exact hperform _ _ _
  · exact hperform _ _ _
  · exact hperform _ _ _
  · exact hperform _ _ _
  · exact hm (moves_raise _)

end Procedures

/-! ## Opening, releasing, failing -/

/-- `c` ends in `Q`, or an exception leaves the port with its owner. -/
def Ends {α : Type} (c : WorkerProg W α) (Q : α → St W → Prop) (s : St W) : Prop :=
  wp c Q (fun _ t => Weak t) (fun _ => True) s

section Ends

variable {α β : Type} {c : WorkerProg W α} {s : St W}

omit [Line W]

/-- Two methods in a row. -/
theorem Ends.bind {f : α → WorkerProg W β} {Q : α → St W → Prop} {Q' : β → St W → Prop}
    (hc : Ends c Q s) (hf : ∀ a t, Q a t → Ends (f a) Q' t) : Ends (c >>= f) Q' s := by
  unfold Ends
  rw [wp_bind]
  exact hc.mono (fun a t ht => hf a t ht) (fun _ _ h => h) fun _ h => h

theorem Ends.mono {Q Q' : α → St W → Prop} (h : Ends c Q s) (hQ : ∀ a t, Q a t → Q' a t) :
    Ends c Q' s :=
  wp.mono h hQ (fun _ _ h => h) fun _ h => h

/-- Reading an attribute. -/
theorem ends_self {α β : Type} {f : Worker → α} {g : α → WorkerProg W β} {Q : β → St W → Prop}
    {s : St W} (h : Ends (g (f s.wk)) Q s) : Ends (self f >>= g) Q s := h

/-- What leaves the port alone ends so, whatever it raises. -/
theorem ends_of_still (hc : Moves Still c) (hs : Weak s) : Ends c (fun _ t => Still s t) s :=
  (hc.wp s).mono (fun _ _ h => h) (fun _ _ h => h.weak hs) fun _ _ => trivial

theorem ends_of_keep (hc : Moves Keep c) (hs : Weak s) : Ends c (fun _ t => Keep s t) s :=
  (hc.wp s).mono (fun _ _ h => h) (fun _ _ h => h.toDrop.toStill.weak hs) fun _ _ => trivial

end Ends

omit [Line W] in
theorem still_link (a : LinkSt W Worker) (l : AisgLink) (hl : l.ident = a.link.ident) :
    Lift Still a { a with link := l } := fun _ _ _ => ⟨congrArg some hl, rfl, rfl⟩

/-- The whole bus traffic leaves the port with its owner. -/
theorem still_frames : FrameClosed (W := W) Still where
  world _ _ := ⟨rfl, rfl, rfl⟩
  calls _ _ := ⟨rfl, rfl, rfl⟩
  books _ _ h := ⟨rfl, rfl, h.state⟩
  stored _ _ _ := ⟨rfl, rfl, rfl⟩
  report _ _ := ⟨rfl, rfl, rfl⟩
  baseline _ _ := ⟨rfl, rfl, rfl⟩
  parked s := ⟨rfl, rfl, s.wk.drainIndications_state⟩
  wire _ _ _ := ⟨rfl, rfl, rfl⟩
  keepaliveTake addr vr f _ := moves_keepaliveTake (fun _ _ _ _ _ => ⟨rfl, rfl, rfl⟩)
    (fun _ _ _ _ _ _ => ⟨rfl, rfl, rfl⟩) (fun s l hl => still_link s l hl.1)
    (fun _ _ => ⟨rfl, rfl, rfl⟩) addr vr f
  drainTake f := moves_drainTake (fun _ _ _ _ _ => ⟨rfl, rfl, rfl⟩)
    (fun _ _ _ _ _ _ => ⟨rfl, rfl, rfl⟩) (fun s l hl => still_link s l hl.1) f
  log _ _ _ := ⟨rfl, rfl, rfl⟩
  link _ l l' hl hi := ⟨by rw [hl]; exact congrArg some hi, rfl, rfl⟩
  iFrame p addr m t := moves_onIFrame (fun _ _ _ _ _ => ⟨rfl, rfl, rfl⟩)
    (fun _ _ _ _ _ _ _ => ⟨rfl, rfl, rfl⟩) (fun s l hl => still_link s l hl.1)
    fun _ _ _ _ _ => ⟨rfl, rfl, rfl⟩

theorem still_closed : BusClosed (W := W) Still := (still_frames).busClosed

/-- `close()` gives the port back, even when it raises. -/
theorem wp_closeLink {s : St W} {l : AisgLink} (hl : s.link = some l)
    (hp : s.ports = [] ∨ s.ports = [l.ident]) :
    wp closeLink (fun _ t => (∃ l', t.link = some l') ∧ t.ports = [])
      (fun e t => (∃ msg, e = .osError msg) ∧ (∃ l', t.link = some l') ∧ t.ports = [])
      (fun _ => True) s := by
  unfold closeLink
  rw [wp_bind, wp_modify]
  have hports : s.ports.filter (fun i => some i ≠ s.link.map (·.ident)) = [] := by
    rcases hp with hp | hp <;> simp [hp, hl]
  refine wp_onLink (fun hn => ?_) fun l' hl' => ?_
  · rw [hl] at hn
    cases hn
  · rw [wp_portOp]
    exact wp_any (fun _ _ => ⟨⟨l', rfl⟩, hports⟩) (fun m _ => ⟨⟨m, rfl⟩, ⟨l', rfl⟩, hports⟩)
      (fun _ => trivial) _

/-- `_release` leaves nothing open, also where its DISC raises: the `finally` closes the port. -/
theorem ends_release {s : St W} (h : Weak s) : Ends release (fun _ t => Shut t) s := by
  unfold Ends release
  rw [wp_bind, wp_read, wp_onlyIf]
  refine ⟨fun hsome => ?_, fun hnone => h.shut (by simpa using hnone)⟩
  rw [wp_bind, wp_setState, wp_bind, wp_handle]
  have hs : Weak { s with wk := s.wk.setState .releasing "" } := h
  -- whatever the handler does with other errors: the port raises no others
  have hrest : ∀ (k : Exn → Option (WorkerProg W Unit)), (∀ m, k (.osError m) = some (pure ())) →
      ∀ t : St W, Weak t → t.link.isSome = true → wp (do
        handle closeLink k
        Prog.modify fun s => { s with link := none } : WorkerProg W Unit)
        (fun _ u => Shut u) (fun _ u => Weak u) (fun _ => True) t := by
    intro k hk t ht hl
    rcases ht with ht | ⟨l, hl', hp⟩
    · rw [ht.1] at hl
      cases hl
    rw [wp_bind, wp_handle]
    refine (wp_closeLink hl' hp).mono (fun _ u hu => ?_) (fun e u hu => ?_) fun _ h => h
    · exact ⟨rfl, hu.2⟩
    · obtain ⟨⟨m, rfl⟩, -, hu⟩ := hu
      rw [hk]
      exact ⟨rfl, hu⟩
  have hlink : ∀ t : St W, Still { s with wk := s.wk.setState .releasing "" } t →
      t.link.isSome = true := by
    intro t ht
    rw [← Option.isSome_map, ht.link, Option.isSome_map]
    exact hsome
  refine (Moves.wp (R := Still) (moves_bind (moves_read _) fun a => ?_) _).mono
    (fun _ t ht => hrest _ (fun _ => rfl) t (ht.weak hs) (hlink t ht)) (fun e t ht => ?_)
    fun _ _ => trivial
  · cases a with
    | none => exact moves_pure _
    | some a => exact moves_onLink (moves_disconnect (still_closed).oneShot _ _)
  unfold onOsOrAisg
  split_ifs with he
  · exact hrest _ (fun _ => rfl) t (ht.weak hs) (hlink t ht)
  · exact ht.weak hs

/-! ## Up and down -/

/-- The port is free and the state says so. -/
def Down (s : St W) : Prop := s.wk.state ∈ released ∧ Shut s

/-- The session is on: the port is held, and its peer is connected unless a reset was
swallowed. -/
def Up (s : St W) : Prop :=
  s.wk.state ∈ [LinkState.connected, .draining] ∧ Held s ∧ Tallied s

/-- One or the other. -/
def Paired (s : St W) : Prop := Up s ∨ Down s

omit [Line W] in
/-- Up is paired. -/
theorem Up.paired {s : St W} (h : Up s) : Paired s := Or.inl h

omit [Line W] in
/-- Down is paired. -/
theorem Down.paired {s : St W} (h : Down s) : Paired s := Or.inr h

omit [Line W] in
theorem Paired.weak {s : St W} (h : Paired s) : Weak s :=
  h.elim (fun h => h.2.1.weak) fun h => h.2.weak

omit [Line W] in
/-- What keeps everything keeps a session up. -/
theorem Keep.up {s t : St W} (h : Keep s t) (hs : Up s) : Up t := by
  exact ⟨by rw [h.state]; exact hs.1, h.toStill.held hs.2.1, h.tally hs.2.2⟩

omit [Line W] in
/-- What leaves port and state alone keeps a worker down. -/
theorem Still.down {s t : St W} (h : Still s t) (hs : Down s) : Down t := by
  refine ⟨by rw [h.state]; exact hs.1, ?_, by rw [h.ports]; exact hs.2.2⟩
  have hl := h.link
  rw [hs.2.1] at hl
  simpa using hl

omit [Line W] in
theorem Keep.paired {s t : St W} (h : Keep s t) (hs : Paired s) : Paired t :=
  hs.imp h.up h.toDrop.toStill.down

omit [Line W] in
/-- Write the state. -/
theorem ends_setState {state : LinkState} {error : String} {s : St W}
    {Q : Unit → St W → Prop} (h : Q () { s with wk := s.wk.setState state error }) :
    Ends (setState state error) Q s := h

omit [Line W] in
theorem Down.setState {s : St W} (h : Shut s) {state : LinkState} (hst : state ∈ released)
    (error : String) : Down { s with wk := s.wk.setState state error } :=
  ⟨by rw [Worker.setState_state]; exact hst, h⟩

/-- The states `_arm_backoff` does not overwrite, and BACKOFF. -/
def failed : List LinkState := [.portBusy, .portLost, .noDevices, .backoff]

theorem ends_armBackoff {s : St W} (h : Shut s) (hst : s.wk.state ∈ failed) :
    Ends armBackoff (fun _ t => Down t ∧ t.wk.state = s.wk.state) s := by
  have hr : s.wk.state ∈ released := by
    revert hst
    cases s.wk.state <;> decide
  have hb := still_closed (W := W)
  refine Ends.bind (ends_of_still (hb.assign fun _ => rfl) h.weak) fun _ t₁ h₁ => ?_
  refine Ends.bind (ends_of_still hb.clock (h₁.weak h.weak)) fun now t₂ h₂ => ?_
  have hs₂ : Still s t₂ := IsTrans.trans _ _ _ h₁ h₂
  refine Ends.bind (ends_of_still (fun _ => ⟨rfl, rfl, rfl⟩) (hs₂.weak h.weak)) fun _ t h₃ => ?_
  have hs : Still s t := IsTrans.trans _ _ _ hs₂ h₃
  have hd : Down t := hs.down ⟨hr, h⟩
  unfold Ends
  rw [wp_bind, wp_self, wp_onlyIf]
  refine ⟨fun hback => ?_, fun _ => ⟨hd, hs.state⟩⟩
  have hst' : s.wk.state = .backoff := by
    have hback' : t.wk.state ∉ [LinkState.portBusy, .portLost, .noDevices] := by
      simpa using hback
    rw [hs.state] at hback'
    revert hst hback'
    cases s.wk.state <;> decide
  refine ⟨Down.setState hd.2 (by decide) _, ?_⟩
  exact (Worker.setState_state _ _ _).trans hst'.symm

theorem ends_giveUp {state : LinkState} (hst : state ∈ failed) (error : String) {s : St W}
    (h : Shut s) : Ends (giveUp state error) (fun _ t => Down t ∧ t.wk.state = state) s := by
  refine Ends.bind (ends_setState ?_) fun _ t ht => ht
  have h₁ := ends_armBackoff (s := { s with wk := s.wk.setState state error }) h
    (by rw [Worker.setState_state]; exact hst)
  rw [Worker.setState_state] at h₁
  exact h₁

theorem ends_releaseAndGiveUp {state : LinkState} (hst : state ∈ failed) (error : String)
    {s : St W} (h : Weak s) :
    Ends (releaseAndGiveUp state error) (fun _ t => Down t ∧ t.wk.state = state) s :=
  (ends_release h).bind fun _ _ ht => ends_giveUp hst error ht

/-- `_fail_link` gives the port back and goes to BACKOFF. -/
theorem ends_failLink (why : String) {s : St W} (h : Weak s) :
    Ends (failLink why) (fun _ t => Down t ∧ t.wk.state = .backoff) s :=
  ends_releaseAndGiveUp (by decide) why h

/-- So does the catch-all handler, from wherever an exception comes. -/
theorem ends_lastResort {s : St W} (h : Weak s) :
    Ends lastResort (fun _ t => Down t ∧ t.wk.state = .backoff) s :=
  (ends_failLink _ h).bind fun _ _ ht => ht

/-- `AisgLink(…)`: the port is held, or nothing happened. -/
theorem wp_openLink (cfg : Config) {s : St W} (h : Shut s) :
    wp (openLink cfg) (fun _ t => Held t) (fun _ t => Shut t) (fun _ => True) s := by
  unfold wp openLink
  rcases Line.serialOpen s.world with ⟨r, w⟩
  cases r with
  | error e => exact h
  | ok u =>
      dsimp only
      rcases (Line.setDtr w : Outcome String Unit × W) with ⟨o, w'⟩
      cases o with
      | ret a => exact ⟨_, rfl, by rw [h.2]⟩
      | raise msg => exact h
      | stall => trivial

/-- A UA connects the peer. -/
theorem wp_connect (addr : Byte) {s : St W} (h : Held s) :
    wp (onLink (connect addr))
      (fun _ t => Held t ∧ (∃ l, t.link = some l ∧ (l.peers addr).connected = true) ∧
        resetsOf t.log = [])
      (fun _ t => Held t) (fun _ => True) s := by
  obtain ⟨l₀, hl₀, hp⟩ := h
  refine wp_onLink (fun hn => ?_) fun l hl => ?_
  · rw [hl₀] at hn
    cases hn
  · rw [hl₀] at hl
    cases hl
    have hheld : ∀ b : LinkSt W Worker, b.link.ident = l₀.ident →
        Held (around b s.ports s.nextIdent s.shared) :=
      fun b hb => ⟨b.link, rfl, hp.trans (by rw [hb])⟩
    unfold connect
    rw [wp_bind]
    refine wp_command (fun frames raw w _ => ?_) (fun _ _ _ _ => hheld _ rfl) (fun _ _ => hheld _ rfl)
      fun _ => trivial
    rw [wp_ite]
    refine ⟨fun _ => ?_, fun _ => hheld _ rfl⟩
    rw [wp_setPeer]
    refine ⟨hheld _ rfl, ⟨_, rfl, by simp⟩, ?_⟩
    -- nothing has come in since the SNRM
    have hsince : since isSnrm (s.log ++ [WireEvent.raw ⟨addr, ctrlSnrm ||| pf, []⟩ raw]) = [] :=
      since_concat_of _ (by simp [isSnrm])
    simp only [around, resetsOf, hsince, List.filterMap_nil]

/-! ## Connecting -/

theorem still_clearStaleLinks (cfg : Config) :
    Moves Still (clearStaleLinks cfg : WorkerProg W Unit) := by
  refine moves_bind (moves_read _) fun held => moves_bind (moves_forEach _ fun addr _ =>
    moves_onAisg (moves_bind (moves_ofExcept _) fun a =>
      moves_onLink (moves_disconnect (still_closed).oneShot _ _)) (moves_pure _)) fun _ => ?_
  exact fun s => ⟨rfl, rfl, rfl⟩

/-- An error of a class that `_open_and_connect` catches gives the port back. -/
theorem ends_catch {α : Type} {c : WorkerProg W α} {b : α} {state : Exn → LinkState}
    (hst : ∀ e, state e ∈ failed) {Q : α → St W → Prop} {s : St W}
    (hc : wp c Q (fun _ t => Weak t) (fun _ => True) s) (hb : ∀ t, Down t → Q b t) :
    Ends (handle c fun e =>
      if e.isAisg then some (do releaseAndGiveUp (state e) e.str; pure b) else none) Q s := by
  unfold Ends
  rw [wp_handle]
  refine hc.mono (fun _ _ h => h) (fun e t ht => ?_) fun _ h => h
  split_ifs with he
  · exact (ends_releaseAndGiveUp (hst e) _ ht).bind fun _ u hu => hb u hu.1
  · exact ht

omit [Line W] in
theorem Tallied.setState {s : St W} (h : Tallied s) (state : LinkState) (error : String) :
    Tallied { s with wk := s.wk.setState state error } := by
  refine ⟨(congrArg Option.isSome (Worker.setState_address _ _ _)).trans h.address, ?_,
    h.swallowed⟩
  have halive := h.alive
  unfold Alive at halive ⊢
  rwa [Worker.setState_address]

/-- The entry actions leave a session whose tally is right, or say that the link died. -/
theorem ends_onConnected (cfg : Config) {s : St W} (h : Held s) (ha : Tallied s) :
    Ends (onConnected cfg)
      (fun alive t => if alive = true then Held t ∧ Tallied t else Weak t) s := by
  unfold onConnected
  refine Ends.bind (Q := fun x t => x = s.wk.address ∧ t = s) ⟨rfl, rfl⟩ fun a t ht => ?_
  obtain ⟨rfl, rfl⟩ := ht
  unfold Ends
  rw [wp_handle, wp_bind]
  have hr := (guarded_ret (W := W) cfg t.wk.address reports_nothing).entryActions rfl t rfl
  refine hr.mono (fun _ u hu => ?_) (fun e u hu => ?_) fun _ _ => trivial
  · exact ⟨hu.toStill.held h, hu.tally ha⟩
  unfold onReset
  rcases hu with hk | ⟨he, hd⟩
  · have hheld := hk.toStill.held h
    by_cases hreset : e.isReset = true
    · rw [if_pos hreset]
      exact hheld.weak
    rw [if_neg hreset]
    by_cases haisg : e.isAisg = true
    · rw [if_pos haisg]
      exact ⟨hheld, hk.tally ha⟩
    · rw [if_neg haisg]
      exact hheld.weak
  · rw [if_pos he]
    exact (hd.toStill.held h).weak

/-- The second half of `_open_and_connect`. -/
theorem ends_connectSession (cfg : Config) (addr : Byte) {s : St W} (h : Held s) :
    Ends (connectSession cfg addr) (fun _ t => Paired t) s := by
  unfold connectSession
  refine Ends.bind (ends_setState (Q := fun _ t => Held t) h) fun _ t ht => ?_
  refine Ends.bind (Q := fun up u => if up = true then Held u ∧
      (∃ l, u.link = some l ∧ (l.peers addr).connected = true) ∧ resetsOf u.log = []
      else Down u) ?_ fun up u hu => ?_
  · refine ends_catch (fun _ => by decide) ?_ fun u hu => by simpa using hu
    rw [wp_bind]
    exact (wp_connect addr ht).mono (fun _ u hu => by simpa using hu) (fun _ u hu => hu.weak)
      fun _ h => h
  cases up with
  | false => exact Down.paired (by simpa using hu)
  | true =>
      obtain ⟨hheld, ⟨l, hl, hc⟩, hlog⟩ : Held u ∧
        (∃ l, u.link = some l ∧ (l.peers addr).connected = true) ∧ resetsOf u.log = [] := by
        simpa using hu
      refine Ends.bind (Q := fun _ v => Held v ∧ Tallied v)
        ⟨hheld, rfl, iff_of_true ⟨addr, l, rfl, hl, hc⟩ hlog, fun m hm => ?_⟩ fun _ v hv => ?_
      · have hnil : m ∈ ([] : List Bytes) := hlog ▸ hm
        cases hnil
      -- `false`: the link died, and `_fail_link` follows
      refine (ends_onConnected cfg hv.1 hv.2).bind fun alive w hw => ?_
      cases alive with
      | false =>
          have hweak : Weak w := by simpa using hw
          refine Ends.bind (Q := fun _ x => x = w) rfl fun error x hx => ?_
          rw [hx]
          exact (ends_failLink _ hweak).mono fun _ _ hd => hd.1.paired
      | true =>
          have hw' : Held w ∧ Tallied w := by simpa using hw
          refine Ends.bind (Q := fun _ x => Held x ∧ Tallied x)
            ⟨hw'.1, hw'.2.address, hw'.2.alive, hw'.2.swallowed⟩ fun _ x hx =>
            ends_setState (Or.inl ⟨?_, hx.1, hx.2.setState _ _⟩)
          rw [Worker.setState_state]
          decide

theorem ends_discoverSession (cfg : Config) {s : St W} (h : Held s) :
    Ends (discoverSession cfg) (fun _ t => Paired t) s := by
  unfold discoverSession
  refine Ends.bind (ends_of_still (still_clearStaleLinks cfg) h.weak) fun _ t ht => ?_
  have hheld : Held t := ht.held h
  refine Ends.bind (ends_setState (Q := fun _ u => Held u) hheld) fun _ u hu => ?_
  refine Ends.bind (Q := fun found v => if found = none then Down v else Held v) ?_ fun found v hv => ?_
  · refine ends_catch (fun _ => by decide) ?_ fun v hv => by simpa using hv
    rw [wp_bind]
    refine ((still_closed.discover cfg).wp u).mono (fun a v hv => ?_)
      (fun _ v hv => hv.weak hu.weak) fun _ _ => trivial
    exact hv.held hu
  · rcases found with _ | _ | addr
    · exact Down.paired hv
    · exact (ends_releaseAndGiveUp (by decide) _ (Held.weak (by simpa using hv))).mono
        fun _ _ hd => hd.1.paired
    · exact ends_connectSession cfg addr (by simpa using hv)

variable [Clients W] in
theorem openFailure_failed (e : Exn) : openFailure e ∈ failed := by
  cases e <;> exact List.mem_of_elem_eq_true rfl

variable [Clients W] in
/-- `_open_and_connect` ends with a session, or with the port given back. -/
theorem ends_openAndConnect (cfg : Config) {s : St W} (h : Shut s) :
    Ends (openAndConnect cfg) (fun _ t => Paired t) s := by
  unfold openAndConnect
  refine Ends.bind (ends_setState (Q := fun _ t => Shut t) h) fun _ t ht => ?_
  refine Ends.bind (c := sync) (Q := fun _ u => Shut u) ht fun _ u hu => ?_
  refine Ends.bind (Q := fun up u => if up = true then Held u else Down u) ?_ fun up u hu => ?_
  · unfold Ends
    rw [wp_handle, wp_bind]
    refine (wp_openLink cfg hu).mono (fun _ u hu => by simpa using hu) (fun e u hu => ?_)
      fun _ h => h
    by_cases he : e.isAisg = true
    · rw [if_pos he]
      refine Ends.bind (ends_giveUp (openFailure_failed e) _ hu) fun _ v hv => ?_
      show if false = true then Held v else Down v
      simpa using hv.1
    · rw [if_neg he]
      exact hu.weak
  · cases up with
    | false => exact Down.paired (by simpa using hu)
    | true => exact ends_discoverSession cfg (by simpa using hu)

/-! ## Programs that keep the pairing -/

/-- From a paired state `c` ends in one, or an exception leaves the port with its
owner. -/
def Pairs {α : Type} (c : WorkerProg W α) : Prop :=
  ∀ s, Paired s → Ends c (fun _ t => Paired t) s

section Pairs

variable {α β γ : Type}

omit [Line W] in
theorem pairs_of_keep {c : WorkerProg W α} (h : Moves Keep c) : Pairs c := fun _ hs =>
  (ends_of_keep h hs.weak).mono fun _ _ hk => hk.paired hs

omit [Line W] in
/-- Two programs in a row. -/
theorem Pairs.bind {c : WorkerProg W α} {f : α → WorkerProg W β} (hc : Pairs c)
    (hf : ∀ a, Pairs (f a)) : Pairs (c >>= f) := fun s hs =>
  Ends.bind (hc s hs) fun a t ht => hf a t ht

omit [Line W] in
theorem pairs_pure (a : α) : Pairs (pure a : WorkerProg W α) := fun _ hs => hs

omit [Line W] in
theorem pairs_ite {b : Prop} [Decidable b] {c d : WorkerProg W α} (hc : b → Pairs c)
    (hd : ¬ b → Pairs d) : Pairs (if b then c else d) := by
  by_cases hb : b
  · rw [if_pos hb]
    exact hc hb
  · rw [if_neg hb]
    exact hd hb

omit [Line W] in
theorem pairs_onlyIf {b : Bool} {c : WorkerProg W Unit} (hc : b = true → Pairs c) :
    Pairs (onlyIf b c) := pairs_ite hc fun _ => pairs_pure _

omit [Line W] in
theorem pairs_scan {f : α → γ → WorkerProg W (Step β α)} (hf : ∀ a x, Pairs (f a x))
    (a : α) (xs : List γ) : Pairs (scan f a xs) := by
  intro s hs
  have hpost : ∀ (r : Step β α) (t : St W), Paired t →
      Step.post (fun _ t => Paired t) (fun _ t => Paired t) r t := by
    intro r t ht
    cases r <;> exact ht
  refine (wp_scan (fun _ _ t => Paired t) (D := fun _ t => Paired t) (fun x xs a t ht => ?_) xs a s
    hs).mono (fun r t ht => ?_) (fun _ _ h => h) fun _ h => h
  · exact (hf a x t ht).mono fun r u hu => hpost r u hu
  · cases r <;> exact ht

omit [Line W] in
/-- A handler sees the port with its owner. -/
theorem Pairs.handle {c : WorkerProg W α} {h : Exn → Option (WorkerProg W α)} (hc : Pairs c)
    (hh : ∀ e d, h e = some d → ∀ s, Weak s → Ends d (fun _ t => Paired t) s) :
    Pairs (handle c h) := by
  intro s hs
  unfold Ends
  rw [wp_handle]
  refine wp.mono (hc s hs) (fun _ _ h => h) (fun e t ht => ?_) fun _ h => h
  cases hd : h e with
  | none => exact ht
  | some d => exact hh e d hd t ht

theorem pairs_release_then {c : WorkerProg W α}
    (hc : ∀ s, Shut s → Ends c (fun _ t => Paired t) s) : Pairs (release >>= fun _ => c) :=
  fun _ hs => Ends.bind (ends_release hs.weak) fun _ t ht => hc t ht

theorem pairs_failLink (why : String) : Pairs (failLink why : WorkerProg W Unit) :=
  fun _ hs => (ends_failLink why hs.weak).mono fun _ _ h => h.1.paired

end Pairs

/-! ## Monitoring -/

theorem pairs_giveBack : Pairs (giveBack : WorkerProg W Unit) :=
  pairs_release_then fun _ hs => ends_setState (Down.setState hs (by decide) _).paired

/-- A link reset fails the link, another `AisgError` changes nothing. -/
theorem ends_onReset {c : WorkerProg W Unit} {s : St W} (hc : Resettable s.wk.address c)
    (hs : Paired s) :
    Ends (handle c (onReset (fun e => failLink e.str) fun _ => pure ())) (fun _ t => Paired t)
      s := by
  unfold Ends
  rw [wp_handle]
  refine (hc s rfl).mono (fun _ t ht => ht.paired hs) (fun e t ht => ?_) fun _ _ => trivial
  have hweak : Weak t := ht.elim (fun hk => hk.toDrop.toStill.weak hs.weak)
    fun hd => hd.2.toStill.weak hs.weak
  unfold onReset
  by_cases hreset : e.isReset = true
  · rw [if_pos hreset]
    exact (ends_failLink e.str hweak).mono fun _ _ hu => hu.1.paired
  rw [if_neg hreset]
  by_cases haisg : e.isAisg = true
  · rw [if_pos haisg]
    rcases ht with hk | ⟨he, -⟩
    · exact hk.paired hs
    · exact absurd he hreset
  · rw [if_neg haisg]
    exact hweak

/-- `_poll_alarms`, which fails the link on a reset and swallows any other `AisgError`. -/
theorem pairs_pollAlarms (cfg : Config) : Pairs (pollAlarms cfg : WorkerProg W Unit) := by
  have hk := keep_closed (W := W)
  intro s hs
  refine ends_self ?_
  generalize ha : s.wk.address = a
  have hg := guarded_ret (W := W) cfg a reports_nothing
  have hm : ∀ {α : Type} {c : WorkerProg W α}, Moves Keep c → Resettable a c := resettable_of_keep
  have hbody : Resettable a (do
      let names ← (ret cfg a).getAlarmStatus
      update fun wk => wk.report names
      let tilt ← (ret cfg a).getTilt
      update fun wk => { wk with tilt := some tilt } : WorkerProg W Unit) := by
    refine Resettable.bind ((hg.proc _ _ _).bind fun _ => hm (moves_pure _)) fun names => ?_
    refine (hm fun s => hk.report s names).bind fun _ => hg.getTilt.bind fun _ => ?_
    exact hm (hk.assign fun _ => rfl)
  unfold Ends
  rw [wp_ensure]
  refine wp.mono (ends_onReset (ha ▸ hbody) hs) (fun _ t ht => ?_) (fun _ t ht => ?_) fun _ h => h
  · exact (hk.parked t).paired ht
  · exact (hk.parked t).toDrop.toStill.weak ht

theorem pairs_keepaliveFrame (a : Byte) (f : Rx) :
    Pairs (keepaliveFrame a () f : WorkerProg W (Step Unit Unit)) := by
  have hk := keep_closed (W := W)
  refine pairs_ite (fun _ => pairs_pure _) fun _ => Pairs.bind
    (pairs_of_keep (moves_onLink (moves_logEvent fun b => keep_log b _ rfl))) fun _ =>
      pairs_ite (fun _ => (pairs_failLink _).bind fun _ => pairs_pure _) fun _ =>
        pairs_ite (fun _ => ?_) fun _ => pairs_pure _
  refine Pairs.bind (pairs_of_keep (moves_onLink (moves_read _))) fun p =>
    Pairs.bind (pairs_of_keep (moves_onlyIf fun hb => ?_)) fun _ => pairs_pure _
  exact hk.keepaliveTake a p.vr f (by simpa using hb)

/-- `_keepalive_poll`, which fails the link on everything it catches. -/
theorem pairs_keepalivePoll : Pairs (keepalivePoll : WorkerProg W Unit) := by
  have hk := keep_closed (W := W)
  refine Pairs.handle (Pairs.bind (pairs_of_keep (moves_read _)) fun held =>
    Pairs.bind (pairs_of_keep (moves_octet held)) fun a =>
      Pairs.bind (pairs_of_keep (moves_onLink (moves_read _))) fun p =>
        Pairs.bind (pairs_of_keep (hk.onWrite _)) fun _ =>
          Pairs.bind (pairs_of_keep (hk.onRead _)) fun frames =>
            Pairs.bind (pairs_scan (fun _ f => pairs_keepaliveFrame a f) _ _) fun _ =>
              pairs_pure _) ?_
  intro e d hd s hs
  unfold onOsOrAisg at hd
  split_ifs at hd
  cases hd
  exact (ends_failLink _ hs).mono fun _ _ h => h.1.paired

theorem pairs_keepOrRelease (cfg : Config) (now : Time) :
    Pairs (keepOrRelease cfg now : WorkerProg W Unit) := by
  have hk := keep_closed (W := W)
  refine pairs_ite (fun _ => ?_) fun _ => ?_
  · refine Pairs.bind (pairs_of_keep (moves_read _)) fun _ => pairs_onlyIf fun _ =>
      Pairs.bind (pairs_of_keep (hk.assign fun _ => rfl)) fun _ => pairs_keepalivePoll
  · exact Pairs.bind (pairs_of_keep (moves_read _)) fun _ => pairs_onlyIf fun _ => pairs_giveBack

variable [Clients W] in
theorem pairs_connectedHousekeeping (cfg : Config) (now : Time) :
    Pairs (connectedHousekeeping cfg now : WorkerProg W Unit) := by
  have hk := keep_closed (W := W)
  refine Pairs.bind (pairs_of_keep (moves_read _)) fun wk => pairs_ite (fun _ => ?_)
    fun _ => pairs_keepOrRelease cfg now
  refine Pairs.bind (pairs_of_keep (hk.assign fun _ => rfl)) fun _ =>
    Pairs.bind (pairs_pollAlarms cfg) fun _ => pairs_ite (fun _ => ?_)
      fun _ => pairs_keepOrRelease cfg now
  exact Pairs.bind (pairs_of_keep (hk.shared _)) fun _ =>
    pairs_ite (fun _ => pairs_giveBack) fun _ => pairs_keepOrRelease cfg now

/-- `_drain` goes back to CONNECTED, or fails the link. -/
theorem ends_drain (cfg : Config) {s : St W} (h : Up s) :
    Ends (drain cfg) (fun _ t => Paired t) s := by
  have hk := keep_closed (W := W)
  unfold drain
  refine Ends.bind (ends_of_keep hk.clock h.paired.weak) fun now t ht => ?_
  have hup : Up t := ht.up h
  refine Ends.bind (Q := fun quiet u => if quiet = true then Up u else Down u) ?_ fun quiet u hu => ?_
  · unfold Ends
    rw [wp_handle]
    have hwp : wp (do
        loop (drainPass (now + ms 1500)) cfg.fuel ()
        pure true : WorkerProg W Bool) (fun quiet u => quiet = true ∧ Keep t u)
        (fun _ u => Keep t u) (fun _ => True) t := by
      rw [wp_bind]
      exact ((moves_loop (fun _ => hk.drainPass _) _ _).wp t).mono (fun _ u hu => ⟨rfl, hu⟩)
        (fun _ _ h => h) fun _ _ => trivial
    refine hwp.mono (fun quiet u hu => ?_) (fun e u hu => ?_) fun _ h => h
    · rw [hu.1]
      simpa using hu.2.up hup
    · have hweak : Weak u := hu.toDrop.toStill.weak hup.paired.weak
      unfold onOsOrAisg
      split_ifs
      · exact (ends_failLink _ hweak).bind fun _ v hv => by simpa [Ends] using hv.1
      · exact hweak
  · cases quiet with
    | false => exact Down.paired (by simpa using hu)
    | true =>
        have hu' : Up u := by simpa using hu
        refine ends_setState (Or.inl ⟨?_, hu'.2.1, hu'.2.2.setState _ _⟩)
        rw [Worker.setState_state]
        decide

/-! ## One step -/

omit [Line W] in
theorem Paired.down {s : St W} (h : Paired s) (hst : s.wk.state ∈ released) : Down s := by
  rcases h with h | h
  · have hup := h.1
    revert hup hst
    cases s.wk.state <;> simp [released]
  · exact h

omit [Line W] in
theorem Paired.up {s : St W} (h : Paired s) (hst : s.wk.state ∈ [LinkState.connected, .draining]) :
    Up s := by
  rcases h with h | h
  · exact h
  · have hdown := h.1
    revert hdown hst
    cases s.wk.state <;> simp [released]

variable [Clients W]

/-- Each state has one method, and each of them keeps the pairing. -/
theorem pairs_stepState (cfg : Config) (now : Time) :
    Pairs (stepState cfg now : WorkerProg W Unit) := by
  have hk := keep_closed (W := W)
  intro s hs
  have hopen : s.wk.state ∈ released → Ends (do
      let wanted ← shouldOpen cfg now
      onlyIf wanted (openAndConnect cfg) : WorkerProg W Unit) (fun _ t => Paired t) s := by
    intro hst
    refine Ends.bind (ends_of_keep (hk.shouldOpen cfg now) hs.weak) fun wanted t ht => ?_
    have hdown := ht.toDrop.toStill.down (hs.down hst)
    cases wanted with
    | false => exact hdown.paired
    | true => exact ends_openAndConnect cfg hdown.2
  refine ends_self ?_
  cases hst : s.wk.state with
  | closed | portBusy | portLost | noDevices =>
      simp only [id, hst]
      exact hopen (by rw [hst]; decide)
  | backoff =>
      simp only [id, hst]
      have hdown := hs.down (by rw [hst]; decide)
      unfold Ends
      rw [wp_onlyIf]
      exact ⟨fun _ => (Down.setState hdown.2 (by decide) _).paired, fun _ => hs⟩
  | draining =>
      simp only [id, hst]
      exact ends_drain cfg (hs.up (by rw [hst]; decide))
  | connected =>
      simp only [id, hst]
      exact pairs_connectedHousekeeping cfg now s hs
  | opening | discovering | connecting | releasing | leased | shutdown =>
      simp only [id, hst]
      exact hs

/-- The step, with its look at the lease. -/
theorem pairs_step (cfg : Config) : Pairs (step cfg : WorkerProg W Unit) := by
  have hk := keep_closed (W := W)
  refine Pairs.bind (pairs_of_keep hk.clock) fun now => Pairs.bind (pairs_of_keep (hk.shared _))
    fun until_ s hs => ends_self ?_
  unfold Ends
  rw [wp_ite]
  refine ⟨fun _ => ?_, fun _ => ?_⟩
  · -- a lease: give the port back, unless it is free
    refine Ends.bind (Q := fun _ t => Shut t) ?_ fun _ t ht =>
      ends_setState (Down.setState ht (by decide) _).paired
    unfold Ends
    rw [wp_onlyIf]
    refine ⟨fun _ => ends_release hs.weak, fun hst => (hs.down ?_).2⟩
    revert hst
    cases s.wk.state <;> decide
  · refine Ends.bind (Q := fun _ t => Paired t) ?_ fun _ t ht => pairs_stepState cfg now t ht
    unfold Ends
    rw [wp_onlyIf]
    refine ⟨fun hst => ?_, fun _ => hs⟩
    have hdown : Down s := hs.down (by rw [of_decide_eq_true hst]; decide)
    exact (Down.setState hdown.2 (by decide) _).paired

theorem pairs_refreshLease : Pairs (refreshLease : WorkerProg W Unit) := by
  have hk := keep_closed (W := W)
  intro s hs
  refine ends_self ?_
  unfold Ends
  rw [wp_onlyIf]
  refine ⟨fun hst => ?_, fun _ => hs⟩
  have hdown : Down s := hs.down (by rw [of_decide_eq_true hst]; decide)
  refine Ends.bind (ends_of_keep (hk.shared _) hs.weak) fun until_ t ht => ?_
  refine Ends.bind (ends_of_keep hk.clock (ht.paired hs).weak) fun now u hu => ?_
  have hdown' : Down u := hu.toDrop.toStill.down (ht.toDrop.toStill.down hdown)
  unfold Ends
  rw [wp_onlyIf]
  exact ⟨fun _ => (Down.setState hdown'.2 (by decide) _).paired, fun _ => hdown'.paired⟩

/-! ## Commands -/

theorem keep_queue : QueueClosed (W := W) Keep :=
  (keep_closed).queueClosed (fun _ _ => Keep.of_eq rfl rfl rfl rfl rfl)
    fun _ _ => Keep.of_eq rfl rfl rfl rfl rfl

theorem keep_resolve (seq : ℕ) (o : Except Exn Result) :
    Moves Keep (resolve seq o : WorkerProg W Unit) :=
  (keep_closed).resolve (fun _ _ _ => Keep.of_eq rfl rfl rfl rfl rfl) seq o

/-- The `try` of `_execute`: a link reset fails the link before the future is resolved. -/
theorem ends_runCommand (cfg : Config) (cmd : Command) {a : Option Byte} {s : St W} (h : Up s)
    (ha : s.wk.address = a) : Ends (runCommand cfg cmd a) (fun _ t => Paired t) s := by
  have hk := keep_closed (W := W)
  have hg := guarded_ret (W := W) cfg a (Books.onPoll cmd.name)
  unfold runCommand
  refine Ends.bind (Q := fun _ t => Paired t) ?_ fun result t ht => ?_
  · unfold Ends
    rw [wp_handle, wp_bind]
    refine (hg.callCommand rfl cmd.name cmd.args s ha).mono (fun _ t ht => ht.paired h.paired)
      (fun e t ht => ?_) fun _ _ => trivial
    have hweak : Weak t := ht.elim (fun hk => hk.toDrop.toStill.weak h.paired.weak)
      fun hd => hd.2.toStill.weak h.paired.weak
    unfold onReset
    by_cases hreset : e.isReset = true
    · rw [if_pos hreset]
      refine Ends.bind (Q := fun _ u => Weak u) hweak fun _ u hu =>
        Ends.bind (ends_failLink _ hu) fun _ v hv => ?_
      exact Pairs.bind (pairs_of_keep (keep_resolve _ _)) (fun _ => pairs_pure _) v hv.1.paired
    rw [if_neg hreset]
    by_cases haisg : e.isAisg = true
    · rw [if_pos haisg]
      rcases ht with hkt | ⟨he, -⟩
      · have hup : Up t := hkt.up h
        refine Ends.bind (ends_of_keep (hk.assign fun _ => rfl) hweak) fun _ u hu => ?_
        have hupu : Up u := hu.up hup
        refine Ends.bind (Q := fun _ v => Paired v) ?_ fun _ v hv =>
          Pairs.bind (pairs_of_keep (keep_resolve _ _)) (fun _ => pairs_pure _) v hv
        unfold Ends
        rw [wp_onlyIf]
        refine ⟨fun _ => Or.inl ⟨?_, hupu.2.1, hupu.2.2.setState _ _⟩,
          fun _ => hupu.paired⟩
        exact (Worker.setState_state _ _ _) ▸ by decide
      · exact absurd he hreset
    · rw [if_neg haisg]
      exact hweak
  · cases result with
    | none => exact ht
    | some x =>
        have habsorb : Moves Keep (absorb x : WorkerProg W Unit) := fun _ =>
          hk.absorb fun _ _ => Keep.of_eq rfl rfl rfl rfl rfl
        exact Pairs.bind (pairs_of_keep habsorb) (fun _ => pairs_of_keep (keep_resolve _ _)) t ht

/-- A command, from a session that is up. -/
theorem ends_execute (cfg : Config) (cmd : Command) {s : St W} (h : Up s) :
    Ends (execute cfg cmd) (fun _ t => Paired t) s := by
  have hk := keep_closed (W := W)
  unfold execute
  refine ends_self ?_
  refine Ends.bind (ends_of_keep (hk.noteTarget cmd) h.paired.weak) fun _ t ht => ?_
  unfold Ends
  rw [wp_ensure]
  refine wp.mono (ends_runCommand cfg cmd (ht.up h) ht.address) (fun _ u hu => ?_)
    (fun e u hu => ?_) fun _ h => h
  · exact pairs_of_keep hk.wrapUp u hu
  · exact (hk.wrapUp.wp u).mono (fun _ v hv => hv.toDrop.toStill.weak hu)
      (fun _ v hv => hv.toDrop.toStill.weak hu) fun _ _ => trivial

/-- A command, whatever the state. -/
theorem pairs_tryExecute (cfg : Config) (cmd : Command) :
    Pairs (tryExecute cfg cmd : WorkerProg W Bool) := by
  have hk := keep_closed (W := W)
  refine Pairs.bind pairs_refreshLease fun _ s hs => ends_self ?_
  unfold Ends
  rw [wp_ite, wp_ite]
  refine ⟨fun hst => ?_, fun _ => ⟨fun _ => ?_, fun _ => ?_⟩⟩
  · have hup : Up s := hs.up (by rw [hst]; decide)
    refine Ends.bind (ends_of_keep (keep_queue.claim _) hs.weak) fun claimed t ht => ?_
    refine Ends.bind (Q := fun _ u => Paired u) ?_ fun _ u hu => hu
    unfold Ends
    rw [wp_onlyIf]
    exact ⟨fun _ => ends_execute cfg cmd (ht.up hup), fun _ => ht.paired hs⟩
  · exact Pairs.bind (pairs_of_keep (moves_read _)) (fun _ =>
      Pairs.bind (pairs_of_keep (keep_queue.abandon _ rfl)) fun _ => pairs_pure _) s hs
  · refine Pairs.bind (pairs_of_keep hk.clock) (fun now => pairs_ite (fun _ => ?_) fun _ => ?_) s hs
    · exact Pairs.bind (pairs_of_keep (keep_queue.abandon _ rfl)) fun _ => pairs_pure _
    · exact Pairs.bind (pairs_of_keep (hk.assign fun _ => rfl)) fun _ => pairs_pure _

/-! ## Heads of the loop -/

theorem pairs_passBody (cfg : Config) : Pairs (passBody cfg : WorkerProg W Unit) := by
  refine Pairs.bind pairs_refreshLease fun _ => Pairs.bind (pairs_of_keep (moves_read _)) fun _ =>
    Pairs.bind (pairs_of_keep (moves_onlyIf fun _ => moves_bind (keep_queue.take cfg) fun c =>
      (keep_queue).setHead c)) fun _ => Pairs.bind (pairs_of_keep (moves_read _)) fun head => ?_
  cases head with
  | none => exact pairs_step cfg
  | some cmd =>
      refine Pairs.bind (pairs_tryExecute cfg cmd) fun _ => pairs_ite
        (fun _ => pairs_of_keep (keep_queue.setHead _)) fun _ => pairs_step cfg

/-- A pass ends paired, whatever it raised: the handler of `run` gives the port back. -/
theorem pairs_loopPass (cfg : Config) : Pairs (loopPass cfg : WorkerProg W Unit) := by
  have hk := keep_closed (W := W)
  refine Pairs.bind (pairs_of_keep hk.clock) fun now =>
    Pairs.bind (pairs_of_keep (hk.assign fun _ => rfl)) fun _ =>
      Pairs.handle (pairs_passBody cfg) fun e d hd s hs => ?_
  cases hd
  exact (ends_lastResort hs).mono fun _ _ h => h.1.paired

/-- Every head of the loop is paired. -/
theorem paired_head {cfg : Config} {w : W} {s : St W} (h : Head cfg w s) : Paired s := by
  refine head_induction (I := Paired) (Or.inr ⟨List.mem_cons_self .., rfl, rfl⟩) (fun t ht => ?_) s
    (headBy_of_head h)
  have hk := keep_closed (W := W)
  unfold runPass
  rw [wp_bind]
  refine ((hk.shared _).wp t).mono (fun stop u hu => ?_) (fun _ _ _ => trivial) fun _ _ => trivial
  rw [wp_ite]
  refine ⟨fun _ => ?_, fun _ => ?_⟩
  · rw [wp_bind]
    refine wp_any (fun _ v => ?_) (fun _ _ => trivial) (fun _ => trivial) _
    rw [wp_bind]
    exact wp_any (fun _ _ hb => by cases hb) (fun _ _ => trivial) (fun _ => trivial) _
  · rw [wp_bind]
    exact wp.mono (pairs_loopPass cfg u (hu.paired ht)) (fun _ v hv _ _ => hv)
      (fun _ _ _ => trivial) fun _ _ => trivial

/-- **The port is free exactly in the released states.**  At every head of the loop, for every
behaviour of the bus and of the other threads: no port is open in a state in which others may open
it, and in a session exactly one is, with the link object as its owner.  Between two heads this
need not hold. -/
theorem head_paired {cfg : Config} {w : W} {s : St W} (h : Head cfg w s) :
    (s.wk.state ∈ released → s.link = none ∧ s.ports = []) ∧
    (s.wk.state ∈ [LinkState.connected, .draining] →
      ∃ l, s.link = some l ∧ s.ports = [l.ident]) ∧
    (s.wk.state ∈ released ∨ s.wk.state ∈ [LinkState.connected, .draining]) := by
  have hp := paired_head h
  exact ⟨fun hst => (hp.down hst).2, fun hst => (hp.up hst).2.1, hp.symm.imp And.left And.left⟩

/-- A worker that opens the port at once. -/
def attentive : Config := { monitor := .continuous, fuel := 40 }

/-- A device that answers everything but its n-th request, which it meets with a DM. -/
def dropsAt (n : ℕ) : Bench ClientCall :=
  { plan :=
    { answer := fun i m => if i = n then none else deviceAnswer [] m
      arrives := fun i => if i = n then [fromDevice (ctrlDm ||| pf)] else []
      reply := fun _ => deviceReply } }

/-- The head after the first connection. -/
def afterConnect (n : ℕ) : St (Bench ClientCall) := runPasses attentive 1 (St.init (dropsAt n))

theorem head_paired_afterConnect :
    ∃ l, (afterConnect 100).link = some l ∧ (afterConnect 100).ports = [l.ident] :=
  (head_paired (reaches_runPasses attentive 1 _)).2.1 (by decide +kernel)

/-- **CONNECTED means connected**, exactly when no DM or FRMR has reached a
GetDeviceData or AlarmSubscribe request since the SNRM of the session: of all the
requests, these two methods keep a session going that the peer has dropped. -/
theorem head_connected {cfg : Config} {w : W} {s : St W} (h : Head cfg w s)
    (hst : s.wk.state = .connected) :
    (Alive s ∧ resetsOf s.log = []) ↔ ¬ ∃ m ∈ resetsOf s.log, Swallowing m := by
  obtain ⟨-, halive, hall⟩ := ((paired_head h).up (by rw [hst]; decide)).2.2
  refine ⟨?_, fun hno => ?_⟩
  · rintro ⟨-, hnil⟩ ⟨m, hm, -⟩
    rw [hnil] at hm
    cases hm
  · have hnil : resetsOf s.log = [] :=
      List.eq_nil_iff_forall_not_mem.2 fun m hm => hno ⟨m, hm, hall m hm⟩
    exact ⟨halive.2 hnil, hnil⟩

theorem head_connected_afterConnect :
    Alive (afterConnect 100) ∧ resetsOf (afterConnect 100).log = [] :=
  (head_connected (reaches_runPasses attentive 1 _) (by decide +kernel)).2 (by decide +kernel)

/-- A DM meets the third GetDeviceData of the entry actions, is swallowed, and the session
becomes CONNECTED without a peer. -/
theorem dropped_yet_connected :
    Head attentive (dropsAt 3) (afterConnect 3) ∧ (afterConnect 3).wk.state = .connected ∧
      (afterConnect 3).wk.address = some 1 ∧
      ∃ l ∈ (afterConnect 3).link, (l.peers 1).connected = false := by
  refine ⟨reaches_runPasses attentive 1 _, by decide +kernel, by decide +kernel, ?_⟩
  have hl : ((afterConnect 3).link.map fun l => (l.peers 1).connected) = some false := by
    decide +kernel
  rwa [Option.map_eq_some_iff] at hl

end OpenAisg.Session
