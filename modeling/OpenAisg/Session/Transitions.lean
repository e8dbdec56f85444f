import OpenAisg.Session.LinkEvents

/-!
# The transitions of the state machine

`_set_state` takes any state.  Which of them can follow which is not written anywhere: it comes
from what each method finds and leaves.

* `follows` — the states that can follow a state.
* `withLink`, `withoutLink` — the states in which there can be a link object, and in which there
  can be none.
* `OnMap` — the announced states are a path from CLOSED to the current state.
* `Sited` — a worker on the map, in a state that goes with its link object, or with none.
* `Calm` — what leaves both alone, and `Goes` — a method that keeps the worker sited, however
  it ends.
* `goes_setState`, `goes_held`, `goes_free` — the one kind of step that moves on the map, of a
  worker with a link and of one without.
* `goes_failLink` — an exception can come from anywhere, and giving the session up is always on
  the map: RELEASING can follow each state with a link, BACKOFF each state without one.
* `run_on_map` — every run is a path, also where the thread ends.
-/

namespace OpenAisg.Session

open Hdlc Link Retap Prog

variable {W : Type} [Line W] [Clients W]

/-! ## The map -/

/-- The states that can follow. -/
def follows : LinkState → List LinkState
  | .closed | .portBusy | .portLost | .noDevices => [.opening, .backoff, .leased, .shutdown]
  | .opening => [.portBusy, .portLost, .discovering, .releasing, .backoff]
  | .discovering => [.connecting, .releasing]
  | .connecting => [.connected, .releasing]
  | .connected => [.draining, .releasing]
  | .draining => [.connected, .releasing]
  | .releasing => [.closed, .noDevices, .releasing, .backoff, .leased, .shutdown]
  | .backoff | .leased => [.closed, .backoff, .leased, .shutdown]
  | .shutdown => []

/-- The states in which there can be a link object. -/
def withLink : List LinkState :=
  [.opening, .discovering, .connecting, .connected, .draining, .releasing]

/-- The states in which there can be none, while the thread runs. -/
def withoutLink : List LinkState :=
  [.closed, .opening, .portBusy, .portLost, .noDevices, .releasing, .backoff, .leased]

/-- RELEASING can follow each state with a link. -/
theorem releasing_follows {state : LinkState} (h : state ∈ withLink) :
    .releasing ∈ follows state := by
  revert h
  cases state <;> decide

/-- BACKOFF can follow each state without one. -/
theorem backoff_follows {state : LinkState} (h : state ∈ withoutLink) :
    .backoff ∈ follows state := by
  revert h
  cases state <;> decide

/-- What was announced, from CLOSED on. -/
def Worker.route (wk : Worker) : List LinkState := .closed :: (linksOf wk.emitted).map Prod.fst

/-- A path on the map to the current state. -/
structure OnMap (wk : Worker) : Prop where
  path : wk.route.IsChain fun a b => b ∈ follows a
  last : wk.route.getLast? = some wk.state

/-- A transition of the map makes the path longer, or repeats its last state. -/
theorem OnMap.setState {wk : Worker} {state : LinkState} (h : OnMap wk)
    (hst : state ∈ follows wk.state) (error : String) : OnMap (wk.setState state error) := by
  by_cases hsame : state = wk.state ∧ error = wk.lastError
  · have hroute : (wk.setState state error).route = wk.route := by
      rw [Worker.route, setState_links_same hsame]
      rfl
    refine ⟨hroute ▸ h.path, ?_⟩
    rw [hroute, h.last, Worker.setState_state, hsame.1]
  · have hroute : (wk.setState state error).route = wk.route ++ [state] := by
      rw [Worker.route, setState_links hsame, List.map_append]
      rfl
    refine ⟨?_, ?_⟩
    · rw [hroute, List.isChain_append]
      refine ⟨h.path, List.isChain_singleton _, fun a ha b hb => ?_⟩
      rw [h.last] at ha
      cases ha
      cases hb
      exact hst
    · rw [hroute, Worker.setState_state]
      simp

/-- The worker is on the map, in a state that goes with its link object. -/
structure Sited (s : St W) : Prop where
  onMap : OnMap s.wk
  link : s.link.isSome = true → s.wk.state ∈ withLink
  noLink : s.link = none → s.wk.state ∈ withoutLink

section Sited

variable {s : St W}

omit [Line W] [Clients W]

/-- In a state that goes with a link there is one. -/
theorem Sited.isSome (hs : Sited s) (hst : s.wk.state ∉ withoutLink) : s.link.isSome = true := by
  rw [Option.isSome_iff_ne_none]
  exact fun hl => hst (hs.noLink hl)

/-- In a state that goes with none there is none. -/
theorem Sited.eq_none (hs : Sited s) (hst : s.wk.state ∉ withLink) : s.link = none := by
  rw [← Option.not_isSome_iff_eq_none]
  exact fun hl => hst (hs.link hl)

end Sited

/-! ## Steps that stay where they are -/

/-- The state, its announcement and whether there is a link object are as before. -/
structure Calm (s t : St W) : Prop extends Hush s t where
  link : t.link.isSome = s.link.isSome

instance : IsPreorder (St W) Calm where
  refl s := ⟨Std.Refl.refl (r := Hush) s, rfl⟩
  trans _ _ _ h h' := ⟨IsTrans.trans (r := Hush) _ _ _ h.toHush h'.toHush, h'.link.trans h.link⟩

omit [Line W] [Clients W] in
theorem OnMap.hush {s t : St W} (hs : OnMap s.wk) (h : Hush s t) : OnMap t.wk := by
  have hroute : t.wk.route = s.wk.route := by
    rw [Worker.route, h.links]
    rfl
  refine ⟨hroute ▸ hs.path, ?_⟩
  rw [hroute, h.state]
  exact hs.last

omit [Line W] [Clients W] in
theorem Calm.eq_none {s t : St W} (h : Calm s t) (hl : t.link = none) : s.link = none := by
  rw [← Option.not_isSome_iff_eq_none, ← h.link, hl]
  decide

omit [Line W] [Clients W] in
theorem Calm.sited {s t : St W} (h : Calm s t) (hs : Sited s) : Sited t := by
  refine ⟨hs.onMap.hush h.toHush, fun hl => ?_, fun hl => ?_⟩
  · rw [h.state]
    exact hs.link (h.link.symm.trans hl)
  · rw [h.state]
    exact hs.noLink (h.eq_none hl)

omit [Line W] [Clients W] in
theorem calm_lift {a b : LinkSt W Worker} (h : b.user = a.user) : Lift Calm a b :=
  fun ports n sh => ⟨hush_lift h ports n sh, rfl⟩

omit [Clients W] in
/-- The bus leaves the worker where it is. -/
theorem calm_frames : FrameClosed (W := W) Calm where
  world s w := ⟨(hush_bus).world s w, rfl⟩
  calls s cs := ⟨(hush_bus).calls s cs, rfl⟩
  books s wk h := ⟨(hush_bus).books s wk h, rfl⟩
  stored s d hd := ⟨(hush_bus).stored s d hd, rfl⟩
  report s names := ⟨(hush_bus).report s names, rfl⟩
  baseline s names := ⟨(hush_bus).baseline s names, rfl⟩
  parked s := ⟨(hush_bus).parked s, rfl⟩
  wire s e he := ⟨(hush_bus).wire s e he, rfl⟩
  keepaliveTake addr vr f _ := moves_keepaliveTake (fun _ _ => calm_lift rfl)
    (fun _ _ _ => calm_lift rfl) (fun _ _ _ => calm_lift rfl)
    (fun s pl => ⟨⟨rfl, (hush_track s (s.wk.alarms.indicate pl)).links, rfl⟩, rfl⟩) addr vr f
  drainTake f := moves_drainTake (fun _ _ => calm_lift rfl) (fun _ _ _ => calm_lift rfl)
    (fun _ _ _ => calm_lift rfl) f
  log s e he := ⟨(hush_bus).log s e he, rfl⟩
  link s l l' hl hi := ⟨(hush_bus).link s l l' hl hi, by rw [hl]; rfl⟩
  iFrame _ _ _ _ := moves_onIFrame (fun _ _ => calm_lift rfl) (fun _ _ _ _ => calm_lift rfl)
    (fun _ _ _ => calm_lift rfl) fun _ _ _ _ _ => ⟨⟨rfl, rfl, rfl⟩, rfl⟩

omit [Clients W] in
theorem calm_bus : BusClosed (W := W) Calm := (calm_frames).busClosed

theorem calm_queue : QueueClosed (W := W) Calm :=
  (calm_bus).toQuietClosed.queueClosed (fun _ _ => ⟨⟨rfl, rfl, rfl⟩, rfl⟩)
    fun _ _ => ⟨⟨rfl, rfl, rfl⟩, rfl⟩

theorem calm_resolve (seq : ℕ) (o : Except Exn Result) :
    Moves Calm (resolve seq o : WorkerProg W Unit) :=
  (calm_bus).resolve (fun _ _ _ => ⟨⟨rfl, rfl, rfl⟩, rfl⟩) seq o

omit [Clients W] in
theorem calm_closeLink : Moves Calm (closeLink : WorkerProg W Unit) :=
  moves_bind (fun _ => ⟨⟨rfl, rfl, rfl⟩, rfl⟩) fun _ => (calm_bus).onPort _

omit [Clients W] in
theorem calm_clearStaleLinks (cfg : Config) :
    Moves Calm (clearStaleLinks cfg : WorkerProg W Unit) := by
  refine moves_bind (moves_read _) fun held => moves_bind (moves_forEach _ fun addr _ =>
    moves_onAisg (moves_bind (moves_ofExcept _) fun a => ?_) (moves_pure _)) fun _ _ =>
      ⟨⟨rfl, rfl, rfl⟩, rfl⟩
  exact moves_onLink (moves_disconnect (calm_bus).oneShot _ _)

/-! ## Methods that stay on the map -/

/-- However the method ends, the worker is sited. -/
def Goes {α : Type} (c : WorkerProg W α) (Q : α → St W → Prop) (s : St W) : Prop :=
  wp c (fun a t => Sited t ∧ Q a t) (fun _ t => Sited t) (fun t => Sited t) s

section Goes

variable {α β : Type} {c : WorkerProg W α} {s : St W} {Q Q' : α → St W → Prop}

omit [Line W] [Clients W]

/-- Two methods in a row. -/
theorem Goes.bind {f : α → WorkerProg W β} {Q' : β → St W → Prop} (hc : Goes c Q s)
    (hf : ∀ a t, Sited t → Q a t → Goes (f a) Q' t) : Goes (c >>= f) Q' s := by
  unfold Goes
  rw [wp_bind]
  exact hc.mono (fun a t h => hf a t h.1 h.2) (fun _ _ h => h) fun _ h => h

theorem Goes.mono (h : Goes c Q s) (hQ : ∀ a t, Q a t → Q' a t) : Goes c Q' s :=
  wp.mono h (fun a t h => ⟨h.1, hQ a t h.2⟩) (fun _ _ h => h) fun _ h => h

theorem goes_calm (hc : Moves Calm c) (hs : Sited s) : Goes c (fun _ t => Calm s t) s :=
  (hc.wp s).mono (fun _ _ h => ⟨h.sited hs, h⟩) (fun _ _ h => h.sited hs) fun _ h => h.sited hs

/-- After a step that stays. -/
theorem Goes.after_calm {f : α → WorkerProg W β} {Q : β → St W → Prop} (hc : Moves Calm c)
    (hs : Sited s) (hf : ∀ a t, Calm s t → Sited t → Goes (f a) Q t) : Goes (c >>= f) Q s :=
  (goes_calm hc hs).bind fun a t ht hst => hf a t hst ht

/-- A handler finds the worker sited. -/
theorem goes_handle {k : Exn → Option (WorkerProg W α)} {E : St W → Prop}
    (hc : wp c (fun a t => Sited t ∧ Q a t) (fun _ t => Sited t ∧ E t) (fun t => Sited t) s)
    (hk : ∀ e d t, k e = some d → Sited t → E t → Goes d Q t) : Goes (handle c k) Q s := by
  unfold Goes
  rw [wp_handle]
  refine hc.mono (fun _ _ h => h) (fun e t h => ?_) fun _ h => h
  cases hke : k e with
  | none => exact h.1
  | some d => exact hk e d t hke h.1 h.2

/-- The same of a handler for which that is enough. -/
theorem goes_rescue {k : Exn → Option (WorkerProg W α)} (hc : Goes c Q s)
    (hk : ∀ e d t, k e = some d → Sited t → Goes d Q t) : Goes (handle c k) Q s :=
  goes_handle (E := fun _ => True)
    (wp.mono hc (fun _ _ h => h) (fun _ _ h => ⟨h, trivial⟩) fun _ h => h)
    fun e d t hke ht _ => hk e d t hke ht

theorem goes_scan {γ : Type} {f : α → γ → WorkerProg W (Step β α)}
    (hf : ∀ a x t, Sited t → Goes (f a x) (fun _ _ => True) t) (a : α) (xs : List γ)
    (hs : Sited s) : Goes (scan f a xs) (fun _ _ => True) s := by
  refine (wp_scan (fun _ _ t => Sited t) (D := fun _ t => Sited t) (fun x _ a t ht =>
    wp.mono (hf a x t ht) (fun r u hu => ?_) (fun _ _ h => h) fun _ h => h) xs a s hs).mono
      (fun r t ht => ?_) (fun _ _ h => h) fun _ h => h
  · cases r <;> exact hu.1
  · cases r <;> exact ⟨ht, trivial⟩

/-- What stays, if it is to be handled. -/
theorem calm_wp (hc : Moves Calm c) (hs : Sited s) (hQ : ∀ a t, Calm s t → Q a t) :
    wp c (fun a t => Sited t ∧ Q a t) (fun _ t => Sited t ∧ Calm s t) (fun t => Sited t) s :=
  (hc.wp s).mono (fun a t h => ⟨h.sited hs, hQ a t h⟩) (fun _ _ h => ⟨h.sited hs, h⟩)
    fun _ h => h.sited hs

theorem goes_ensure {d : WorkerProg W Unit} (hc : Goes c Q s) (hd : Moves Calm d)
    (hQ : ∀ a t u, Q a t → Calm t u → Q a u) : Goes (ensure c d) Q s := by
  unfold Goes
  rw [wp_ensure]
  refine wp.mono hc (fun a t ht => ?_) (fun e t ht => ?_) fun _ h => h
  · exact (hd.wp t).mono (fun _ u h => ⟨h.sited ht.1, hQ a t u ht.2 h⟩) (fun _ _ h => h.sited ht.1)
      fun _ h => h.sited ht.1
  · exact (hd.wp t).mono (fun _ _ h => h.sited ht) (fun _ _ h => h.sited ht) fun _ h => h.sited ht

theorem goes_onlyIf {b : Bool} {c : WorkerProg W Unit} {Q : Unit → St W → Prop} (hs : Sited s)
    (hc : b = true → Goes c Q s) (hQ : b = false → Q () s) : Goes (onlyIf b c) Q s := by
  unfold Goes
  rw [wp_onlyIf]
  exact ⟨hc, fun hb => ⟨hs, hQ hb⟩⟩

/-- A transition of the map. -/
theorem goes_setState {state : LinkState} (hs : Sited s) (hnext : state ∈ follows s.wk.state)
    (hl : s.link.isSome = true → state ∈ withLink)
    (hn : s.link = none → state ∈ withoutLink) (error : String) :
    Goes (setState state error) (fun _ t => t.link = s.link ∧ t.wk.state = state) s := by
  refine ⟨⟨hs.onMap.setState hnext error, fun h => ?_, fun h => ?_⟩, rfl,
    Worker.setState_state _ _ _⟩
  · rw [Worker.setState_state]
    exact hl h
  · rw [Worker.setState_state]
    exact hn h

/-- A transition of a worker with a link. -/
theorem goes_held {state : LinkState} (hs : Sited s) (hl : s.link.isSome = true)
    (hnext : state ∈ follows s.wk.state) (hst : state ∈ withLink) (error : String) :
    Goes (setState state error) (fun _ t => t.wk.state = state) s :=
  (goes_setState hs hnext (fun _ => hst) (fun hn => absurd hn (Option.isSome_iff_ne_none.1 hl))
    error).mono fun _ _ h => h.2

/-- A transition of a worker without one. -/
theorem goes_free {state : LinkState} (hs : Sited s) (hl : s.link = none)
    (hnext : state ∈ follows s.wk.state) (hst : state ∈ withoutLink) (error : String) :
    Goes (setState state error) (fun _ t => t.link = none ∧ t.wk.state = state) s := by
  refine (goes_setState hs hnext (fun hsome => ?_) (fun _ => hst) error).mono
    fun _ _ h => ⟨h.1.trans hl, h.2⟩
  rw [hl] at hsome
  cases hsome

end Goes

/-! ## Giving the link up -/

/-- What a release leaves. -/
structure Freed (s t : St W) : Prop where
  link : t.link = none
  releasing : s.link.isSome = true → t.wk.state = .releasing
  same : s.link = none → t = s

omit [Clients W] in
/-- A release goes by way of RELEASING, if there is a link. -/
theorem goes_release {s : St W} (hs : Sited s) : Goes release (fun _ t => Freed s t) s := by
  unfold Goes release
  rw [wp_bind, wp_read, wp_onlyIf]
  refine ⟨fun hsome => ?_, fun hnone => ⟨hs, by simpa using hnone, fun h => ?_, fun _ => rfl⟩⟩
  · refine (goes_setState hs (releasing_follows (hs.link hsome)) (fun _ => by decide)
      (fun _ => by decide) "").bind fun _ t ht hq => ?_
    refine Goes.after_calm (moves_onOsOrAisg (moves_bind (moves_read _) fun a => ?_)
      fun _ => moves_pure _) ht fun _ u htu hu => ?_
    · cases a with
      | none => exact moves_pure _
      | some a => exact moves_onLink (moves_disconnect (calm_bus).oneShot _ _)
    refine Goes.after_calm (moves_handle calm_closeLink fun e k hk => ?_) hu fun _ v huv hv => ?_
    · cases e <;> simp only [reduceCtorEq, Option.some.injEq] at hk
      subst hk
      exact moves_pure _
    have hrel : v.wk.state = .releasing := huv.state.trans (htu.state.trans hq.2)
    refine ⟨⟨hv.onMap, fun h => (nomatch h), fun _ => ?_⟩, rfl, fun _ => hrel, fun hn => ?_⟩
    · show v.wk.state ∈ withoutLink
      rw [hrel]
      decide
    · rw [hn] at hsome
      cases hsome
  · rw [h] at hnone
    cases hnone

/-- Without a link the state is a released one, as between two methods. -/
def Landed (s : St W) : Prop := s.link = none → s.wk.state ∈ released

omit [Line W] [Clients W] in
theorem Paired.landed {s : St W} (h : Paired s) : Landed s := by
  intro hl
  rcases h with ⟨-, ⟨l, hl', -⟩, -⟩ | h
  · rw [hl] at hl'
    cases hl'
  · exact h.1

omit [Line W] [Clients W] in
theorem Calm.landed {s t : St W} (h : Calm s t) (hs : Landed s) : Landed t :=
  fun hl => h.state ▸ hs (h.eq_none hl)

/-- The port is free, and it has been given back from a session or was free before. -/
def Vacated (t : St W) : Prop := t.link = none ∧ t.wk.state ∈ .releasing :: released

omit [Line W] [Clients W] in
theorem Vacated.follows {t : St W} (h : Vacated t) :
    .leased ∈ follows t.wk.state ∧ .shutdown ∈ follows t.wk.state := by
  have hst := h.2
  revert hst
  cases t.wk.state <;> decide

omit [Clients W] in
theorem goes_vacate {s : St W} (hs : Sited s) (hland : Landed s) :
    Goes release (fun _ t => Vacated t) s := by
  refine (goes_release hs).mono fun _ t hq => ⟨hq.link, ?_⟩
  cases hl : s.link with
  | some l =>
      rw [hq.releasing (by rw [hl]; rfl)]
      decide
  | none =>
      rw [hq.same hl]
      exact List.mem_cons_of_mem _ (hland hl)

omit [Clients W] in
/-- A failure that has no state of its own is in BACKOFF already. -/
theorem goes_armBackoff {s : St W} (hs : Sited s) (hst : s.wk.state ∈ failed) :
    Goes armBackoff (fun _ t => t.wk.state = s.wk.state) s := by
  unfold armBackoff
  refine Goes.after_calm (calm_bus.assign fun _ => rfl) hs fun _ t hst₁ ht => ?_
  refine Goes.after_calm (calm_bus).clock ht fun now u htu hu => ?_
  refine Goes.after_calm (fun _ => ⟨⟨rfl, rfl, rfl⟩, rfl⟩) hu fun _ v huv hv => ?_
  have hstate : v.wk.state = s.wk.state := huv.state.trans (htu.state.trans hst₁.state)
  unfold Goes
  rw [wp_bind, wp_self]
  refine goes_onlyIf hv (fun hin => ?_) fun _ => hstate
  have hback : v.wk.state = .backoff := by
    have hin' : v.wk.state ∉ [LinkState.portBusy, .portLost, .noDevices] := by simpa using hin
    rw [hstate] at hin' ⊢
    revert hst hin'
    cases s.wk.state <;> decide
  have hnone : v.wk.state ∉ withLink := by
    rw [hback]
    decide
  exact (goes_free hv (hv.eq_none hnone) (by rw [hback]; decide) (by decide) "").mono
    fun _ _ hq => hq.2.trans (hback.symm.trans hstate)

omit [Clients W] in
theorem goes_giveUp {state : LinkState} {s : St W} (hs : Sited s) (hl : s.link = none)
    (hst : state ∈ failed) (hnext : state ∈ follows s.wk.state) (error : String) :
    Goes (giveUp state error) (fun _ t => t.wk.state = state) s := by
  have hfree : state ∈ withoutLink := by
    revert hst
    cases state <;> decide
  exact (goes_free hs hl hnext hfree error).bind fun _ t ht hq =>
    (goes_armBackoff ht (hq.2.symm ▸ hst)).mono fun _ _ hu => hu.trans hq.2

omit [Clients W] in
/-- **Giving the session up is on the map**, from wherever an exception comes. -/
theorem goes_failLink {s : St W} (hs : Sited s) (why : String) :
    Goes (failLink why) (fun _ t => t.wk.state = .backoff) s :=
  (goes_release hs).bind fun _ _ ht hq =>
    goes_giveUp ht hq.link (by decide) (backoff_follows (ht.noLink hq.link)) why

omit [Clients W] in
theorem goes_lastResort {s : St W} (hs : Sited s) : Goes lastResort (fun _ _ => True) s :=
  (goes_failLink hs _).bind fun _ _ ht _ =>
    (goes_calm (calm_bus.pause _) ht).mono fun _ _ _ => trivial

/-! ## Connecting -/

omit [Clients W] in
/-- The exits of `_open_and_connect` go to BACKOFF, or from a link to NO_DEVICES. -/
theorem goes_releaseAndGiveUp {state : LinkState} {s : St W} (hs : Sited s)
    (hst : state = .backoff ∨ state = .noDevices ∧ s.link.isSome = true) (error : String) :
    Goes (releaseAndGiveUp state error) (fun _ t => t.wk.state = state) s := by
  refine (goes_release hs).bind fun _ t ht hq => ?_
  rcases hst with rfl | ⟨rfl, hl⟩
  · exact goes_giveUp ht hq.link (by decide) (backoff_follows (ht.noLink hq.link)) error
  · exact goes_giveUp ht hq.link (by decide) (by rw [hq.releasing hl]; decide) error

omit [Line W] [Clients W] in
/-- `try c except AisgError: …`, where the handler gives the session up. -/
theorem goes_catch {α : Type} {c : WorkerProg W α} {d : Exn → WorkerProg W Unit} {b : α}
    {Q : α → St W → Prop} {s : St W} (hc : Moves Calm c) (hs : Sited s)
    (hQ : ∀ a t, Calm s t → Q a t) (hb : ∀ t, Q b t)
    (hd : ∀ e t, Sited t → Goes (d e) (fun _ _ => True) t) :
    Goes (handle c fun e => if e.isAisg then some (do d e; pure b) else none) Q s := by
  refine goes_handle (calm_wp hc hs hQ) fun e k t hk ht _ => ?_
  split_ifs at hk
  cases hk
  exact (hd e t ht).bind fun _ u hu _ => ⟨hu, hb u⟩

omit [Clients W] in
/-- DISCOVERING, CONNECTING, CONNECTED, or given up on the way. -/
theorem goes_connectSession (cfg : Config) (addr : Byte) {s : St W} (hs : Sited s)
    (hst : s.wk.state = .discovering) :
    Goes (connectSession cfg addr) (fun _ _ => True) s := by
  have hl : s.link.isSome = true := hs.isSome (by rw [hst]; decide)
  unfold connectSession
  refine (goes_held hs hl (by rw [hst]; decide) (by decide) "").bind fun _ t ht hconn => ?_
  refine Goes.bind (Q := fun up u => up = true → u.wk.state = .connecting) (goes_catch
    (moves_bind (moves_onLink (moves_connect (calm_bus).oneShot addr)) fun _ => moves_pure _) ht
    (fun _ u htu _ => htu.state.trans hconn) (fun _ h => nomatch h) fun e u hu =>
      (goes_releaseAndGiveUp hu (Or.inl rfl) _).mono fun _ _ _ => trivial) fun up u hu hup => ?_
  cases up with
  | false => exact ⟨hu, trivial⟩
  | true =>
      have hconn := hup rfl
      refine Goes.after_calm (fun _ => ⟨⟨rfl, rfl, rfl⟩, rfl⟩) hu fun _ v huv hv => ?_
      refine Goes.after_calm (calm_bus.onConnected cfg) hv fun alive x hvx hx => ?_
      have hstate := hvx.state.trans (huv.state.trans hconn)
      cases alive with
      | false =>
          refine Goes.after_calm (moves_read _) hx fun error y _ hy => ?_
          exact (goes_failLink hy _).mono fun _ _ _ => trivial
      | true =>
          refine Goes.after_calm (calm_bus.assign fun _ => rfl) hx fun _ y hxy hy => ?_
          have hstate := hxy.state.trans hstate
          have hl := hy.isSome (by rw [hstate]; decide)
          exact (goes_held hy hl (by rw [hstate]; decide) (by decide) "").mono fun _ _ _ => trivial

omit [Clients W] in
/-- OPENING, DISCOVERING, and the session. -/
theorem goes_discoverSession (cfg : Config) {s : St W} (hs : Sited s)
    (hst : s.wk.state = .opening) (hl : s.link.isSome = true) :
    Goes (discoverSession cfg) (fun _ _ => True) s := by
  unfold discoverSession
  refine Goes.after_calm (calm_clearStaleLinks cfg) hs fun _ t hst' ht => ?_
  refine (goes_held ht (hst'.link.trans hl) (by rw [hst'.state, hst]; decide) (by decide) "").bind
    fun _ u hu hdisc => ?_
  refine Goes.bind (Q := fun found v => found ≠ none → v.wk.state = .discovering) (goes_catch
    (moves_bind (calm_bus.discover cfg) fun _ => moves_pure _) hu
    (fun _ v huv _ => huv.state.trans hdisc) (fun _ h => absurd rfl h) fun e v hv =>
      (goes_releaseAndGiveUp hv (Or.inl rfl) _).mono fun _ _ _ => trivial)
        fun found v hv hfound => ?_
  rcases found with _ | _ | addr
  · exact ⟨hv, trivial⟩
  · have hstate := hfound (by simp)
    exact (goes_releaseAndGiveUp hv (Or.inr ⟨rfl, hv.isSome (by rw [hstate]; decide)⟩) _).mono
      fun _ _ _ => trivial
  · exact goes_connectSession cfg addr hv (hfound (by simp))

omit [Clients W] in
/-- `AisgLink(…)`: there is a link object, or nothing has changed. -/
theorem wp_openLink_calm (cfg : Config) (s : St W) :
    wp (openLink cfg) (fun _ t => Hush s t ∧ t.link.isSome = true) (fun _ t => Calm s t)
      (fun t => Calm s t) s := by
  unfold wp openLink
  rcases Line.serialOpen s.world with ⟨r, w⟩
  cases r with
  | error e => exact ⟨⟨rfl, rfl, rfl⟩, rfl⟩
  | ok u =>
      dsimp only
      rcases (Line.setDtr w : Outcome String Unit × W) with ⟨o, w'⟩
      cases o with
      | ret v => exact ⟨⟨rfl, rfl, rfl⟩, rfl⟩
      | raise msg => exact ⟨⟨rfl, rfl, rfl⟩, rfl⟩
      | stall => exact ⟨⟨rfl, rfl, rfl⟩, rfl⟩

/-- From a state without a link, by way of OPENING. -/
theorem goes_openAndConnect (cfg : Config) {s : St W} (hs : Sited s)
    (hst : s.wk.state ∈ [LinkState.closed, .portBusy, .portLost, .noDevices]) :
    Goes (openAndConnect cfg) (fun _ _ => True) s := by
  have hnext : .opening ∈ follows s.wk.state ∧ s.wk.state ∉ withLink := by
    revert hst
    cases s.wk.state <;> decide
  have hl := hs.eq_none hnext.2
  unfold openAndConnect
  refine (goes_setState hs hnext.1 (fun _ => by decide) (fun _ => by decide) "").bind
    fun _ t ht hopen => ?_
  refine Goes.after_calm (calm_bus).sync ht fun _ u htu hu => ?_
  have hstate : u.wk.state = .opening := htu.state.trans hopen.2
  have hl : u.link = none := by
    rw [← Option.not_isSome_iff_eq_none, htu.link, hopen.1, hl]
    decide
  refine Goes.bind (Q := fun up v => up = true → v.wk.state = .opening ∧ v.link.isSome = true)
    (goes_handle (E := fun v => Calm u v) ?_ fun e k v hk hv huv => ?_) fun up v hv hup => ?_
  · rw [wp_bind]
    refine (wp_openLink_calm cfg u).mono (fun _ v hv => ⟨⟨?_, fun _ => ?_, fun hn => ?_⟩,
      fun _ => ⟨hv.1.state.trans hstate, hv.2⟩⟩) (fun _ v hv => ⟨hv.sited hu, hv⟩) fun v hv =>
        hv.sited hu
    · exact hu.onMap.hush hv.1
    · rw [hv.1.state, hstate]
      decide
    · rw [hn] at hv
      exact absurd hv.2 (by decide)
  · split_ifs at hk
    cases hk
    have hfailed := openFailure_failed e
    have hvl : v.link = none := by
      rw [← Option.not_isSome_iff_eq_none, huv.link, hl]
      decide
    refine (goes_giveUp hv hvl hfailed ?_ _).bind fun _ x hx _ => ⟨hx, fun h => nomatch h⟩
    rw [huv.state, hstate]
    cases e <;> exact List.mem_of_elem_eq_true rfl
  cases up with
  | false => exact ⟨hv, trivial⟩
  | true => exact goes_discoverSession cfg hv (hup rfl).1 (hup rfl).2

/-! ## Monitoring -/

omit [Clients W] in
theorem goes_pollAlarms (cfg : Config) {s : St W} (hs : Sited s) (hst : s.wk.state = .connected) :
    Goes (pollAlarms cfg) (fun _ t => t.wk.state ∈ [LinkState.connected, .backoff]) s := by
  have hparked : Moves Calm (update Worker.drainIndications : WorkerProg W Unit) :=
    (calm_bus).parked
  have hconn : ∀ {t : St W}, Calm s t → t.wk.state ∈ [LinkState.connected, .backoff] := by
    intro t h
    rw [h.state, hst]
    decide
  unfold pollAlarms
  refine Goes.after_calm (moves_read _) hs fun a t hst' ht => ?_
  refine goes_ensure (goes_handle (E := fun u => Calm s u) ?_ fun e k u hk hu hsu => ?_) hparked
    fun _ u v hu huv => huv.state ▸ hu
  · have hon : ∀ {u}, Calm t u → Calm s u := fun h => IsTrans.trans _ _ _ hst' h
    refine (calm_wp (Q := fun _ u => u.wk.state ∈ [LinkState.connected, .backoff]) ?_ ht
      fun _ u h => hconn (hon h)).mono (fun _ _ h => h) (fun _ u h => ⟨h.1, hon h.2⟩) fun _ h => h
    refine moves_bind (moves_getAlarmStatus (calm_bus.ret cfg a reports_nothing)) fun names =>
      moves_bind (fun s => (calm_bus).report s names) fun _ => ?_
    exact moves_bind (moves_getTilt (calm_bus.ret cfg a reports_nothing)) fun _ =>
      (calm_bus).assign fun _ => rfl
  · unfold onReset at hk
    split_ifs at hk with hreset <;> cases hk
    · exact (goes_failLink hu _).mono fun _ v hv => by rw [hv]; decide
    · exact ⟨hu, hconn hsu⟩

omit [Clients W] in
theorem goes_keepaliveFrame (addr : Byte) (f : Rx) {s : St W} (hs : Sited s) :
    Goes (keepaliveFrame addr () f) (fun _ _ => True) s := by
  unfold keepaliveFrame Goes
  rw [wp_ite]
  refine ⟨fun _ => ⟨hs, trivial⟩, fun _ => ?_⟩
  refine Goes.after_calm (moves_onLink (moves_logEvent fun s ports n sh =>
    (calm_bus).wire (around s ports n sh) _ rfl)) hs fun _ t _ ht => ?_
  unfold Goes
  rw [wp_ite, wp_ite]
  refine ⟨fun _ => ?_, fun _ => ⟨fun _ => ?_, fun _ => ⟨ht, trivial⟩⟩⟩
  · exact (goes_failLink ht _).bind fun _ u hu _ => ⟨hu, trivial⟩
  · refine Goes.after_calm (moves_onLink (moves_read _)) ht fun p u _ hu => ?_
    refine Goes.after_calm (moves_onlyIf fun hb =>
      (calm_bus).keepaliveTake addr p.vr f (of_decide_eq_true hb)) hu fun _ v _ hv => ⟨hv, trivial⟩

omit [Clients W] in
theorem goes_keepalivePoll {s : St W} (hs : Sited s) :
    Goes keepalivePoll (fun _ _ => True) s := by
  unfold keepalivePoll
  refine goes_rescue ?_ fun e d t hk ht => ?_
  · refine Goes.after_calm (moves_read _) hs fun held t _ ht => ?_
    refine Goes.after_calm (moves_octet held) ht fun a u _ hu => ?_
    refine Goes.after_calm (moves_onLink (moves_read _)) hu fun p v _ hv => ?_
    refine Goes.after_calm (calm_bus.onWrite _) hv fun _ x _ hx => ?_
    refine Goes.after_calm (calm_bus.onRead _) hx fun frames y _ hy => ?_
    exact (goes_scan (fun _ f z hz => goes_keepaliveFrame a f hz) () frames hy).bind
      fun _ z hz _ => ⟨hz, trivial⟩
  · unfold onOsOrAisg at hk
    split_ifs at hk
    cases hk
    exact (goes_failLink ht _).mono fun _ _ _ => trivial

omit [Clients W] in
theorem goes_drain (cfg : Config) {s : St W} (hs : Sited s) (hst : s.wk.state = .draining) :
    Goes (drain cfg) (fun _ _ => True) s := by
  unfold drain
  refine Goes.after_calm (calm_bus).clock hs fun now t hst' ht => ?_
  refine Goes.bind (Q := fun quiet u => quiet = true → u.wk.state = .draining) (goes_rescue
    ((goes_calm (moves_bind (moves_loop (fun _ => (calm_bus).drainPass _) _ _) fun _ => moves_pure _)
      ht).mono fun _ u htu _ => htu.state.trans (hst'.state.trans hst)) fun e k u hk hu => ?_)
        fun quiet u hu hquiet => ?_
  · unfold onOsOrAisg at hk
    split_ifs at hk
    cases hk
    exact (goes_failLink hu _).bind fun _ v hv _ => ⟨hv, fun h => nomatch h⟩
  · cases quiet with
    | false => exact ⟨hu, trivial⟩
    | true =>
        have hstate := hquiet rfl
        have hl := hu.isSome (by rw [hstate]; decide)
        exact (goes_held hu hl (by rw [hstate]; decide) (by decide) "").mono fun _ _ _ => trivial

omit [Clients W] in
/-- From CONNECTED the port is given back by way of RELEASING. -/
theorem goes_giveBack {s : St W} (hs : Sited s)
    (hst : s.wk.state ∈ [LinkState.connected, .backoff]) : Goes giveBack (fun _ _ => True) s := by
  refine (goes_release hs).bind fun _ t ht hq => ?_
  refine (goes_free ht hq.link ?_ (by decide) "").mono fun _ _ _ => trivial
  cases hl : s.link with
  | some l =>
      rw [hq.releasing (by rw [hl]; rfl)]
      decide
  | none =>
      have hback : s.wk.state = .backoff := by
        have hno := hs.noLink hl
        revert hst hno
        cases s.wk.state <;> decide
      rw [hq.same hl, hback]
      decide

omit [Clients W] in
theorem goes_keepOrRelease (cfg : Config) (now : Time) {s : St W} (hs : Sited s)
    (hst : s.wk.state ∈ [LinkState.connected, .backoff]) :
    Goes (keepOrRelease cfg now) (fun _ _ => True) s := by
  unfold keepOrRelease Goes
  rw [wp_ite]
  refine ⟨fun _ => ?_, fun _ => ?_⟩
  · refine Goes.after_calm (moves_read _) hs fun last t _ ht => ?_
    refine goes_onlyIf ht (fun _ => ?_) fun _ => trivial
    exact Goes.after_calm (calm_bus.assign fun _ => rfl) ht fun _ u _ hu => goes_keepalivePoll hu
  · refine Goes.after_calm (moves_read _) hs fun busyAt t hst' ht => ?_
    exact goes_onlyIf ht (fun _ => goes_giveBack ht (hst'.state.symm ▸ hst)) fun _ => trivial

theorem goes_connectedHousekeeping (cfg : Config) (now : Time) {s : St W} (hs : Sited s)
    (hst : s.wk.state = .connected) :
    Goes (connectedHousekeeping cfg now) (fun _ _ => True) s := by
  have hup : s.wk.state ∈ [LinkState.connected, .backoff] := by
    rw [hst]
    decide
  unfold connectedHousekeeping Goes
  rw [wp_bind, wp_self, wp_ite]
  refine ⟨fun _ => ?_, fun _ => goes_keepOrRelease cfg now hs hup⟩
  refine Goes.after_calm (calm_bus.assign fun _ => rfl) hs fun _ t hst' ht => ?_
  refine (goes_pollAlarms cfg ht (hst'.state.trans hst)).bind fun _ u hu hup => ?_
  unfold Goes
  rw [wp_ite]
  refine ⟨fun _ => ?_, fun _ => goes_keepOrRelease cfg now hu hup⟩
  refine Goes.after_calm (calm_bus.shared _) hu fun empty v huv hv => ?_
  have hup := huv.state.symm ▸ hup
  unfold Goes
  rw [wp_ite]
  exact ⟨fun _ => goes_giveBack hv hup, fun _ => goes_keepOrRelease cfg now hv hup⟩

/-! ## One step -/

/-- What the machine does in each state is on the map. -/
theorem goes_stepState (cfg : Config) (now : Time) {s : St W} (hs : Sited s) :
    Goes (stepState cfg now) (fun _ _ => True) s := by
  have hopen : s.wk.state ∈ [LinkState.closed, .portBusy, .portLost, .noDevices] → Goes (do
      let wanted ← shouldOpen cfg now
      onlyIf wanted (openAndConnect cfg) : WorkerProg W Unit) (fun _ _ => True) s := by
    intro hst
    refine Goes.after_calm (calm_bus.shouldOpen cfg now) hs fun wanted t hst' ht => ?_
    exact goes_onlyIf ht (fun _ => goes_openAndConnect cfg ht (hst'.state.symm ▸ hst))
      fun _ => trivial
  unfold stepState Goes
  rw [wp_bind, wp_self]
  cases hst : s.wk.state with
  | closed | portBusy | portLost | noDevices =>
      simp only [id, hst]
      exact hopen (by rw [hst]; decide)
  | backoff =>
      simp only [id, hst]
      have hl := hs.eq_none (by rw [hst]; decide)
      exact goes_onlyIf hs (fun _ => (goes_free hs hl (by rw [hst]; decide) (by decide) "").mono
        fun _ _ _ => trivial) fun _ => trivial
  | draining =>
      simp only [id, hst]
      exact goes_drain cfg hs hst
  | connected =>
      simp only [id, hst]
      exact goes_connectedHousekeeping cfg now hs hst
  | opening | discovering | connecting | releasing | leased | shutdown =>
      simp only [id, hst]
      exact ⟨hs, trivial⟩

/-- A lease takes the port from a session that is up, or the state of one that is down. -/
theorem goes_step (cfg : Config) {s : St W} (hs : Sited s) (hland : Landed s) :
    Goes (step cfg) (fun _ _ => True) s := by
  unfold step
  refine Goes.after_calm (calm_bus).clock hs fun now t hst ht => ?_
  refine Goes.after_calm (calm_bus.shared _) ht fun until_ u htu hu => ?_
  have hland : Landed u := htu.landed (hst.landed hland)
  unfold Goes
  rw [wp_bind, wp_self, wp_ite]
  refine ⟨fun _ => ?_, fun _ => ?_⟩
  · refine Goes.bind (goes_onlyIf hu (fun _ => goes_vacate hu hland) fun hin => ?_)
      fun _ v hv hq => (goes_free hv hq.1 hq.follows.1 (by decide) "").mono fun _ _ _ => trivial
    have hin : u.wk.state ∈ [LinkState.leased, .closed] := not_not.1 (of_decide_eq_false hin)
    have hl : u.link = none := hu.eq_none (by revert hin; cases u.wk.state <;> decide)
    exact ⟨hl, List.mem_cons_of_mem _ (hland hl)⟩
  · refine Goes.bind (Q := fun _ _ => True) (goes_onlyIf hu (fun hin => ?_) fun _ => trivial)
      fun _ v hv _ => goes_stepState cfg _ hv
    have hin : u.wk.state = .leased := of_decide_eq_true hin
    exact (goes_free hu (hu.eq_none (by rw [hin]; decide)) (by rw [hin]; decide) (by decide)
      "").mono fun _ _ _ => trivial

theorem goes_refreshLease {s : St W} (hs : Sited s) : Goes refreshLease (fun _ _ => True) s := by
  unfold refreshLease Goes
  rw [wp_bind, wp_self]
  refine goes_onlyIf hs (fun hst => ?_) fun _ => trivial
  have hst : s.wk.state = .leased := of_decide_eq_true hst
  refine Goes.after_calm (calm_bus.shared _) hs fun until_ t hst₁ ht => ?_
  refine Goes.after_calm (calm_bus).clock ht fun now u hst₂ hu => ?_
  have hstate : u.wk.state = .leased := hst₂.state.trans (hst₁.state.trans hst)
  exact goes_onlyIf hu (fun _ => (goes_free hu (hu.eq_none (by rw [hstate]; decide))
    (by rw [hstate]; decide) (by decide) "").mono fun _ _ _ => trivial) fun _ => trivial

/-! ## Commands -/

theorem goes_runCommand (cfg : Config) (cmd : Command) (a : Option Byte) {s : St W} (hs : Sited s)
    (hst : s.wk.state = .connected) : Goes (runCommand cfg cmd a) (fun _ _ => True) s := by
  have hresolve : ∀ {t : St W} (e : Exn), Sited t → Goes (do
      resolve cmd.seq (.error e)
      pure none : WorkerProg W (Option Result)) (fun _ _ => True) t := fun e ht =>
    Goes.after_calm (calm_resolve _ _) ht fun _ _ _ hu => ⟨hu, trivial⟩
  unfold runCommand
  refine Goes.bind (Q := fun _ _ => True) (goes_handle (E := fun t => Calm s t) (calm_wp
    (moves_bind (moves_callCommand (calm_bus.ret cfg a (Books.onPoll cmd.name)) _ _) fun _ =>
      moves_pure _) hs fun _ _ _ => trivial) fun e k t hk ht hst' => ?_) fun result t ht _ => ?_
  · have hconn := hst'.state.trans hst
    unfold onReset at hk
    split_ifs at hk with hreset <;> cases hk
    · refine Goes.after_calm (calm_bus.assign fun _ => rfl) ht fun _ u _ hu => ?_
      exact (goes_failLink hu _).bind fun _ v hv _ => hresolve e hv
    · refine Goes.after_calm (calm_bus.assign fun _ => rfl) ht fun _ u htu hu => ?_
      have hconn := htu.state.trans hconn
      have hl := hu.isSome (by rw [hconn]; decide)
      have hdrain : Goes (setState .draining "late response expected")
          (fun _ v => v.wk.state = .draining) u :=
        goes_held hu hl (by rw [hconn]; decide) (by decide) _
      exact (goes_onlyIf hu (fun _ => hdrain.mono fun _ _ _ => trivial) fun _ => trivial).bind
        (Q := fun _ _ => True) fun _ v hv _ => hresolve e hv
  · cases result with
    | none => exact ⟨ht, trivial⟩
    | some x =>
        have habsorb : Moves Calm (absorb x : WorkerProg W Unit) := fun u =>
          (calm_bus).absorb fun _ _ => ⟨⟨rfl, rfl, rfl⟩, rfl⟩
        refine Goes.after_calm habsorb ht fun _ u _ hu => ?_
        exact (goes_calm (calm_resolve _ _) hu).mono fun _ _ _ => trivial

theorem goes_execute (cfg : Config) (cmd : Command) {s : St W} (hs : Sited s)
    (hst : s.wk.state = .connected) : Goes (execute cfg cmd) (fun _ _ => True) s := by
  unfold execute
  refine Goes.after_calm (moves_read _) hs fun a t hst' ht => ?_
  refine Goes.after_calm (calm_bus.noteTarget cmd) ht fun _ u htu hu => ?_
  have hconn := htu.state.trans (hst'.state.trans hst)
  exact goes_ensure (goes_runCommand cfg cmd a hu hconn) (calm_bus).wrapUp fun _ _ _ _ _ => trivial

theorem goes_attempt (cmd : Command) {s : St W} (hs : Sited s) : Goes (attempt cmd) Called s := by
  have hother : ∀ {t : St W} {v : Verdict}, Sited t → (∀ c, v ≠ .execute c) →
      Goes (pure v) Called t := fun ht hv => ⟨ht, fun c hc => absurd hc (hv c)⟩
  unfold attempt
  refine (goes_refreshLease hs).bind fun _ t ht _ => ?_
  unfold Goes
  rw [wp_bind, wp_self, wp_ite, wp_ite]
  refine ⟨fun hst => ?_, fun _ => ⟨fun _ => ?_, fun _ => ?_⟩⟩
  · exact Goes.after_calm (calm_queue.claim _) ht fun claimed u htu hu =>
      ⟨hu, fun _ _ => htu.state.trans hst⟩
  · refine Goes.after_calm (moves_read _) ht fun error u _ hu => ?_
    refine Goes.after_calm (calm_queue.abandon _ rfl) hu fun _ v _ hv => ?_
    exact hother hv fun c hc => nomatch hc
  · refine Goes.after_calm (calm_bus).clock ht fun now u _ hu => ?_
    unfold Goes
    rw [wp_ite]
    refine ⟨fun _ => ?_, fun _ => ?_⟩
    · refine Goes.after_calm (calm_queue.abandon _ rfl) hu fun _ v _ hv => ?_
      exact hother hv fun c hc => nomatch hc
    · refine Goes.after_calm (calm_bus.assign fun _ => rfl) hu fun _ v _ hv => ?_
      exact hother hv fun c hc => nomatch hc

theorem goes_opening (cfg : Config) {s : St W} (hs : Sited s) : Goes (opening cfg) Called s := by
  have hgo : ∀ {t : St W}, Sited t → Goes (pure .goOn) Called t :=
    fun ht => ⟨ht, fun c hc => nomatch hc⟩
  unfold opening
  refine Goes.after_calm (calm_bus.shared _) hs fun stop t _ ht => ?_
  unfold Goes
  rw [wp_ite]
  refine ⟨fun _ => hgo ht, fun _ => ?_⟩
  refine Goes.after_calm (calm_bus).clock ht fun now u _ hu => ?_
  refine Goes.after_calm (calm_bus.assign fun _ => rfl) hu fun _ v _ hv => ?_
  unfold dispatch
  refine (goes_refreshLease hv).bind fun _ x hx _ => ?_
  refine Goes.after_calm (moves_read _) hx fun head y _ hy => ?_
  refine Goes.after_calm (moves_onlyIf fun _ => moves_bind (calm_queue.take cfg) fun _ =>
    (calm_queue).setHead _) hy fun _ z _ hz => ?_
  refine Goes.after_calm (moves_read _) hz fun head z' _ hz' => ?_
  cases head with
  | none => exact hgo hz'
  | some cmd => exact goes_attempt cmd hz'

/-! ## Runs -/

section Runs

variable {cfg : Config} {s : St W}

theorem goes_toHandler (hs : Sited s) (hp : Paired s) (hstop : stopSeen s = false) :
    Goes (toHandler cfg) (fun _ _ => True) s := by
  unfold Goes wp
  rw [toHandler_eq hstop]
  show Goes (opening cfg >>= finish cfg) (fun _ _ => True) s
  unfold Goes
  rw [wp_bind]
  have hpairs := pairs_opening cfg s hp
  refine wp_iff.2 ⟨fun v t ht => ?_, fun e t ht => ?_, fun t ht => ?_⟩
  · obtain ⟨hsited, hcalled⟩ := (wp_iff.1 (goes_opening cfg hs)).1 v t ht
    cases v with
    | execute cmd =>
        exact (goes_execute cfg cmd hsited (hcalled cmd rfl)).bind fun _ u hu _ =>
          (goes_calm (calm_queue.setHead _) hu).mono fun _ _ _ => trivial
    | finished => exact (goes_calm (calm_queue.setHead _) hsited).mono fun _ _ _ => trivial
    | goOn => exact goes_step cfg hsited (Paired.landed ((wp_iff.1 hpairs).1 _ _ ht))
  · exact (wp_iff.1 (goes_opening cfg hs)).2.1 e t ht
  · exact (wp_iff.1 (goes_opening cfg hs)).2.2 t ht

/-- The thread ends in SHUTDOWN. -/
theorem shutdown_onMap (cfg : Config) (hs : Sited s) (hland : Landed s) :
    wp (do
      teardown cfg
      setState .shutdown
      pure false : WorkerProg W Bool) (fun more t => OnMap t.wk ∧ (more = true → Sited t))
      (fun _ t => OnMap t.wk) (fun t => OnMap t.wk) s := by
  have hdown : Goes (teardown cfg) (fun _ t => Vacated t) s :=
    Goes.after_calm (calm_queue.flushQueue cfg) hs fun _ t hst ht => goes_vacate ht (hst.landed hland)
  rw [wp_bind]
  refine wp.mono hdown (fun _ t ht => ?_) (fun _ _ h => h.onMap) fun _ h => h.onMap
  exact ⟨ht.1.onMap.setState ht.2.follows.2 "", fun h => nomatch h⟩

/-- A pass keeps to the map, however it ends; at the next head the worker is sited again. -/
theorem runPass_onMap (hs : Sited s) (hp : Paired s) :
    wp (runPass cfg) (fun more t => OnMap t.wk ∧ (more = true → Sited t)) (fun _ t => OnMap t.wk)
      (fun t => OnMap t.wk) s := by
  by_cases hstop : stopSeen s = true
  · have hcalm : Calm s (atAccess s) := ⟨⟨rfl, rfl, rfl⟩, rfl⟩
    unfold runPass
    rw [wp_bind, wp_atAccess, wp_ite]
    exact ⟨fun _ => shutdown_onMap cfg (hcalm.sited hs) (hcalm.landed hp.landed),
      fun hno => absurd hstop hno⟩
  · have hstop : stopSeen s = false := Bool.eq_false_iff.2 hstop
    have hpass : Goes (handle (toHandler cfg) fun _ => some lastResort) (fun _ _ => True) s :=
      goes_rescue (goes_toHandler hs hp hstop) fun _ d t hd ht => by
        cases hd
        exact goes_lastResort ht
    unfold wp
    rw [runPass_eq hstop]
    show wp (handle (toHandler cfg) (fun _ => some lastResort) >>= fun _ => pure true) _ _ _ s
    rw [wp_bind]
    exact wp.mono hpass (fun _ t h => ⟨h.1.onMap, fun _ => h.1⟩) (fun _ _ h => h.onMap)
      fun _ h => h.onMap

end Runs

omit [Line W] [Clients W] in
theorem sited_init (w : W) : Sited (St.init w) where
  onMap := ⟨List.isChain_singleton _, rfl⟩
  link h := nomatch h
  noLink _ := List.mem_cons_self ..

/-- The worker is sited at every head. -/
theorem sited_head {cfg : Config} {w : W} {s : St W} (h : Head cfg w s) : Sited s := by
  induction h with
  | refl => exact sited_init w
  | @tail s t hs hp ih =>
      have hpass := (wp_iff.1 (runPass_onMap ih (paired_head hs))).1 true t hp
      exact hpass.2 rfl

/-- **The announced states are a path on the map.**  For every behaviour of the bus and of the
other threads, at every head of the loop and however the last pass ends. -/
theorem run_on_map {cfg : Config} {w : W} {s t : St W} (h : Head cfg w s)
    (ht : t = s ∨ t = (runPass cfg s).2) :
    t.wk.route.IsChain (fun a b => b ∈ follows a) ∧ t.wk.route.getLast? = some t.wk.state := by
  have hs := sited_head h
  have hmap : OnMap t.wk := by
    rcases ht with rfl | rfl
    · exact hs.onMap
    · exact wp.leaves (P := fun t => OnMap t.wk) ((runPass_onMap hs (paired_head h)).mono
        (fun _ _ h => h.1) (fun _ _ h => h) fun _ h => h)
  exact ⟨hmap.path, hmap.last⟩

/-- A session is set up, and handed over to the holder of a lease. -/
theorem run_on_map_leased :
    (runPasses attentive 2 (connectedHead 8 [])).wk.route =
        [.closed, .opening, .discovering, .connecting, .connected, .releasing, .leased] ∧
      (runPasses attentive 2 (connectedHead 8 [])).wk.route.IsChain (fun a b => b ∈ follows a) := by
  have hhead : Head attentive (leasesAt 8 []) (runPasses attentive 2 (connectedHead 8 [])) :=
    (reaches_runPasses attentive 1 (St.init (leasesAt 8 []))).trans
      (reaches_runPasses attentive 2 (connectedHead 8 []))
  exact ⟨by decide +kernel, (run_on_map hhead (Or.inl rfl)).1⟩

end OpenAisg.Session
