import OpenAisg.Link.Replies
import OpenAisg.Session.Lease

/-!
# The `link` events

`_set_state` emits unless the state is the current one and the error is `_last_error`.  But
`_last_error` is never cleared, so a repeated call without an error is not recognised once there
has been an error.

* `Announced` — a `link` event for every call of `_set_state` that does not repeat the last one;
  `announced_setState_iff` says which calls keep that.
* `Tidy` — the last event is about the current state, and without an error where the state is
  entered without one.
* `Hush` — what leaves the state and its announcement alone, and `Says` — a method that keeps
  the worker tidy, however it ends.
* `Voiced` — an `OSError` of the port has a text, and `Raises (Texted …)` — so has every error
  that a method catches.  An error without a text would be announced like none.
* `Restful` — the catch-all handler announces its failure rightly; `Discreet` — so does a whole
  pass, for it finds no lease still on after an earlier error.
* `events_differ` — then two consecutive `link` events differ.
* `event_repeated` — and a lease that goes on repeating its event.
-/

namespace OpenAisg.Session

open Hdlc Link Retap Prog Trace

variable {W : Type} [Line W] [Clients W]

/-! ## One call, one event -/

theorem linksOf_append (es fs : List Event) : linksOf (es ++ fs) = linksOf es ++ linksOf fs :=
  List.filterMap_append

@[simp] theorem linksOf_map_alarm (es : List AlarmEvent) : linksOf (es.map .alarm) = [] := by
  rw [linksOf, List.filterMap_map]
  exact List.filterMap_none es

/-- The `link` events are the calls of `_set_state`, without those that repeat the one before. -/
def Announced (wk : Worker) : Prop := linksOf wk.emitted = wk.asked.destutter (· ≠ ·)

/-- The last `link` event. -/
def Worker.lastLink (wk : Worker) : Option (LinkState × String) := (linksOf wk.emitted).getLast?

section Calls

variable {wk : Worker} {state : LinkState} {error : String}

/-- Every call is on record. -/
theorem setState_asked (wk : Worker) (state : LinkState) (error : String) :
    (wk.setState state error).asked = wk.asked ++ [(state, error)] := by
  obtain ⟨es, hc, -⟩ := wk.setState_core state error
  exact congrArg Core.asked hc

/-- A call that emits. -/
theorem setState_links (h : ¬ (state = wk.state ∧ error = wk.lastError)) :
    linksOf (wk.setState state error).emitted = linksOf wk.emitted ++ [(state, error)] := by
  unfold Worker.setState
  rw [if_neg h, linksOf_append]
  rfl

/-- A call that does not. -/
theorem setState_links_same (h : state = wk.state ∧ error = wk.lastError) :
    linksOf (wk.setState state error).emitted = linksOf wk.emitted := by
  unfold Worker.setState
  rw [if_pos h]

/-- An error is remembered until the next one. -/
theorem setState_lastError (h : error ≠ "") : (wk.setState state error).lastError = error := by
  unfold Worker.setState
  by_cases hsame : state = wk.state ∧ error = wk.lastError
  · rw [if_pos hsame]
    exact hsame.2.symm
  · rw [if_neg hsame]
    exact if_neg h

/-- **When a call is announced rightly.**  The test of `_set_state` has to tell whether the pair is
the one of the last event. -/
theorem announced_setState_iff (h : Announced wk) : Announced (wk.setState state error) ↔
    ((state = wk.state ∧ error = wk.lastError) ↔ wk.lastLink = some (state, error)) := by
  unfold Announced Worker.lastLink at *
  rw [setState_asked, destutter_concat, ← h]
  by_cases hsame : state = wk.state ∧ error = wk.lastError
  · rw [setState_links_same hsame, iff_true_left hsame]
    split_ifs with hlast
    · exact iff_of_true rfl hlast
    · simp [hlast]
  · rw [setState_links hsame, iff_false_left hsame]
    split_ifs with hlast
    · simp [hlast]
    · exact iff_of_true rfl hlast

end Calls

/-! ## A tidy worker -/

/-- The states in which the last event carries no error. -/
def errorless : List LinkState := [.releasing, .backoff, .leased]

/-- The calls have been announced, and the last event is about this state, with this error. -/
structure Noted (error : String) (wk : Worker) : Prop where
  announced : Announced wk
  last : wk.lastLink = some (wk.state, error)

/-- The calls have been announced, and the last event fits the state. -/
structure Tidy (wk : Worker) : Prop where
  announced : Announced wk
  last : ∀ c, wk.lastLink = some c → c.1 = wk.state
  errorless : wk.state ∈ errorless → wk.lastLink = some (wk.state, "")

section Tidy

variable {wk : Worker} {state : LinkState} {error : String}

/-- What was noted fits, where the state may have the error. -/
theorem Noted.tidy (h : Noted error wk) (he : wk.state ∈ errorless → error = "") : Tidy wk where
  announced := h.announced
  last c hc := by
    rw [h.last] at hc
    cases hc
    rfl
  errorless hst := by rw [h.last, he hst]

/-- A call that emits, and may. -/
theorem Noted.emit (h : Announced wk) (hsame : ¬ (state = wk.state ∧ error = wk.lastError))
    (hlast : wk.lastLink ≠ some (state, error)) : Noted error (wk.setState state error) where
  announced := (announced_setState_iff h).2 (iff_of_false hsame hlast)
  last := by
    rw [Worker.setState_state, Worker.lastLink, setState_links hsame]
    simp

/-- Another state. -/
theorem Tidy.enter (h : Tidy wk) (hst : state ≠ wk.state) (error : String) :
    Noted error (wk.setState state error) :=
  Noted.emit h.announced (fun hsame => hst hsame.1) fun hlast => hst (h.last _ hlast)

/-- A state without an error. -/
theorem Tidy.move (h : Tidy wk) (hst : state ≠ wk.state) : Tidy (wk.setState state "") :=
  (h.enter hst "").tidy fun _ => rfl

/-- The same state once more: nothing is emitted unless there has been an error. -/
theorem Tidy.stay (h : Tidy wk) (hst : wk.state ∈ Session.errorless) (herr : wk.lastError = "") :
    Tidy (wk.setState wk.state "") := by
  have hsame : wk.state = wk.state ∧ "" = wk.lastError := ⟨rfl, herr.symm⟩
  have hlast : (wk.setState wk.state "").lastLink = some (wk.state, "") := by
    rw [Worker.lastLink, setState_links_same hsame]
    exact h.errorless hst
  have hnoted : Noted "" (wk.setState wk.state "") := by
    refine ⟨(announced_setState_iff h.announced).2 (iff_of_true hsame (h.errorless hst)), ?_⟩
    rw [Worker.setState_state, hlast]
  exact hnoted.tidy fun _ => rfl

end Tidy

/-! ## Steps without a `link` event -/

/-- The state and its announcement are as before. -/
structure Hush (s t : St W) : Prop where
  state : t.wk.state = s.wk.state
  links : linksOf t.wk.emitted = linksOf s.wk.emitted
  asked : t.wk.asked = s.wk.asked

instance : IsPreorder (St W) Hush where
  refl _ := ⟨rfl, rfl, rfl⟩
  trans _ _ _ h h' := ⟨h'.state.trans h.state, h'.links.trans h.links, h'.asked.trans h.asked⟩

omit [Line W] [Clients W] in
theorem Hush.noted {s t : St W} {error : String} (h : Hush s t) (hs : Noted error s.wk) :
    Noted error t.wk := by
  refine ⟨?_, ?_⟩
  · unfold Announced
    rw [h.links, h.asked]
    exact hs.announced
  · rw [Worker.lastLink, h.links, h.state]
    exact hs.last

omit [Line W] [Clients W] in
/-- What leaves the announcement alone keeps it tidy. -/
theorem Hush.tidy {s t : St W} (h : Hush s t) (hs : Tidy s.wk) : Tidy t.wk := by
  have hlast : t.wk.lastLink = s.wk.lastLink := congrArg List.getLast? h.links
  refine ⟨?_, fun c hc => ?_, fun hst => ?_⟩
  · unfold Announced
    rw [h.links, h.asked]
    exact hs.announced
  · rw [h.state]
    exact hs.last c (hlast.symm.trans hc)
  · rw [hlast, h.state]
    exact hs.errorless (h.state ▸ hst)

theorem drainIndications_links (wk : Worker) :
    linksOf wk.drainIndications.emitted = linksOf wk.emitted ∧
      wk.drainIndications.asked = wk.asked := by
  have h : ∀ (ps : List Bytes) (wk' : Worker),
      linksOf (ps.foldl Worker.indicate wk').emitted = linksOf wk'.emitted ∧
        (ps.foldl Worker.indicate wk').asked = wk'.asked := by
    intro ps
    induction ps with
    | nil => exact fun _ => ⟨rfl, rfl⟩
    | cons p ps ih =>
        intro wk'
        obtain ⟨hl, ha⟩ := ih (wk'.indicate p)
        refine ⟨hl.trans ?_, ha⟩
        simp [Worker.indicate, Worker.track, linksOf_append]
  exact h _ _

omit [Line W] [Clients W] in
theorem hush_track (s : St W) (r : List AlarmEvent × AlarmTracker) :
    Hush s { s with wk := s.wk.track r } := by
  refine ⟨rfl, ?_, rfl⟩
  simp [Worker.track, linksOf_append]

omit [Line W] [Clients W] in
theorem hush_lift {a b : LinkSt W Worker} (h : b.user = a.user) : Lift Hush a b := by
  intro ports n sh
  unfold around
  rw [h]
  exact ⟨rfl, rfl, rfl⟩

omit [Clients W] in
/-- The bus announces nothing. -/
theorem hush_frames : FrameClosed (W := W) Hush where
  world _ _ := ⟨rfl, rfl, rfl⟩
  calls _ _ := ⟨rfl, rfl, rfl⟩
  books _ _ h := ⟨h.state, h.links, h.asked⟩
  stored _ _ _ := ⟨rfl, rfl, rfl⟩
  report s _ := ⟨rfl, (hush_track s _).links, rfl⟩
  baseline _ _ := ⟨rfl, rfl, rfl⟩
  parked s := ⟨s.wk.drainIndications_state, (drainIndications_links s.wk).1,
    (drainIndications_links s.wk).2⟩
  wire _ _ _ := ⟨rfl, rfl, rfl⟩
  keepaliveTake addr vr f _ := moves_keepaliveTake (fun _ _ => hush_lift rfl)
    (fun _ _ _ => hush_lift rfl) (fun _ _ _ => hush_lift rfl)
    (fun s pl => ⟨rfl, (hush_track s (s.wk.alarms.indicate pl)).links, rfl⟩) addr vr f
  drainTake f := moves_drainTake (fun _ _ => hush_lift rfl) (fun _ _ _ => hush_lift rfl)
    (fun _ _ _ => hush_lift rfl) f
  log _ _ _ := ⟨rfl, rfl, rfl⟩
  link _ _ _ _ _ := ⟨rfl, rfl, rfl⟩
  iFrame _ _ _ _ := moves_onIFrame (fun _ _ => hush_lift rfl) (fun _ _ _ _ => hush_lift rfl)
    (fun _ _ _ => hush_lift rfl) fun _ _ _ _ _ => ⟨rfl, rfl, rfl⟩

omit [Clients W] in
theorem hush_bus : BusClosed (W := W) Hush := (hush_frames).busClosed

/-- Nor do the futures and the queue. -/
theorem hush_queue : QueueClosed (W := W) Hush :=
  (hush_bus).toQuietClosed.queueClosed (fun _ _ => ⟨rfl, rfl, rfl⟩) fun _ _ => ⟨rfl, rfl, rfl⟩

theorem hush_resolve (seq : ℕ) (o : Except Exn Result) :
    Moves Hush (resolve seq o : WorkerProg W Unit) :=
  (hush_bus).resolve (fun _ _ _ => ⟨rfl, rfl, rfl⟩) seq o

omit [Clients W] in
theorem hush_closeLink : Moves Hush (closeLink : WorkerProg W Unit) :=
  moves_bind (fun _ => ⟨rfl, rfl, rfl⟩) fun _ => (hush_bus).onPort _

omit [Clients W] in
theorem hush_openLink (cfg : Config) : Moves Hush (openLink cfg : WorkerProg W Unit) := by
  intro s
  unfold openLink
  rcases Line.serialOpen s.world with ⟨r, w⟩
  cases r with
  | error e => exact ⟨rfl, rfl, rfl⟩
  | ok u =>
      dsimp only
      rcases (Line.setDtr w : Outcome String Unit × W) with ⟨o, w'⟩
      cases o <;> exact ⟨rfl, rfl, rfl⟩

omit [Clients W] in
theorem hush_clearStaleLinks (cfg : Config) :
    Moves Hush (clearStaleLinks cfg : WorkerProg W Unit) := by
  refine moves_bind (moves_read _) fun held => moves_bind (moves_forEach _ fun addr _ =>
    moves_onAisg (moves_bind (moves_ofExcept _) fun a => ?_) (moves_pure _)) fun _ _ =>
      ⟨rfl, rfl, rfl⟩
  exact moves_onLink (moves_disconnect (hush_bus).oneShot _ _)

/-! ## Methods that keep the worker tidy -/

/-- However the method ends, the worker is tidy. -/
def Says {α : Type} (c : WorkerProg W α) (Q : α → St W → Prop) (s : St W) : Prop :=
  wp c (fun a t => Tidy t.wk ∧ Q a t) (fun _ t => Tidy t.wk) (fun t => Tidy t.wk) s

section Says

variable {α β : Type} {c : WorkerProg W α} {s : St W}

omit [Line W] [Clients W]

/-- Two methods in a row. -/
theorem Says.bind {f : α → WorkerProg W β} {Q : α → St W → Prop} {Q' : β → St W → Prop}
    (hc : Says c Q s) (hf : ∀ a t, Tidy t.wk → Q a t → Says (f a) Q' t) :
    Says (c >>= f) Q' s := by
  unfold Says
  rw [wp_bind]
  exact hc.mono (fun a t h => hf a t h.1 h.2) (fun _ _ h => h) fun _ h => h

theorem Says.mono {Q Q' : α → St W → Prop} (h : Says c Q s) (hQ : ∀ a t, Q a t → Q' a t) :
    Says c Q' s :=
  wp.mono h (fun a t h => ⟨h.1, hQ a t h.2⟩) (fun _ _ h => h) fun _ h => h

theorem says_hush (hc : Moves Hush c) (hs : Tidy s.wk) : Says c (fun _ t => Hush s t) s :=
  (hc.wp s).mono (fun _ _ h => ⟨h.tidy hs, h⟩) (fun _ _ h => h.tidy hs) fun _ h => h.tidy hs

/-- After a step that leaves the state alone. -/
theorem Says.after_hush {f : α → WorkerProg W β} {Q : β → St W → Prop} (hc : Moves Hush c)
    (hs : Tidy s.wk) (hf : ∀ a t, Hush s t → Tidy t.wk → Says (f a) Q t) : Says (c >>= f) Q s :=
  (says_hush hc hs).bind fun a t ht hst => hf a t hst ht

/-- What a handler finds. -/
theorem says_handle_of {k : Exn → Option (WorkerProg W α)} {E : Exn → St W → Prop}
    {Q : α → St W → Prop}
    (hc : wp c (fun a t => Tidy t.wk ∧ Q a t) (fun e t => Tidy t.wk ∧ E e t) (fun t => Tidy t.wk) s)
    (hk : ∀ e d t, k e = some d → E e t → Tidy t.wk → Says d Q t) : Says (handle c k) Q s := by
  unfold Says
  rw [wp_handle]
  refine hc.mono (fun _ _ h => h) (fun e t h => ?_) fun _ h => h
  cases hke : k e with
  | none => exact h.1
  | some d => exact hk e d t hke h.2 h.1

/-- A handler finds the state as it was before the `try`. -/
theorem says_handle {k : Exn → Option (WorkerProg W α)} {P : Exn → Prop} {Q : α → St W → Prop}
    (hc : Moves Hush c) (hP : Raises P c) (hs : Tidy s.wk)
    (hQ : wp c (fun a t => Hush s t → Q a t) (fun _ _ => True) (fun _ => True) s)
    (hk : ∀ e d t, k e = some d → P e → Hush s t → Tidy t.wk → Says d Q t) :
    Says (handle c k) Q s := by
  refine says_handle_of (E := fun e t => P e ∧ Hush s t) ?_ fun e d t hke h ht =>
    hk e d t hke h.1 h.2 ht
  exact (((hc.wp s).and (hP s)).and hQ).mono (fun a t h => ⟨h.1.1.tidy hs, h.2 h.1.1⟩)
    (fun e t h => ⟨h.1.1.tidy hs, h.1.2, h.1.1⟩) fun _ h => h.1.1.tidy hs

/-- Another state, with an error where the state may have one. -/
theorem says_setState {state : LinkState} {error : String} (hs : Tidy s.wk)
    (hst : state ≠ s.wk.state) (he : state ∈ errorless → error = "") :
    Says (setState state error) (fun _ t => t.wk.state = state) s := by
  refine ⟨(hs.enter hst error).tidy ?_, Worker.setState_state _ _ _⟩
  rw [Worker.setState_state]
  exact he

end Says

/-! ## Giving the link up -/

omit [Clients W] in
/-- A release sets RELEASING if there is a link. -/
theorem says_release {s : St W} (hs : Tidy s.wk)
    (hrel : s.link ≠ none → s.wk.state = .releasing → s.wk.lastError = "") :
    Says release (fun _ t => if s.link = none then t = s else t.wk.state = .releasing) s := by
  unfold Says release
  rw [wp_bind, wp_read, wp_onlyIf]
  refine ⟨fun hsome => ?_, fun hnone => ⟨hs, by simpa using fun h => absurd hnone (by simp [h])⟩⟩
  have hl : s.link ≠ none := by
    intro hnone
    simp [hnone] at hsome
  rw [wp_bind, wp_setState]
  have htidy : Tidy (s.wk.setState .releasing "") := by
    by_cases hst : s.wk.state = .releasing
    · have hstay := hs.stay (by rw [hst]; decide) (hrel hl hst)
      rwa [hst] at hstay
    · exact hs.move (Ne.symm hst)
  refine (says_hush (s := { s with wk := s.wk.setState .releasing "" }) (moves_bind
    (moves_onOsOrAisg (moves_bind (moves_read _) fun a => ?_) fun _ => moves_pure _) fun _ =>
      moves_bind (moves_handle hush_closeLink fun e k hk => ?_) fun _ _ => ⟨rfl, rfl, rfl⟩)
    htidy).mono fun _ t ht => ?_
  · cases a with
    | none => exact moves_pure _
    | some a => exact moves_onLink (moves_disconnect (hush_bus).oneShot _ _)
  · cases e <;> simp only [reduceCtorEq, Option.some.injEq] at hk
    subst hk
    exact moves_pure _
  · rw [if_neg hl, ht.state]
    exact Worker.setState_state _ _ _

omit [Clients W] in
/-- After a failure with an error comes BACKOFF without one, or nothing. -/
theorem says_armBackoff {s : St W} (hst : s.wk.state ∈ failed) (he : s.wk.lastError ≠ "")
    (hn : Noted s.wk.lastError s.wk) :
    Says armBackoff (fun _ t => t.wk.state = s.wk.state) s := by
  have hafter : ∀ u : St W, Hush s u → u.wk.lastError = s.wk.lastError →
      Says (do
        let state ← self (·.state)
        onlyIf (state ∉ [.portBusy, .portLost, .noDevices]) (setState .backoff))
        (fun _ t => t.wk.state = s.wk.state) u := by
    intro u hu herr
    have hnoted := hu.noted hn
    unfold Says
    rw [wp_bind, wp_self, wp_onlyIf, hu.state]
    refine ⟨fun hin => ?_, fun hin => ⟨hnoted.tidy fun hmem => ?_, hu.state⟩⟩
    · have hback : s.wk.state = .backoff := by
        have hin' : s.wk.state ∉ [LinkState.portBusy, .portLost, .noDevices] := by simpa using hin
        revert hst hin'
        cases s.wk.state <;> decide
      have hemit : Noted "" (u.wk.setState .backoff "") := by
        refine Noted.emit hnoted.announced (fun hsame => he ?_) fun hlast => he ?_
        · rw [← herr, ← hsame.2]
        · rw [hnoted.last] at hlast
          exact (Prod.mk.inj (Option.some.inj hlast)).2
      rw [wp_setState]
      exact ⟨hemit.tidy fun _ => rfl, (Worker.setState_state _ _ _).trans hback.symm⟩
    · have hin' : s.wk.state ∈ [LinkState.portBusy, .portLost, .noDevices] :=
        not_not.1 (of_decide_eq_false hin)
      have hdisjoint : ∀ state ∈ [LinkState.portBusy, .portLost, .noDevices],
          state ∉ errorless := by decide
      exact absurd (hu.state ▸ hmem) (hdisjoint _ hin')
  unfold Says armBackoff
  rw [wp_bind, wp_update, wp_bind, wp_clock, wp_bind, wp_update]
  exact hafter _ ⟨rfl, rfl, rfl⟩ rfl

omit [Clients W] in
theorem says_giveUp {state : LinkState} {error : String} {s : St W} (hst : state ∈ failed)
    (he : error ≠ "") (hn : Noted error (s.wk.setState state error)) :
    Says (giveUp state error) (fun _ t => t.wk.state = state) s := by
  have herr : (s.wk.setState state error).lastError = error := setState_lastError he
  have harm := says_armBackoff (s := { s with wk := s.wk.setState state error })
    (by rwa [Worker.setState_state]) (by rwa [herr]) (by rwa [herr])
  rw [Worker.setState_state] at harm
  exact harm

omit [Clients W] in
theorem says_releaseAndGiveUp {state : LinkState} {error : String} {s : St W} (hs : Tidy s.wk)
    (hst : state ∈ failed) (he : error ≠ "") (hrel : s.wk.state ≠ .releasing)
    (hne : s.wk.state ≠ state) :
    Says (releaseAndGiveUp state error) (fun _ t => t.wk.state = state) s := by
  refine (says_release hs fun _ h => absurd h hrel).bind fun _ t ht hq => ?_
  refine says_giveUp hst he (ht.enter ?_ error)
  split_ifs at hq
  · rw [hq]
    exact hne.symm
  · rw [hq]
    revert hst
    cases state <;> decide

omit [Clients W] in
/-- The same of `_fail_link`. -/
theorem says_failLink {why : String} {s : St W} (hs : Tidy s.wk) (he : why ≠ "")
    (hrel : s.wk.state ≠ .releasing) (hne : s.wk.state ≠ .backoff) :
    Says (failLink why) (fun _ t => t.wk.state = .backoff) s :=
  says_releaseAndGiveUp hs (by decide) he hrel hne

/-- The catch-all handler announces its failure rightly: `_release` has not failed after an
earlier error, and the failure does not repeat itself. -/
structure Restful (s : St W) : Prop where
  release : s.link ≠ none → s.wk.state = .releasing → s.wk.lastError = ""
  backoff : s.link = none → s.wk.state = .backoff → s.wk.lastError ≠ "internal error"

omit [Clients W] in
/-- The catch-all handler, if it has not failed so before. -/
theorem says_lastResort {s : St W} (hs : Tidy s.wk) (hr : Restful s) :
    Says lastResort (fun _ _ => True) s := by
  have hfail : Says (failLink "internal error") (fun _ t => t.wk.state = .backoff) s := by
    refine (says_release hs hr.release).bind fun _ t ht hq => ?_
    refine says_giveUp (by decide) (by decide) ?_
    by_cases hback : t.wk.state = .backoff
    · split_ifs at hq with hl
      · subst hq
        refine Noted.emit ht.announced (fun hsame => hr.backoff hl hback hsame.2.symm) ?_
        rw [ht.errorless (by rw [hback]; decide)]
        simp
      · rw [hback] at hq
        cases hq
    · exact ht.enter (Ne.symm hback) _
  exact hfail.bind fun _ t ht _ => (says_hush (hush_bus.pause _) ht).mono fun _ _ _ => trivial

/-! ## The texts of failures -/

theorem append_ne_left {a : String} (b : String) (h : a ≠ "") : a ++ b ≠ "" :=
  fun hab => h (String.append_eq_empty_iff.1 hab).1

theorem append_ne_right (a : String) {b : String} (h : b ≠ "") : a ++ b ≠ "" :=
  fun hab => h (String.append_eq_empty_iff.1 hab).2

/-- A link reset says what came in. -/
theorem str_of_isReset {e : Exn} (h : e.isReset = true) : e.str ≠ "" := by
  cases e with
  | linkReset addr why =>
      exact append_ne_left _ (append_ne_left _ (append_ne_left _ (by decide)))
  | _ => cases h

/-- A failed open says what failed. -/
theorem openError_str (port : String) (e : SerialException) : (openError port e).str ≠ "" := by
  have hplain : "cannot open " ++ port ++ ": " ++ e.msg ≠ "" :=
    append_ne_left _ (append_ne_left _ (append_ne_left _ (by decide)))
  unfold openError
  cases e.errno with
  | none => exact hplain
  | some n =>
      dsimp only
      split_ifs
      · exact append_ne_right _ (by decide)
      · exact append_ne_right _ (by decide)
      · exact hplain

/-- The port puts a text into its errors. -/
structure Voiced (W : Type) [Line W] : Prop where
  read : ∀ d, Raises (· ≠ "") (Line.readFrames d : Prog W String (List Rx))
  write : ∀ f, Raises (· ≠ "") (Line.write f : Prog W String Unit)

section Texts

variable {α : Type} {caught : Exn → Bool}

omit [Line W] [Clients W] in
/-- What the link object raises, and the error of a worker without one. -/
theorem raises_onLink {c : LinkProg W Worker α} (h : Raises (Texted caught) c)
    (hpy : ∀ cls msg, caught (.py cls msg) = false) :
    Raises (Texted caught) (onLink c : WorkerProg W α) := by
  intro s
  cases hl : s.link with
  | none =>
      unfold wp
      simp only [onLink, hl]
      exact texted_of_not (hpy _ _)
  | some l =>
      have hc := h ⟨s.world, l, s.log, s.wk⟩
      unfold wp at hc ⊢
      simp only [onLink, hl]
      rcases hrun : c ⟨s.world, l, s.log, s.wk⟩ with ⟨o, b⟩
      rw [hrun] at hc
      cases o <;> exact hc

omit [Line W] [Clients W] in
theorem raises_aisg {c : LinkProg W Worker α} (h : Raises (Texted Exn.isAisg) c) :
    Raises (Texted Exn.isAisg) (onLink c : WorkerProg W α) :=
  raises_onLink h fun _ _ => rfl

omit [Clients W] in
theorem raises_assignAll (addr : ℕ) (devs : List Device) :
    Raises (Texted Exn.isAisg) (assignAll addr devs : WorkerProg W (List Device)) := by
  induction devs generalizing addr with
  | nil => exact raises_pure _
  | cons dev devs ih =>
      exact (raises_aisg (raises_assignAddress _ _)).bind fun _ =>
        (ih _).bind fun _ => raises_pure _

omit [Clients W] in
theorem raises_discover (cfg : Config) :
    Raises (Texted Exn.isAisg) (discover cfg : WorkerProg W (Option Byte)) := by
  refine (raises_aisg (raises_scanBus _)).bind fun devices => ?_
  cases devices with
  | cons d ds =>
      exact (raises_assignAll _ _).bind fun _ => (raises_modify _).bind fun _ => raises_pure _
  | nil =>
      refine (raises_aisg (raises_scanAssigned _ _)).bind fun found => Raises.bind
        (raises_forEach (fun dev => ?_) _) fun _ => raises_pure _
      cases dev.address with
      | none => exact raises_pure _
      | some a =>
          refine (raises_aisg (raises_disconnect _ _)).handle (fun e d h _ => ?_) fun _ _ h => h
          unfold onAisg at h
          split_ifs at h
          cases h
          exact raises_pure _

omit [Clients W] in
/-- What `AisgLink()` raises, if it is caught. -/
theorem raises_openLink (cfg : Config) :
    Raises (Texted Exn.isAisg) (openLink cfg : WorkerProg W Unit) := by
  intro s
  unfold wp openLink
  rcases Line.serialOpen s.world with ⟨r, w⟩
  cases r with
  | error e => exact fun _ => openError_str _ _
  | ok u =>
      dsimp only
      rcases (Line.setDtr w : Outcome String Unit × W) with ⟨o, w'⟩
      cases o with
      | raise msg => exact texted_of_not rfl
      | _ => trivial

variable (hv : Voiced W)

include hv

omit [Clients W] in
theorem Voiced.raises_onRead (d : Time) : Raises (Texted Exn.isOsOrAisg)
    (onLink (readFrames d) : WorkerProg W (List Rx)) := by
  refine raises_onLink (fun s => ?_) fun _ _ => rfl
  rw [wp_readFrames]
  exact (hv.read d _).mono (fun _ _ h => h) (fun _ _ h _ => h) fun _ h => h

omit [Clients W] in
theorem Voiced.raises_write (f : Frame) :
    Raises (Texted Exn.isOsOrAisg) (Link.write f : LinkProg W Worker Unit) := by
  intro s
  rw [wp_write]
  exact (hv.write f _).mono (fun _ _ h => h) (fun _ _ h _ => h) fun _ h => h

omit [Clients W] in
theorem Voiced.raises_keepaliveTake (addr : Byte) (vr : Seq) (f : Rx) :
    Raises (Texted Exn.isOsOrAisg) (keepaliveTake addr vr f : WorkerProg W Unit) := by
  refine Raises.bind (raises_onLink ((raises_modify _).bind fun _ => (raises_modify _).bind
    fun _ => hv.raises_write _) fun _ _ => rfl) fun _ => ?_
  exact raises_onlyIf (raises_modify _)

omit [Clients W] in
theorem Voiced.raises_drainPass (end_ : Time) : Raises (Texted Exn.isOsOrAisg)
    (drainPass end_ () : WorkerProg W (Step Unit Unit)) := by
  refine Raises.bind (c := clock) (fun _ => trivial) fun now => raises_ite ?_ (raises_pure _)
  refine (hv.raises_onRead _).bind fun frames => raises_ite (raises_pure _) (Raises.bind
    (raises_forEach (fun f => (raises_read _).bind fun held => raises_onlyIf ?_) _)
      fun _ => raises_pure _)
  refine raises_onLink ((raises_modify _).bind fun _ => (raises_read _).bind fun p =>
    (raises_modify _).bind fun _ => (raises_modify _).bind fun _ => hv.raises_write _) fun _ _ => rfl

end Texts

/-! ## Connecting -/

omit [Line W] [Clients W] in
/-- `try c except AisgError: …`, where the handler gives the session up. -/
theorem says_catch {α : Type} {c : WorkerProg W α} {d : Exn → WorkerProg W Unit} {b : α}
    {Q : α → St W → Prop} {s : St W} (hc : Moves Hush c) (hP : Raises (Texted Exn.isAisg) c)
    (hs : Tidy s.wk)
    (hQ : wp c (fun a t => Hush s t → Q a t) (fun _ _ => True) (fun _ => True) s)
    (hb : ∀ t, Q b t)
    (hd : ∀ e t, e.str ≠ "" → Hush s t → Tidy t.wk → Says (d e) (fun _ _ => True) t) :
    Says (handle c fun e => if e.isAisg then some (do d e; pure b) else none) Q s := by
  refine says_handle hc hP hs hQ fun e k t hk he hst ht => ?_
  split_ifs at hk with haisg
  cases hk
  exact (hd e t (he haisg) hst ht).bind fun _ u hu _ => ⟨hu, hb u⟩

omit [Clients W] in
theorem says_connectSession (cfg : Config) (addr : Byte) {s : St W} (hs : Tidy s.wk)
    (hst : s.wk.state = .discovering) :
    Says (connectSession cfg addr) (fun _ _ => True) s := by
  unfold connectSession
  refine (says_setState hs (by rw [hst]; decide) (by decide)).bind fun _ t ht hconn => ?_
  refine Says.bind (Q := fun up u => up = true → u.wk.state = .connecting) (says_catch
    (moves_bind (moves_onLink (moves_connect (hush_bus).oneShot addr)) fun _ => moves_pure _)
    ((raises_aisg (raises_connect addr)).bind fun _ => raises_pure _) ht ?_ (fun _ h => nomatch h)
    fun e u he htu hu => ?_) fun up u hu hup => ?_
  · exact wp_any (fun _ u htu _ => htu.state.trans hconn) (fun _ _ => trivial)
      (fun _ => trivial) _
  · have hstate := htu.state.trans hconn
    exact (says_releaseAndGiveUp hu (by decide) he (by rw [hstate]; decide)
      (by rw [hstate]; decide)).mono fun _ _ _ => trivial
  cases up with
  | false => exact ⟨hu, trivial⟩
  | true =>
      have hconn := hup rfl
      refine Says.after_hush (fun _ => ⟨rfl, rfl, rfl⟩) hu fun _ v huv hv => ?_
      refine Says.after_hush (hush_bus.onConnected cfg) hv fun alive x hvx hx => ?_
      have hstate := hvx.state.trans (huv.state.trans hconn)
      cases alive with
      | false =>
          refine Says.after_hush (moves_read _) hx fun error y hxy hy => ?_
          have hstate := hxy.state.trans hstate
          refine (says_failLink hy ?_ (by rw [hstate]; decide) (by rw [hstate]; decide)).mono
            fun _ _ _ => trivial
          split_ifs with he
          · decide
          · exact he
      | true =>
          refine Says.after_hush (hush_bus.assign fun _ => rfl) hx fun _ y hxy hy => ?_
          have hstate := hxy.state.trans hstate
          exact (says_setState hy (by rw [hstate]; decide) (by decide)).mono fun _ _ _ => trivial

omit [Clients W] in
theorem says_discoverSession (cfg : Config) {s : St W} (hs : Tidy s.wk)
    (hst : s.wk.state = .opening) : Says (discoverSession cfg) (fun _ _ => True) s := by
  unfold discoverSession
  refine Says.after_hush (hush_clearStaleLinks cfg) hs fun _ t hst' ht => ?_
  refine (says_setState ht (by rw [hst'.state, hst]; decide) (by decide)).bind fun _ u hu hdisc => ?_
  refine Says.bind (Q := fun found v => found ≠ none → v.wk.state = .discovering) (says_catch
    (moves_bind (hush_bus.discover cfg) fun _ => moves_pure _)
    ((raises_discover cfg).bind fun _ => raises_pure _) hu ?_ (fun _ h => absurd rfl h)
    fun e v he huv hv => ?_) fun found v hv hfound => ?_
  · exact wp_any (fun _ v huv _ => huv.state.trans hdisc) (fun _ _ => trivial)
      (fun _ => trivial) _
  · have hstate := huv.state.trans hdisc
    exact (says_releaseAndGiveUp hv (by decide) he (by rw [hstate]; decide)
      (by rw [hstate]; decide)).mono fun _ _ _ => trivial
  rcases found with _ | _ | addr
  · exact ⟨hv, trivial⟩
  · have hstate := hfound (by simp)
    exact (says_releaseAndGiveUp hv (by decide) (by decide) (by rw [hstate]; decide)
      (by rw [hstate]; decide)).mono fun _ _ _ => trivial
  · exact says_connectSession cfg addr hv (hfound (by simp))

/-- Each exit of `_open_and_connect` announces what it is for. -/
theorem says_openAndConnect (cfg : Config) {s : St W} (hs : Tidy s.wk)
    (hst : s.wk.state ≠ .opening) : Says (openAndConnect cfg) (fun _ _ => True) s := by
  unfold openAndConnect
  refine (says_setState hs hst.symm (by decide)).bind fun _ t ht hopen => ?_
  refine Says.after_hush (hush_bus).sync ht fun _ u htu hu => ?_
  have hopen := htu.state.trans hopen
  refine Says.bind (Q := fun up v => up = true → v.wk.state = .opening) (says_catch
    (moves_bind (hush_openLink cfg) fun _ => moves_pure _)
    ((raises_openLink cfg).bind fun _ => raises_pure _) hu ?_ (fun _ h => nomatch h)
    fun e v he huv hv => ?_) fun up v hv hup => ?_
  · exact wp_any (fun _ v huv _ => huv.state.trans hopen) (fun _ _ => trivial)
      (fun _ => trivial) _
  · have hfailed := openFailure_failed e
    refine (says_giveUp hfailed he (hv.enter ?_ _)).mono fun _ _ _ => trivial
    rw [huv.state, hopen]
    revert hfailed
    cases openFailure e <;> decide
  cases up with
  | false => exact ⟨hv, trivial⟩
  | true => exact says_discoverSession cfg hv (hup rfl)

/-! ## Monitoring -/

/-- Up, or given back by `_fail_link`. -/
def Monitored (s : St W) : Prop :=
  s.wk.state = .connected ∨ s.wk.state = .backoff ∧ s.link = none

omit [Line W] [Clients W] in
theorem Monitored.quiet {s : St W} (h : Monitored s) :
    s.wk.state ≠ .releasing ∧ s.wk.state ≠ .closed := by
  rcases h with h | ⟨h, -⟩ <;> rw [h] <;> decide

omit [Line W] [Clients W] in
theorem says_ensure {α : Type} {c : WorkerProg W α} {d : WorkerProg W Unit}
    {Q : α → St W → Prop} {s : St W} (hc : Says c Q s) (hd : Moves Hush d)
    (hQ : ∀ a t, Q a t → wp d (fun _ u => Q a u) (fun _ _ => True) (fun _ => True) t) :
    Says (ensure c d) Q s := by
  unfold Says
  rw [wp_ensure]
  refine wp.mono hc (fun a t ht => ?_) (fun e t ht => ?_) fun _ h => h
  · exact ((hd.wp t).and (hQ a t ht.2)).mono (fun _ _ h => ⟨h.1.tidy ht.1, h.2⟩)
      (fun _ _ h => h.1.tidy ht.1) fun _ h => h.1.tidy ht.1
  · exact (hd.wp t).mono (fun _ _ h => h.tidy ht) (fun _ _ h => h.tidy ht) fun _ h => h.tidy ht

omit [Clients W] in
/-- `_poll_alarms` stays up, or fails the link with the text of the reset. -/
theorem says_pollAlarms (cfg : Config) {s : St W} (hs : Tidy s.wk)
    (hst : s.wk.state = .connected) : Says (pollAlarms cfg) (fun _ t => Monitored t) s := by
  have hparked : Moves Hush (update Worker.drainIndications : WorkerProg W Unit) :=
    (hush_bus).parked
  unfold pollAlarms
  refine Says.after_hush (moves_read _) hs fun a t hst' ht => ?_
  have hconn := hst'.state.trans hst
  refine says_ensure (says_handle (P := fun _ => True) ?_ (fun u => wp_any (fun _ _ => trivial)
    (fun _ _ => trivial) (fun _ => trivial) u) ht ?_ fun e k u hk _ htu hu => ?_) hparked
      fun _ u hu => ?_
  · refine moves_bind (moves_getAlarmStatus (hush_bus.ret cfg a reports_nothing)) fun names =>
      moves_bind (fun s => (hush_bus).report s names) fun _ => ?_
    exact moves_bind (moves_getTilt (hush_bus.ret cfg a reports_nothing)) fun _ =>
      (hush_bus).assign fun _ => rfl
  · exact wp_any (fun _ u htu => Or.inl (htu.state.trans hconn)) (fun _ _ => trivial)
      (fun _ => trivial) _
  · have hconn := htu.state.trans hconn
    unfold onReset at hk
    split_ifs at hk with hreset <;> cases hk
    · unfold Says
      refine ((says_failLink hu (str_of_isReset hreset) (by rw [hconn]; decide)
        (by rw [hconn]; decide)).and (wp_failLink _ u)).mono (fun _ _ h => ⟨h.1.1, Or.inr ⟨h.1.2,
          h.2.2.1⟩⟩) (fun _ _ h => h.1) fun _ h => h.1
    · exact ⟨hu, Or.inl hconn⟩
  · rw [wp_update]
    unfold Monitored at hu ⊢
    rwa [u.wk.drainIndications_state]

omit [Clients W] in
theorem says_giveBack {s : St W} (hs : Tidy s.wk) (hrel : s.wk.state ≠ .releasing)
    (hclosed : s.wk.state ≠ .closed) : Says giveBack (fun _ _ => True) s := by
  refine (says_release hs fun _ h => absurd h hrel).bind fun _ t ht hq => ?_
  refine (says_setState ht ?_ (by decide)).mono fun _ _ _ => trivial
  split_ifs at hq
  · rw [hq]
    exact hclosed.symm
  · rw [hq]
    decide

section Monitoring

variable {α β : Type} {s₀ s : St W}

/-- What `_keepalive_poll` catches comes from a session that is up, and has a text. -/
def Caught (e : Exn) (t : St W) : Prop :=
  e.isOsOrAisg = true → e.str ≠ "" ∧ t.wk.state = .connected

omit [Line W] [Clients W] in
/-- An error of the language is not caught. -/
theorem caught_py {cls : PyError} {msg : String} {t : St W} : Caught (.py cls msg) t := by
  intro he
  cases he

/-- A part of its `try`. -/
def Tries (c : WorkerProg W α) (Q : α → St W → Prop) (s : St W) : Prop :=
  wp c Q (fun e t => Tidy t.wk ∧ Caught e t) (fun t => Tidy t.wk) s

omit [Line W] [Clients W] in
/-- A step of it. -/
theorem Tries.after {c : WorkerProg W α} {f : α → WorkerProg W β} {Q : β → St W → Prop}
    (hs₀ : Tidy s₀.wk) (hconn : s₀.wk.state = .connected) (hc : Moves Hush c)
    (hP : Raises (Texted Exn.isOsOrAisg) c) (hs : Hush s₀ s)
    (hf : ∀ a t, Hush s₀ t → Tries (f a) Q t) : Tries (c >>= f) Q s := by
  have hon : ∀ {t}, Hush s t → Hush s₀ t := fun ht => IsTrans.trans _ _ _ hs ht
  unfold Tries
  rw [wp_bind]
  refine ((hc.wp s).and (hP s)).mono (fun a t ht => hf a t (hon ht.1)) (fun e t ht => ?_)
    fun t ht => (hon ht.1).tidy hs₀
  exact ⟨(hon ht.1).tidy hs₀, fun he => ⟨ht.2 he, (hon ht.1).state.trans hconn⟩⟩

omit [Line W] [Clients W] in
/-- Without a link there is nothing to catch. -/
theorem tries_offLink {c : LinkProg W Worker α} {f : α → WorkerProg W β} {Q : β → St W → Prop}
    (hs : Tidy s.wk) (hl : s.link = none) : Tries (onLink c >>= f) Q s := by
  unfold Tries
  rw [wp_bind]
  unfold wp
  simp only [onLink, hl]
  exact ⟨hs, caught_py⟩

variable (hv : Voiced W)

include hv

omit [Clients W] in
theorem tries_keepaliveFrame (hs₀ : Tidy s₀.wk) (hconn : s₀.wk.state = .connected) (addr : Byte)
    (f : Rx) (hs : Hush s₀ s) :
    Tries (keepaliveFrame addr () f) (Step.post (fun _ t => Tidy t.wk) fun _ t => Hush s₀ t) s := by
  unfold keepaliveFrame Tries
  rw [wp_ite]
  refine ⟨fun _ => hs, fun _ => ?_⟩
  refine Tries.after hs₀ hconn (moves_onLink (moves_logEvent fun s ports n sh =>
    (hush_bus).wire (around s ports n sh) _ rfl)) (raises_onLink (raises_modify _) fun _ _ => rfl) hs
      fun _ t ht => ?_
  unfold Tries
  rw [wp_ite, wp_ite]
  refine ⟨fun _ => ?_, fun _ => ⟨fun _ => ?_, fun _ => ht⟩⟩
  · have hstate := ht.state.trans hconn
    rw [wp_bind]
    refine ((says_failLink (ht.tidy hs₀) (by decide) (by rw [hstate]; decide)
      (by rw [hstate]; decide)).and (wp_failLink _ t)).mono (fun _ _ h => h.1.1)
      (fun e _ h => ⟨h.1, fun he => ?_⟩) fun _ h => h.1
    rw [h.2.2.1] at he
    cases he
  · refine Tries.after hs₀ hconn (moves_onLink (moves_read _))
      (raises_onLink (raises_read _) fun _ _ => rfl) ht fun p u hu => ?_
    refine Tries.after hs₀ hconn (moves_onlyIf fun hb =>
      (hush_bus).keepaliveTake addr p.vr f (of_decide_eq_true hb))
      (raises_onlyIf (hv.raises_keepaliveTake _ _ _)) hu fun _ v hv' => hv'

omit [Clients W] in
/-- `_keepalive_poll` likewise, with the text of what it caught. -/
theorem says_keepalivePoll (hs : Tidy s.wk) (hm : Monitored s) :
    Says keepalivePoll (fun _ _ => True) s := by
  unfold keepalivePoll
  refine says_handle_of (E := Caught) ?_ fun e d t hk ht htidy => ?_
  · rcases hm with hconn | ⟨-, hl⟩
    · have hs₀ : Hush s s := Std.Refl.refl s
      refine Tries.after hs hconn (moves_read _) (raises_read _) hs₀ fun held t ht => ?_
      refine Tries.after hs hconn (moves_octet held) ?_ ht fun a u hu => ?_
      · cases held with
        | none => exact raises_raise (texted_of_not rfl)
        | some a => exact raises_pure _
      refine Tries.after hs hconn (moves_onLink (moves_read _))
        (raises_onLink (raises_read _) fun _ _ => rfl) hu fun p v hv' => ?_
      refine Tries.after hs hconn (hush_bus.onWrite _)
        (raises_onLink (hv.raises_write _) fun _ _ => rfl) hv' fun _ x hx => ?_
      refine Tries.after hs hconn (hush_bus.onRead _) (hv.raises_onRead _) hx fun frames y hy => ?_
      unfold Tries
      rw [wp_bind]
      refine (wp_scan (fun _ _ z => Hush s z) (D := fun _ z => Tidy z.wk) (fun f _ _ z hz =>
        tries_keepaliveFrame hv hs hconn a f hz) frames () y hy).mono (fun r z hz => ?_)
        (fun _ _ h => h) fun _ h => h
      cases r with
      | done b => exact ⟨hz, trivial⟩
      | next b => exact ⟨Hush.tidy hz hs, trivial⟩
    · show Tries _ _ _
      unfold Tries
      rw [wp_bind, wp_self, wp_bind]
      cases s.wk.address with
      | none => exact ⟨hs, caught_py⟩
      | some a => exact tries_offLink hs hl
  · unfold onOsOrAisg at hk
    split_ifs at hk with he
    cases hk
    obtain ⟨htext, hstate⟩ := ht he
    exact (says_failLink htidy htext (by rw [hstate]; decide) (by rw [hstate]; decide)).mono
      fun _ _ _ => trivial

omit [Clients W] in
theorem says_drain (cfg : Config) (hs : Tidy s.wk) (hst : s.wk.state = .draining) :
    Says (drain cfg) (fun _ _ => True) s := by
  unfold drain
  refine Says.after_hush (hush_bus).clock hs fun now t hst' ht => ?_
  have hdrain := hst'.state.trans hst
  refine Says.bind (Q := fun quiet u => quiet = true → u.wk.state = .draining) (says_handle
    (moves_bind (moves_loop (fun _ => (hush_bus).drainPass _) _ _) fun _ => moves_pure _)
    ((raises_loop (fun _ => hv.raises_drainPass _) _ _).bind fun _ => raises_pure _) ht
    (wp_any (fun _ u htu _ => htu.state.trans hdrain) (fun _ _ => trivial) (fun _ => trivial) _)
    fun e k u hk he htu hu => ?_) fun quiet u hu hquiet => ?_
  · have hdrain := htu.state.trans hdrain
    unfold onOsOrAisg at hk
    split_ifs at hk with hcaught
    cases hk
    exact (says_failLink hu (he hcaught) (by rw [hdrain]; decide) (by rw [hdrain]; decide)).bind
      fun _ v hv' _ => ⟨hv', fun h => nomatch h⟩
  · cases quiet with
    | false => exact ⟨hu, trivial⟩
    | true =>
        exact (says_setState hu (by rw [hquiet rfl]; decide) (by decide)).mono fun _ _ _ => trivial

omit [Clients W] in
theorem says_keepOrRelease (cfg : Config) (now : Time) (hs : Tidy s.wk) (hm : Monitored s) :
    Says (keepOrRelease cfg now) (fun _ _ => True) s := by
  unfold keepOrRelease Says
  rw [wp_ite]
  refine ⟨fun _ => ?_, fun _ => ?_⟩
  · rw [wp_bind, wp_self, wp_onlyIf]
    refine ⟨fun _ => ?_, fun _ => ⟨hs, trivial⟩⟩
    have hbooks : Hush s { s with wk := { s.wk with lastKeepaliveAt := now } } := ⟨rfl, rfl, rfl⟩
    rw [wp_bind, wp_update]
    exact says_keepalivePoll hv (hbooks.tidy hs) hm
  · rw [wp_bind, wp_self, wp_onlyIf]
    exact ⟨fun _ => says_giveBack hs hm.quiet.1 hm.quiet.2, fun _ => ⟨hs, trivial⟩⟩

theorem says_connectedHousekeeping (cfg : Config) (now : Time) (hs : Tidy s.wk)
    (hst : s.wk.state = .connected) :
    Says (connectedHousekeeping cfg now) (fun _ _ => True) s := by
  have hkeep : ∀ {t : St W}, Tidy t.wk → Monitored t →
      Says (keepOrRelease cfg now) (fun _ _ => True) t :=
    fun ht hm => says_keepOrRelease hv cfg now ht hm
  unfold connectedHousekeeping Says
  rw [wp_bind, wp_self, wp_ite]
  refine ⟨fun _ => ?_, fun _ => hkeep hs (Or.inl hst)⟩
  have hbooks : Hush s { s with wk := { s.wk with lastMonitorAt := now } } := ⟨rfl, rfl, rfl⟩
  rw [wp_bind, wp_update]
  refine (says_pollAlarms cfg (s := { s with wk := { s.wk with lastMonitorAt := now } })
    (hbooks.tidy hs) hst).bind fun _ t ht hm => ?_
  unfold Says
  rw [wp_ite]
  refine ⟨fun _ => ?_, fun _ => hkeep ht hm⟩
  rw [wp_bind, wp_shared, wp_ite]
  exact ⟨fun _ => says_giveBack ht hm.quiet.1 hm.quiet.2, fun _ => hkeep ht hm⟩

end Monitoring

/-! ## One step -/

section Step

variable {α : Type} {s : St W}

/-- What the machine does in each state is announced rightly. -/
theorem says_stepState (hv : Voiced W) (cfg : Config) (now : Time) (hs : Tidy s.wk) :
    Says (stepState cfg now) (fun _ _ => True) s := by
  have hopen : s.wk.state ≠ .opening → Says (do
      let wanted ← shouldOpen cfg now
      onlyIf wanted (openAndConnect cfg) : WorkerProg W Unit) (fun _ _ => True) s := by
    intro hst
    refine Says.after_hush (hush_bus.shouldOpen cfg now) hs fun wanted t hst' ht => ?_
    cases wanted with
    | false => exact ⟨ht, trivial⟩
    | true => exact says_openAndConnect cfg ht (by rwa [hst'.state])
  unfold stepState Says
  rw [wp_bind, wp_self]
  cases hst : s.wk.state with
  | closed | portBusy | portLost | noDevices =>
      simp only [id, hst]
      exact hopen (by rw [hst]; decide)
  | backoff =>
      simp only [id, hst]
      rw [wp_onlyIf]
      refine ⟨fun _ => (says_setState hs ?_ (by decide)).mono fun _ _ _ => trivial,
        fun _ => ⟨hs, trivial⟩⟩
      rw [hst]
      decide
  | draining =>
      simp only [id, hst]
      exact says_drain hv cfg hs hst
  | connected =>
      simp only [id, hst]
      exact says_connectedHousekeeping hv cfg now hs hst
  | opening | discovering | connecting | releasing | leased | shutdown =>
      simp only [id, hst]
      exact ⟨hs, trivial⟩

/-- A lease that is in force has `_step` hand the port over. -/
theorem course_handOver (cfg : Config)
    (h : (Line.monotonic s.world).1 <
      (seen { s with world := (Line.monotonic s.world).2 }).leaseUntil) :
    course cfg s = (.ret .handOver, atAccess { s with world := (Line.monotonic s.world).2 }) := by
  have hnow : ((Line.monotonic s.world).1 <
      ((Clients.others (Line.monotonic s.world).2).1.foldl Shared.apply s.shared).leaseUntil) =
        True := eq_true h
  unfold course
  simp only [bind_run, clock, Session.shared, sync, modify_run, read_run, self, hnow, if_true]
  rfl

/-- A step is announced rightly unless it finds a lease still on after an earlier error. -/
theorem says_step (hv : Voiced W) (cfg : Config) (hs : Tidy s.wk) (hp : Paired s)
    (hlease : ∀ u, course cfg s = (.ret .handOver, u) → u.wk.state = .leased →
      u.wk.lastError = "") : Says (step cfg) (fun _ _ => True) s := by
  unfold step Says
  rw [wp_bind, wp_clock, wp_bind, wp_atAccess, wp_bind, wp_self, wp_ite]
  generalize hs₁ : atAccess { s with world := (Line.monotonic s.world).2 } = s₁
  have hwk : s₁.wk = s.wk := by
    subst hs₁
    rfl
  have hs₁' : Tidy s₁.wk := by rwa [hwk]
  have hp₁ : Paired s₁ := by
    subst hs₁
    exact Keep.paired (s := s) (Keep.of_eq rfl rfl rfl rfl rfl) hp
  refine ⟨fun hnow => ?_, fun _ => ?_⟩
  · have herr : s₁.wk.state = .leased → s₁.wk.lastError = "" :=
      hlease s₁ (hs₁ ▸ course_handOver cfg hnow)
    have hrel : s₁.wk.state ≠ .releasing := by
      rcases hp₁ with h | h
      · have hup := h.1
        revert hup
        cases s₁.wk.state <;> decide
      · have hdown := h.1
        revert hdown
        cases s₁.wk.state <;> decide
    have hleased : ∀ t : St W, Tidy t.wk → (t.wk.state = .leased → t.wk.lastError = "") →
        Says (setState .leased) (fun _ _ => True) t := by
      intro t ht herr
      by_cases hst : t.wk.state = .leased
      · have hstay := ht.stay (by rw [hst]; decide) (herr hst)
        rw [hst] at hstay
        exact ⟨hstay, trivial⟩
      · exact ⟨ht.move (Ne.symm hst), trivial⟩
    rw [wp_bind, wp_onlyIf]
    refine ⟨fun hst => ?_, fun _ => hleased s₁ hs₁' herr⟩
    refine wp.mono (says_release hs₁' fun _ h => absurd h hrel) (fun _ t ht => ?_)
      (fun _ _ h => h) fun _ h => h
    refine hleased t ht.1 fun hst' => ?_
    have hq := ht.2
    split_ifs at hq
    · subst hq
      exact herr hst'
    · rw [hq] at hst'
      cases hst'
  · rw [wp_bind, wp_onlyIf]
    refine ⟨fun hst => ?_, fun _ => says_stepState hv cfg _ hs₁'⟩
    rw [wp_setState]
    refine says_stepState hv cfg _ (hs₁'.move ?_)
    rw [of_decide_eq_true hst]
    decide

theorem says_refreshLease (hs : Tidy s.wk) :
    Says refreshLease (fun _ t => s.wk.state ≠ .leased → t = s) s := by
  unfold refreshLease Says
  rw [wp_bind, wp_self, wp_onlyIf]
  refine ⟨fun hst => ?_, fun _ => ⟨hs, fun _ => rfl⟩⟩
  have hst : s.wk.state = .leased := of_decide_eq_true hst
  rw [wp_bind, wp_shared, wp_bind, wp_clock, wp_onlyIf]
  refine ⟨fun _ => ⟨hs.move ?_, fun hno => absurd hst hno⟩, fun _ => ⟨hs, fun hno => absurd hst hno⟩⟩
  rw [hst]
  decide

end Step

/-! ## Commands -/

section Commands

variable {s : St W}

theorem says_runCommand (cfg : Config) (cmd : Command) (a : Option Byte) (hs : Tidy s.wk)
    (hst : s.wk.state = .connected) : Says (runCommand cfg cmd a) (fun _ _ => True) s := by
  have hresolve : ∀ {t : St W} (e : Exn), Tidy t.wk → Says (do
      resolve cmd.seq (.error e)
      pure none : WorkerProg W (Option Result)) (fun _ _ => True) t := by
    intro t e ht
    exact Says.after_hush (hush_resolve _ _) ht fun _ u _ hu => ⟨hu, trivial⟩
  unfold runCommand
  refine Says.bind (Q := fun _ _ => True) (says_handle (P := fun _ => True)
    (moves_bind (moves_callCommand (hush_bus.ret cfg a (Books.onPoll cmd.name)) _ _) fun _ =>
      moves_pure _) (fun u => wp_any (fun _ _ => trivial) (fun _ _ => trivial) (fun _ => trivial) u)
    hs (wp_any (fun _ _ _ => trivial) (fun _ _ => trivial) (fun _ => trivial) _)
    fun e k t hk _ hst' ht => ?_) fun result t ht _ => ?_
  · have hconn := hst'.state.trans hst
    unfold onReset at hk
    split_ifs at hk with hreset <;> cases hk
    · refine Says.after_hush (hush_bus.assign fun _ => rfl) ht fun _ u htu hu => ?_
      have hconn := htu.state.trans hconn
      exact (says_failLink hu (str_of_isReset hreset) (by rw [hconn]; decide)
        (by rw [hconn]; decide)).bind fun _ v hv _ => hresolve e hv
    · refine Says.after_hush (hush_bus.assign fun _ => rfl) ht fun _ u htu hu => ?_
      have hconn := htu.state.trans hconn
      refine Says.bind (Q := fun _ _ => True) ?_ fun _ v hv _ => hresolve e hv
      unfold Says
      rw [wp_onlyIf]
      refine ⟨fun _ => (says_setState hu ?_ (by decide)).mono fun _ _ _ => trivial,
        fun _ => ⟨hu, trivial⟩⟩
      rw [hconn]
      decide
  · cases result with
    | none => exact ⟨ht, trivial⟩
    | some x =>
        have habsorb : Moves Hush (absorb x : WorkerProg W Unit) := fun u =>
          (hush_bus).absorb fun _ _ => ⟨rfl, rfl, rfl⟩
        refine Says.after_hush habsorb ht fun _ u _ hu => ?_
        exact (says_hush (hush_resolve _ _) hu).mono fun _ _ _ => trivial

theorem says_execute (cfg : Config) (cmd : Command) (hs : Tidy s.wk)
    (hst : s.wk.state = .connected) : Says (execute cfg cmd) (fun _ _ => True) s := by
  unfold execute
  refine Says.after_hush (moves_read _) hs fun a t hst' ht => ?_
  refine Says.after_hush (hush_bus.noteTarget cmd) ht fun _ u htu hu => ?_
  have hconn := htu.state.trans (hst'.state.trans hst)
  exact says_ensure (says_runCommand cfg cmd a hu hconn) (hush_bus).wrapUp fun _ _ _ =>
    wp_any (fun _ _ => trivial) (fun _ _ => trivial) (fun _ => trivial) _

/-- Only a session that is up executes a command. -/
def Called (v : Verdict) (s : St W) : Prop := ∀ cmd, v = .execute cmd → s.wk.state = .connected

theorem says_attempt (cmd : Command) (hs : Tidy s.wk) : Says (attempt cmd) Called s := by
  have hother : ∀ {t : St W} {v : Verdict}, Tidy t.wk → (∀ c, v ≠ .execute c) →
      Says (pure v) Called t := fun ht hv => ⟨ht, fun c hc => absurd hc (hv c)⟩
  unfold attempt
  refine (says_refreshLease hs).bind fun _ t ht _ => ?_
  unfold Says
  rw [wp_bind, wp_self, wp_ite, wp_ite]
  refine ⟨fun hst => ?_, fun _ => ⟨fun _ => ?_, fun _ => ?_⟩⟩
  · refine Says.after_hush (hush_queue.claim _) ht fun claimed u htu hu => ?_
    exact ⟨hu, fun _ _ => htu.state.trans hst⟩
  · refine Says.after_hush (moves_read _) ht fun error u _ hu => ?_
    refine Says.after_hush (hush_queue.abandon _ rfl) hu fun _ v _ hv => ?_
    exact hother hv fun c hc => nomatch hc
  · refine Says.after_hush (hush_bus).clock ht fun now u _ hu => ?_
    unfold Says
    rw [wp_ite]
    refine ⟨fun _ => ?_, fun _ => ?_⟩
    · refine Says.after_hush (hush_queue.abandon _ rfl) hu fun _ v _ hv => ?_
      exact hother hv fun c hc => nomatch hc
    · refine Says.after_hush (hush_bus.assign fun _ => rfl) hu fun _ v _ hv => ?_
      exact hother hv fun c hc => nomatch hc

theorem says_opening (cfg : Config) (hs : Tidy s.wk) : Says (opening cfg) Called s := by
  have hgo : ∀ {t : St W}, Tidy t.wk → Says (pure .goOn) Called t :=
    fun ht => ⟨ht, fun c hc => nomatch hc⟩
  unfold opening
  refine Says.after_hush (hush_bus.shared _) hs fun stop t _ ht => ?_
  unfold Says
  rw [wp_ite]
  refine ⟨fun _ => hgo ht, fun _ => ?_⟩
  refine Says.after_hush (hush_bus).clock ht fun now u _ hu => ?_
  refine Says.after_hush (hush_bus.assign fun _ => rfl) hu fun _ v _ hv => ?_
  unfold dispatch
  refine (says_refreshLease hv).bind fun _ x hx _ => ?_
  refine Says.after_hush (moves_read _) hx fun head y _ hy => ?_
  refine Says.after_hush (moves_onlyIf fun _ => moves_bind (hush_queue.take cfg) fun _ =>
    (hush_queue).setHead _) hy fun _ z _ hz => ?_
  refine Says.after_hush (moves_read _) hz fun head z' _ hz' => ?_
  cases head with
  | none => exact hgo hz'
  | some cmd => exact says_attempt cmd hz'

end Commands

/-! ## Runs -/

/-- The pass from `s` finds no lease still on after an earlier error, and brings no such error to
the catch-all handler. -/
structure Discreet (cfg : Config) (s : St W) : Prop where
  lease : ∀ u, Decides cfg s .handOver u → u.wk.state = .leased → u.wk.lastError = ""
  raised : stopSeen s = false → ∀ e u, toHandler cfg s = (.raise e, u) → Restful u

section Runs

variable {cfg : Config} {s : St W}

theorem toHandler_eq (hstop : stopSeen s = false) :
    toHandler cfg s = (opening cfg >>= finish cfg) s := by
  have hgo : (((Clients.others s.world).1.foldl Shared.apply s.shared).stop = true) = False :=
    eq_false (Bool.eq_false_iff.1 hstop)
  unfold toHandler opening
  simp only [bind_run, Session.shared, sync, modify_run, read_run, hgo, if_false, clock, update,
    passBody_eq]

theorem runPass_eq (hstop : stopSeen s = false) :
    runPass cfg s =
      (handle (toHandler cfg) (fun _ => some lastResort) >>= fun _ => pure true) s := by
  have hgo : (((Clients.others s.world).1.foldl Shared.apply s.shared).stop = true) = False :=
    eq_false (Bool.eq_false_iff.1 hstop)
  unfold runPass loopPass toHandler
  simp only [handle, bind_run, Session.shared, sync, modify_run, read_run, hgo, if_false, clock,
    update]

/-- `_teardown`, and SHUTDOWN. -/
theorem says_teardown (cfg : Config) (hs : Tidy s.wk) (hp : Paired s) :
    Says (do
      teardown cfg
      setState .shutdown
      pure false : WorkerProg W Bool) (fun _ _ => True) s := by
  have hstate : s.wk.state ≠ .releasing ∧ s.wk.state ≠ .shutdown := by
    rcases hp with h | h
    · have hup := h.1
      revert hup
      cases s.wk.state <;> decide
    · have hdown := h.1
      revert hdown
      cases s.wk.state <;> decide
  refine Says.bind (Q := fun _ t => t.wk.state ≠ .shutdown) ?_ fun _ t ht hst => ?_
  · refine Says.after_hush (hush_queue.flushQueue cfg) hs fun _ t hst ht => ?_
    rw [← hst.state] at hstate
    refine (says_release ht fun _ h => absurd h hstate.1).mono fun _ u hu => ?_
    split_ifs at hu
    · rw [hu]
      exact hstate.2
    · rw [hu]
      decide
  · exact (says_setState ht (Ne.symm hst) (by decide)).bind fun _ u hu _ => ⟨hu, trivial⟩

theorem says_toHandler (hv : Voiced W) (hs : Tidy s.wk) (hp : Paired s)
    (hstop : stopSeen s = false) (h : Discreet cfg s) :
    Says (toHandler cfg) (fun _ _ => True) s := by
  unfold Says wp
  rw [toHandler_eq hstop]
  show Says (opening cfg >>= finish cfg) (fun _ _ => True) s
  unfold Says
  rw [wp_bind]
  have hpairs := pairs_opening cfg s hp
  refine wp_iff.2 ⟨fun v t ht => ?_, fun e t ht => ?_, fun t ht => ?_⟩
  · obtain ⟨htidy, hcalled⟩ := (wp_iff.1 (says_opening cfg hs)).1 v t ht
    cases v with
    | execute cmd =>
        exact (says_execute cfg cmd htidy (hcalled cmd rfl)).bind fun _ u hu _ =>
          (says_hush (hush_queue.setHead _) hu).mono fun _ _ _ => trivial
    | finished => exact (says_hush (hush_queue.setHead _) htidy).mono fun _ _ _ => trivial
    | goOn =>
        exact says_step hv cfg htidy ((wp_iff.1 hpairs).1 _ _ ht) fun u hu =>
          h.lease u ⟨hstop, t, ht, hu⟩
  · exact (wp_iff.1 (says_opening cfg hs)).2.1 e t ht
  · exact (wp_iff.1 (says_opening cfg hs)).2.2 t ht

/-- A pass leaves the worker tidy. -/
theorem Discreet.tidy (hv : Voiced W) (h : Discreet cfg s) (hs : Tidy s.wk) (hp : Paired s) :
    Tidy (runPass cfg s).2.wk := by
  refine wp.leaves (c := runPass cfg) (P := fun t => Tidy t.wk) ?_
  by_cases hstop : stopSeen s = true
  · unfold runPass
    rw [wp_bind, wp_shared, wp_ite]
    refine ⟨fun _ => ?_, fun hno => absurd hstop hno⟩
    refine wp.mono (says_teardown cfg (s := atAccess s) hs ?_) (fun _ _ h => h.1) (fun _ _ h => h)
      fun _ h => h
    exact Keep.paired (s := s) (Keep.of_eq rfl rfl rfl rfl rfl) hp
  · have hstop : stopSeen s = false := Bool.eq_false_iff.2 hstop
    unfold wp
    rw [runPass_eq hstop]
    show wp (handle (toHandler cfg) (fun _ => some lastResort) >>= fun _ => pure true) _ _ _ s
    have hhandler := says_toHandler hv hs hp hstop h
    rw [wp_bind, wp_handle]
    refine wp_iff.2 ⟨fun _ t ht => ((wp_iff.1 hhandler).1 _ t ht).1, fun e t ht => ?_,
      fun t ht => (wp_iff.1 hhandler).2.2 t ht⟩
    exact wp.mono (says_lastResort ((wp_iff.1 hhandler).2.1 e t ht) (h.raised hstop e t ht))
      (fun _ _ h => h.1) (fun _ _ h => h) fun _ h => h

end Runs

omit [Line W] [Clients W] in
theorem tidy_init (w : W) : Tidy (St.init w).wk where
  announced := rfl
  last _ h := nomatch h
  errorless h := absurd h (show LinkState.closed ∉ errorless by decide)

theorem tidy_head (hv : Voiced W) {cfg : Config} {w : W} {s : St W}
    (h : HeadBy cfg (fun s _ => Discreet cfg s) w s) : Tidy s.wk := by
  induction h with
  | refl => exact tidy_init w
  | @tail s t hs hp ih =>
      have htidy := hp.2.tidy hv ih (paired_head (head_of_headBy hs))
      rwa [show runPass cfg s = (.ret true, t) from hp.1] at htidy

/-- **Two consecutive `link` events differ.**  In a run whose passes are discreet, however its
last pass ends: the events are the calls of `_set_state` without those that repeat the one before,
so a worker that stays in its state emits none. -/
theorem events_differ (hv : Voiced W) {cfg : Config} {w : W} {s t : St W}
    (h : HeadBy cfg (fun s _ => Discreet cfg s) w s)
    (ht : t = s ∨ Discreet cfg s ∧ t = (runPass cfg s).2) :
    linksOf t.wk.emitted = t.wk.asked.destutter (· ≠ ·) ∧
      (linksOf t.wk.emitted).IsChain (· ≠ ·) := by
  have hhead := tidy_head hv h
  have htidy : Tidy t.wk := by
    rcases ht with rfl | ⟨hd, rfl⟩
    · exact hhead
    · exact hd.tidy hv hhead (paired_head (head_of_headBy h))
  have hannounced : linksOf t.wk.emitted = t.wk.asked.destutter (· ≠ ·) := htidy.announced
  refine ⟨hannounced, ?_⟩
  rw [hannounced]
  exact List.isChain_destutter _ _

theorem voiced_bench : Voiced (Bench ClientCall) where
  read _ _ := trivial
  write _ _ := trivial

/-- A pass that raises nothing, and comes to `_step` without an earlier error. -/
theorem discreet_of {cfg : Config} {s : St W} (hto : (toHandler cfg s).1 = .ret ())
    (herr : (course cfg (opening cfg s).2).2.wk.lastError = "") : Discreet cfg s where
  lease u hd _ := by
    obtain ⟨-, v, hv, hc⟩ := hd
    rw [hv] at herr
    dsimp only at herr
    rwa [hc] at herr
  raised _ e u hu := by
    rw [hu] at hto
    cases hto

/-- A session that is up, and a lease that goes on for two passes. -/
theorem events_differ_leased :
    (linksOf (runPass attentive (runPasses attentive 1 (connectedHead 8 []))).2.wk.emitted).IsChain
      (· ≠ ·) := by
  have hfirst : HeadBy attentive (fun s _ => Discreet attentive s) (leasesAt 8 [])
      (connectedHead 8 []) :=
    headBy_runPasses .refl (by decide +kernel) (discreet_of (by decide +kernel) (by decide +kernel))
  have hsecond := headBy_runPasses hfirst (by decide +kernel)
    (discreet_of (by decide +kernel) (by decide +kernel))
  exact (events_differ voiced_bench hsecond (Or.inr ⟨discreet_of (by decide +kernel)
    (by decide +kernel), rfl⟩)).2

/-- A bus without a device, whose port is leased after the first scan. -/
def deafLeased : Bench ClientCall :=
  { plan := { calls := fun i => if i = 8 then [.lease 0 (ms 1000000)] else [] } }

/-- **A lease that goes on repeats its event.**  `_last_error` is that of the failed discovery, so
each pass emits `leased` once more. -/
theorem event_repeated :
    Head attentive deafLeased (runPasses attentive 3 (St.init deafLeased)) ∧
      (runPasses attentive 2 (St.init deafLeased)).wk.state = .leased ∧
      (runPasses attentive 3 (St.init deafLeased)).wk.state = .leased ∧
      ¬ (linksOf (runPasses attentive 3 (St.init deafLeased)).wk.emitted).IsChain (· ≠ ·) :=
  ⟨reaches_runPasses attentive 3 _, by decide +kernel, by decide +kernel, by decide +kernel⟩

end OpenAisg.Session
