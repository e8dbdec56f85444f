import OpenAisg.Api.App
import OpenAisg.Api.Jobs
import OpenAisg.Session.Deeds
import OpenAisg.Session.Turns

/-!
# The requests (`_run` of `api/app.py`)

A request submits a command and waits for it, up to its budget; then it leaves a job behind, which
the command's completion fills in.  The worker resolves the future in its own thread, so any of
the two can come first.

* `mapError` — `_map_error`.
* `Stage`, `Request`, `Server` — where the coroutine of `_run` is, and what the threads share.
* `ServerStep`, `Server.step` — the deeds of the worker and its clients, the callbacks of a future
  that is done, and what the event loop does with a request.
* `Reported` — the outcome of a command reaches its client once, inline or in its job.  It says
  nothing of a request that was `dropped`: its task was cancelled, and there is no one to answer.
* `Entry`, `Sound` — the invariant of every order of steps, for one request and for all; a deed,
  a callback and a step of the event loop keep it (`Sound.perform`, `Sound.callback`,
  `Sound.detach`), and so `sound_serve`.
* `requests_reported` — for every run of the worker, whatever the event loop does meanwhile.

The worker comes in by its deeds alone: a run of it, interleaved with its clients, is a list of
them, and any other list of proper deeds would do as well.
-/

namespace OpenAisg.Api

open Hdlc Link Retap Session Prog

/-! ## Responses -/

/-- An `HTTPException`. -/
structure Failure where
  status : ℕ
  detail : String
  deriving DecidableEq, Repr

/-- `_map_error`. -/
def mapError (exc : Exn) : Failure :=
  match exc with
  | .portBusy _ => ⟨409, exc.str⟩
  | .portLost _ => ⟨503, exc.str⟩
  | .sessionError .. => ⟨503, exc.str⟩
  | .linkReset .. => ⟨502, exc.str⟩
  | .aisgTimeout .. => ⟨504, exc.str⟩
  | _ => ⟨if exc.isAisg then 502 else 500, exc.str⟩

/-- The statuses of a command that fails. -/
theorem mapError_status {e : Exn} (he : e.isAisg = true) :
    (mapError e).status ∈ [409, 502, 503, 504] ∧ (mapError e).detail = e.str := by
  cases e with
  | frameError | osError | py => cases he
  | portBusy | portLost | sessionError | linkReset | aisgTimeout | aisgError | retError =>
      exact ⟨List.mem_of_elem_eq_true rfl, rfl⟩

/-- A key of `ALL_COMMANDS`. -/
def commandKey : CommandName → String
  | .getInformation => "get_information"
  | .getTilt => "get_tilt"
  | .getAlarmStatus => "get_alarm_status"
  | .getDeviceData => "get_device_data"
  | .setTilt => "set_tilt"
  | .clearAlarms => "clear_alarms"
  | .calibrate => "calibrate"
  | .selfTest => "self_test"
  | .reset => "reset"

/-- `COMMAND_TIMEOUTS.get(command, DEFAULT_COMMAND_TIMEOUT)`. -/
def commandTimeout : CommandName → Time
  | .calibrate => ms 150000
  | .selfTest => ms 45000
  | .setTilt => ms 90000
  | .getDeviceData => ms 30000
  | _ => ms 15000

/-- `SYNC_BUDGET`. -/
def syncBudget : Time := ms 8000

/-- `Job.result`, where `None` is the absent one. -/
def value : Result → Option Result
  | .none => none
  | r => some r

/-- What `finish` makes of a future that is done: its result, or `str(e)` of what `result()` raises,
which is empty for a cancelled one. -/
def report (f : Future) : Except String (Option Result) :=
  match f.outcome with
  | some (.ok r) => .ok (value r)
  | some (.error e) => .error e.str
  | none => .error ""

/-! ## The server -/

/-- Where the coroutine of `_run` is. -/
inductive Stage where
  /-- `await asyncio.wait_for(…)`. -/
  | awaiting
  /-- It has returned the result, or raised the error. -/
  | answered (outcome : Except Exn Result)
  /-- It has returned this job. -/
  | detached (k : ℕ)
  /-- Its task was cancelled. -/
  | dropped
  deriving DecidableEq

/-- A call of `_run`; `deadline` is when its budget is over. -/
structure Request where
  command : CommandName
  args : List (String × PyVal)
  deadline : Time
  stage : Stage := .awaiting

abbrev Args : Type := List (String × PyVal)

/-- The requests by the number of their command; the callbacks `finish` that futures hold, with
the job of each; those that are due, for their future is done; and what was emitted, with its
job. -/
structure Server where
  shared : Shared := {}
  requests : ℕ → Option Request := fun _ => none
  jobs : Jobs Args Result := {}
  callbacks : List (ℕ × ℕ) := []
  due : List (ℕ × ℕ) := []
  emitted : List (ℕ × JobDict Args Result) := []

/-- What happens next. -/
inductive ServerStep where
  /-- A deed; a client that submits a command does so by `_run`, and `wait` is its argument. -/
  | deed (d : Deed) (wait : Bool)
  /-- The next callback that is due. -/
  | callback (wall : Time)
  /-- The event loop hands the outcome of the `n`th command to its request. -/
  | wake (n : ℕ)
  /-- The budget of the request is over; `id` is the random one of its job. -/
  | timeout (n : ℕ) (now wall later : Time) (id : String)
  /-- The task of the request is cancelled. -/
  | drop (n : ℕ)

namespace Server

/-- The request that a deed makes. -/
def request (wait : Bool) : Deed → Option Request
  | .call (.submit command args _ now _) =>
      some { command, args, deadline := now + if wait then commandTimeout command else syncBudget }
  | _ => none

/-- A deed; the callbacks of the futures that are done now are due. -/
def perform (v : Server) (d : Deed) (wait : Bool) : Server :=
  let shared := v.shared.act d
  { v with
    shared := shared
    requests := match request wait d with
      | some r => Function.update v.requests v.shared.nextSeq (some r)
      | none => v.requests
    callbacks := v.callbacks.filter fun p => !(shared.futures p.1).done
    due := v.due ++ v.callbacks.filter fun p => (shared.futures p.1).done }

/-- `finish`, for the `k`th job. -/
def finish (v : Server) (n k : ℕ) (wall : Time) : Server :=
  let jobs := v.jobs.finish k (report (v.shared.futures n)) wall
  { v with
    jobs := jobs
    emitted := v.emitted ++ (jobs.objects[k]?).toList.map fun job => (k, job.asDict) }

/-- The coroutine of a request goes on. -/
def setStage (v : Server) (n : ℕ) (r : Request) (stage : Stage) : Server :=
  { v with requests := Function.update v.requests n (some { r with stage := stage }) }

/-- The handler of `asyncio.TimeoutError`. -/
def detach (v : Server) (n : ℕ) (r : Request) (wall later : Time) (id : String) : Server :=
  let k := v.jobs.objects.length
  let v := { v with jobs := v.jobs.create id (commandKey r.command) r.args wall }.setStage n r
    (.detached k)
  -- `add_done_callback` calls it at once if the future is done
  if (v.shared.futures n).done then v.finish n k later
  else { v with callbacks := v.callbacks ++ [(n, k)] }

def step (v : Server) : ServerStep → Server
  | .deed d wait => v.perform d wait
  | .callback wall => match v.due with
      | [] => v
      | (n, k) :: due => { v with due := due }.finish n k wall
  | .wake n => match v.requests n with
      | some r =>
          if r.stage = .awaiting ∧ (v.shared.futures n).done = true then
            match (v.shared.futures n).outcome with
            | some o => v.setStage n r (.answered o)
            | none => v.setStage n r .dropped
          else v
      | none => v
  | .timeout n now wall later id => match v.requests n with
      | some r =>
          if r.stage = .awaiting ∧ r.deadline ≤ now then v.detach n r wall later id else v
      | none => v
  | .drop n => match v.requests n with
      | some r => if r.stage = .awaiting then v.setStage n r .dropped else v
      | none => v

/-- The events of a job. -/
def told (v : Server) (k : ℕ) : List (JobDict Args Result) :=
  (v.emitted.filter fun p => decide (p.1 = k)).map Prod.snd

end Server

/-- Any order of steps. -/
def serve (steps : List ServerStep) : Server := steps.foldl Server.step {}

/-- The deeds among them. -/
def deedsOf (steps : List ServerStep) : List Deed :=
  steps.filterMap fun
    | .deed d _ => some d
    | _ => none

/-! ## What a client learns -/

/-- The job says how its command ended. -/
def Shows (job : Job Args Result) : Except String (Option Result) → Prop
  | .ok result => job.state = .done ∧ job.result = result ∧ job.error = none
  | .error e => job.state = .failed ∧ job.result = none ∧ job.error = some e

/-- **The outcome of a command reaches its client once**: with the response, or in the job that
the response names. -/
structure Reported (v : Server) (n : ℕ) (r : Request) : Prop where
  inline : ∀ o, r.stage = .answered o → (v.shared.futures n).outcome = some o
  status : ∀ e, r.stage = .answered (.error e) →
    (mapError e).status ∈ [409, 502, 503, 504] ∧ (mapError e).detail = e.str
  own : ∀ k, r.stage = .detached k → ∀ m r', v.requests m = some r' → r'.stage = .detached k → m = n
  job : ∀ k, r.stage = .detached k → ∃ job, v.jobs.objects[k]? = some job ∧
    job.command = commandKey r.command ∧ job.args = r.args ∧
    (job.state = .running ∧ v.told k = [] ∧
        ((v.shared.futures n).done = true → (n, k) ∈ v.due) ∨
      (v.shared.futures n).done = true ∧ Shows job (report (v.shared.futures n)) ∧
        v.told k = [job.asDict])

/-! ## The invariant -/

/-- A job whose command has not ended, as far as its callback knows. -/
structure Owed (v : Server) (n k : ℕ) (job : Job Args Result) : Prop where
  callback : (n, k) ∈ v.callbacks ++ v.due
  running : job.state = .running
  result : job.result = none
  error : job.error = none
  told : v.told k = []

/-- A job whose callback has been called. -/
structure Settled (v : Server) (n k : ℕ) (job : Job Args Result) : Prop where
  called : k ∉ (v.callbacks ++ v.due).map Prod.snd
  done : (v.shared.futures n).done = true
  shows : Shows job (report (v.shared.futures n))
  told : v.told k = [job.asDict]

/-- A request and its command. -/
structure Entry (v : Server) (n : ℕ) (r : Request) : Prop where
  bound : n < v.shared.nextSeq
  answered : ∀ o, r.stage = .answered o →
    (v.shared.futures n).done = true ∧ (v.shared.futures n).outcome = some o
  detached : ∀ k, r.stage = .detached k → ∃ job, v.jobs.objects[k]? = some job ∧
    job.command = commandKey r.command ∧ job.args = r.args ∧ (Owed v n k job ∨ Settled v n k job)

/-- What every order of steps keeps. -/
structure Sound (v : Server) : Prop where
  sane : ∀ n < v.shared.nextSeq, (v.shared.futures n).Sane
  idle : ∀ p ∈ v.callbacks, (v.shared.futures p.1).done = false
  owing : ∀ p ∈ v.due, (v.shared.futures p.1).done = true
  owner : ∀ p ∈ v.callbacks ++ v.due, ∃ r, v.requests p.1 = some r ∧ r.stage = .detached p.2
  once : ((v.callbacks ++ v.due).map Prod.snd).Nodup
  own : ∀ n m r r' k, v.requests n = some r → v.requests m = some r' →
    r.stage = .detached k → r'.stage = .detached k → m = n
  known : ∀ p ∈ v.emitted, p.1 < v.jobs.objects.length
  entry : ∀ n r, v.requests n = some r → Entry v n r

/-- A server to which nobody has come. -/
theorem sound_new : Sound {} where
  sane _ h := absurd h (Nat.not_lt_zero _)
  idle _ h := absurd h List.not_mem_nil
  owing _ h := absurd h List.not_mem_nil
  owner _ h := absurd h List.not_mem_nil
  once := List.nodup_nil
  own _ _ _ _ _ h := nomatch h
  known _ h := absurd h List.not_mem_nil
  entry _ _ h := nomatch h

namespace Sound

variable {v : Server} {n : ℕ} {r : Request}

theorem reported (h : Sound v) (hr : v.requests n = some r) : Reported v n r where
  inline o ho := ((h.entry n r hr).answered o ho).2
  status e he := by
    have hentry := h.entry n r hr
    exact mapError_status ((h.sane n hentry.bound).aisg e (hentry.answered _ he).2)
  own k hk m r' hr' hk' := h.own n m r r' k hr hr' hk hk'
  job k hk := by
    obtain ⟨job, hjob, hc, ha, ho | hs⟩ := (h.entry n r hr).detached k hk
    · refine ⟨job, hjob, hc, ha, Or.inl ⟨ho.running, ho.told, fun hdone => ?_⟩⟩
      rcases List.mem_append.1 ho.callback with hmem | hmem
      · rw [h.idle _ hmem] at hdone
        cases hdone
      · exact hmem
    · exact ⟨job, hjob, hc, ha, Or.inr ⟨hs.done, hs.shows, hs.told⟩⟩

/-! ## Deeds -/

/-- The callbacks of futures that are done move on. -/
theorem perform_callbacks (v : Server) (d : Deed) (wait : Bool) :
    ((v.perform d wait).callbacks ++ (v.perform d wait).due).Perm (v.callbacks ++ v.due) := by
  have hsplit := List.filter_append_perm (fun p : ℕ × ℕ => ((v.shared.act d).futures p.1).done)
    v.callbacks
  refine List.perm_append_comm.trans ?_
  show ((v.due ++ _) ++ _).Perm _
  rw [List.append_assoc]
  exact (hsplit.append_left v.due).trans List.perm_append_comm

/-- A deed makes a request only with a new number. -/
theorem request_awaits {wait : Bool} {d : Deed} (h : Server.request wait d = some r)
    (sh : Shared) : r.stage = .awaiting ∧ (sh.act d).nextSeq = sh.nextSeq + 1 := by
  cases d with
  | call c =>
      cases c with
      | submit name args priority now linkWait =>
          cases h
          exact ⟨rfl, rfl⟩
      | lease | unlease | stop | cancel => cases h
  | take | claim | resolve => cases h

/-- A request after a deed: an old one, or the one it makes. -/
theorem perform_requests {d : Deed} {wait : Bool} (hr : (v.perform d wait).requests n = some r) :
    v.requests n = some r ∨
      r.stage = .awaiting ∧ n = v.shared.nextSeq ∧ n < (v.shared.act d).nextSeq := by
  cases hq : Server.request wait d with
  | none =>
      left
      simpa [Server.perform, hq] using hr
  | some q =>
      simp only [Server.perform, hq] at hr
      by_cases hn : n = v.shared.nextSeq
      · subst hn
        rw [Function.update_self] at hr
        cases hr
        obtain ⟨hst, hnext⟩ := request_awaits hq v.shared
        exact Or.inr ⟨hst, rfl, by omega⟩
      · rw [Function.update_of_ne hn] at hr
        exact Or.inl hr

/-- An old request is still there. -/
theorem perform_keeps (h : Sound v) (d : Deed) (wait : Bool) (hr : v.requests n = some r) :
    (v.perform d wait).requests n = some r := by
  have hn : n ≠ v.shared.nextSeq := Nat.ne_of_lt (h.entry n r hr).bound
  simp only [Server.perform]
  cases Server.request wait d with
  | none => exact hr
  | some q => exact (Function.update_of_ne hn _ _).trans hr

/-- A deed leaves the entry of an old request in order. -/
theorem entry_perform (h : Entry v n r) (d : Deed) (wait : Bool) :
    Entry (v.perform d wait) n r := by
  have hperm := perform_callbacks v d wait
  have hdone : (v.shared.futures n).done = true → _ := act_done d h.bound
  refine ⟨Nat.lt_of_lt_of_le h.bound (act_next_le _ _), fun o ho => ?_, fun k hk => ?_⟩
  · obtain ⟨hd, hout⟩ := h.answered o ho
    exact ⟨(hdone hd).1, (hdone hd).2.trans hout⟩
  · obtain ⟨job, hjob, hc, ha, hjob' | hjob'⟩ := h.detached k hk
    · exact ⟨job, hjob, hc, ha, Or.inl ⟨hperm.mem_iff.2 hjob'.callback, hjob'.running,
        hjob'.result, hjob'.error, hjob'.told⟩⟩
    · obtain ⟨hd, hout⟩ := hdone hjob'.done
      refine ⟨job, hjob, hc, ha, Or.inr ⟨fun hm => hjob'.called ?_, hd, ?_, hjob'.told⟩⟩
      · exact (hperm.map Prod.snd).mem_iff.1 hm
      · have hreport : report ((v.perform d wait).shared.futures n) =
            report (v.shared.futures n) := by
          unfold report
          rw [show ((v.perform d wait).shared.futures n).outcome = _ from hout]
        rw [hreport]
        exact hjob'.shows

theorem perform (h : Sound v) {d : Deed} (hd : d.Proper) (wait : Bool) :
    Sound (v.perform d wait) := by
  have hperm := perform_callbacks v d wait
  have hown : ∀ {m r'}, (v.perform d wait).requests m = some r' → ∀ {k},
      r'.stage = .detached k → v.requests m = some r' := by
    intro m r' hr' k hk
    refine (perform_requests hr').resolve_right fun hnew => ?_
    rw [hnew.1] at hk
    cases hk
  refine ⟨fun n hn => ?_, fun p hp => ?_, fun p hp => ?_, fun p hp => ?_,
    (hperm.map Prod.snd).nodup_iff.2 h.once, fun n m r r' k hr hr' hk hk' => ?_, h.known,
    fun n r hr => ?_⟩
  · by_cases hold : n < v.shared.nextSeq
    · exact act_sane hd hold (h.sane n hold)
    · have hn : n < (v.shared.act d).nextSeq := hn
      rcases act_next v.shared d with hnext | ⟨hnext, hfut⟩
      · omega
      · have hn : n = v.shared.nextSeq := by omega
        show ((v.shared.act d).futures n).Sane
        rw [hn, hfut]
        exact sane_new
  · exact (Bool.not_eq_true' _).mp (List.mem_filter.1 hp).2
  · rcases List.mem_append.1 hp with hp | hp
    · obtain ⟨r, hr, -⟩ := h.owner p (List.mem_append_right _ hp)
      exact (act_done d (h.entry _ r hr).bound (h.owing p hp)).1
    · exact (List.mem_filter.1 hp).2
  · obtain ⟨r, hr, hk⟩ := h.owner p (hperm.mem_iff.1 hp)
    exact ⟨r, h.perform_keeps d wait hr, hk⟩
  · exact h.own n m r r' k (hown hr hk) (hown hr' hk') hk hk'
  · rcases perform_requests hr with hold | ⟨hst, -, hn⟩
    · exact entry_perform (h.entry n r hold) d wait
    · refine ⟨hn, fun o ho => ?_, fun k hk => ?_⟩
      · rw [hst] at ho
        cases ho
      · rw [hst] at hk
        cases hk

/-! ## Callbacks -/

/-- `finish` leaves the other jobs alone. -/
theorem finish_other (v : Server) (n : ℕ) {k j : ℕ} (hjk : j ≠ k) (wall : Time) :
    (v.finish n k wall).jobs.objects[j]? = v.jobs.objects[j]? ∧
      (v.finish n k wall).told j = v.told j := by
  constructor
  · simp only [Server.finish, Jobs.finish]
    exact List.getElem?_modify_ne _ _ hjk.symm
  · simp only [Server.finish, Server.told, List.filter_append, List.map_append]
    have hnone : ((((v.jobs.finish k (report (v.shared.futures n)) wall).objects[k]?).toList.map
        fun job => (k, job.asDict)).filter fun p => decide (p.1 = j)) = [] := by
      refine List.filter_eq_nil_iff.2 fun p hp => ?_
      obtain ⟨job, -, rfl⟩ := List.mem_map.1 hp
      simpa using hjk.symm
    rw [hnone, List.map_nil, List.append_nil]

/-- The job that `finish` leaves. -/
theorem jobs_finish {jobs : Jobs Args Result} {k : ℕ} {job : Job Args Result}
    (hjob : jobs.objects[k]? = some job) (ho : job.result = none ∧ job.error = none)
    (o : Except String (Option Result)) (wall : Time) :
    ∃ job', (jobs.finish k o wall).objects[k]? = some job' ∧ job'.command = job.command ∧
      job'.args = job.args ∧ Shows job' o := by
  have hmod : ∀ f : Job Args Result → Job Args Result,
      (jobs.objects.modify k f)[k]? = some (f job) := fun f => by
    rw [List.getElem?_modify_eq, hjob]
    rfl
  cases o with
  | ok result =>
      exact ⟨{ job with result := result, state := .done, finishedAt := some wall }, hmod _, rfl,
        rfl, rfl, rfl, ho.2⟩
  | error e =>
      exact ⟨{ job with error := some e, state := .failed, finishedAt := some wall }, hmod _, rfl,
        rfl, rfl, ho.1, rfl⟩

/-- `finish` fills its job in, and emits it. -/
theorem finish_own {n k : ℕ} {job : Job Args Result} (hjob : v.jobs.objects[k]? = some job)
    (ho : job.result = none ∧ job.error = none) (htold : v.told k = []) (wall : Time) :
    ∃ job', (v.finish n k wall).jobs.objects[k]? = some job' ∧ job'.command = job.command ∧
      job'.args = job.args ∧ Shows job' (report (v.shared.futures n)) ∧
      (v.finish n k wall).told k = [job'.asDict] := by
  obtain ⟨job', hjob', hc, ha, hshows⟩ := jobs_finish hjob ho (report (v.shared.futures n)) wall
  refine ⟨job', hjob', hc, ha, hshows, ?_⟩
  simp only [Server.finish, Server.told, List.filter_append, List.map_append, hjob']
  rw [show (v.emitted.filter fun p => decide (p.1 = k)).map Prod.snd = [] from htold]
  simp

theorem callback {n k : ℕ} {due : List (ℕ × ℕ)} (h : Sound v) (hdue : v.due = (n, k) :: due)
    (wall : Time) : Sound (({ v with due := due } : Server).finish n k wall) := by
  have hperm : (v.callbacks ++ v.due).Perm ((n, k) :: (v.callbacks ++ due)) := by
    rw [hdue]
    exact List.perm_middle
  have hmem : (n, k) ∈ v.callbacks ++ v.due := hperm.symm.subset (List.mem_cons_self ..)
  have hsub : ∀ p ∈ v.callbacks ++ due, p ∈ v.callbacks ++ v.due := fun p hp =>
    hperm.symm.subset (List.mem_cons_of_mem _ hp)
  obtain ⟨hnot, hnodup⟩ := List.nodup_cons.1 ((hperm.map Prod.snd).nodup_iff.1 h.once)
  obtain ⟨r, hr, hk⟩ := h.owner _ hmem
  have hlen : ((({ v with due := due } : Server).finish n k wall).jobs.objects).length =
      v.jobs.objects.length := by
    simp only [Server.finish, Jobs.finish, List.length_modify]
  refine ⟨h.sane, h.idle, fun p hp => h.owing p ?_, fun p hp => h.owner p (hsub p hp), hnodup,
    h.own, fun p hp => ?_, fun m r' hr' => ?_⟩
  · rw [hdue]
    exact List.mem_cons_of_mem _ hp
  · rw [hlen]
    rcases List.mem_append.1 hp with hp | hp
    · exact h.known p hp
    · obtain ⟨job, hjob, rfl⟩ := List.mem_map.1 hp
      have hlt := (List.getElem?_eq_some_iff.1 (Option.mem_toList.1 hjob)).1
      simpa only [Jobs.finish, List.length_modify] using hlt
  have hentry := h.entry m r' hr'
  refine ⟨hentry.bound, hentry.answered, fun j hj => ?_⟩
  obtain ⟨job, hjob, hc, ha, hstate⟩ := hentry.detached j hj
  by_cases hjk : j = k
  · subst hjk
    obtain rfl : m = n := h.own n m r r' j hr hr' hk hj
    rcases hstate with ho | hs
    · obtain ⟨job', hjob', hc', ha', hshows, htold⟩ :=
        finish_own (v := { v with due := due }) (n := m) hjob ⟨ho.result, ho.error⟩ ho.told wall
      refine ⟨job', hjob', hc'.trans hc, ha'.trans ha, Or.inr ⟨hnot, ?_, hshows, htold⟩⟩
      exact h.owing (m, j) (by rw [hdue]; exact List.mem_cons_self ..)
    · exact absurd (List.mem_map_of_mem hmem) hs.called
  · obtain ⟨hsame, htold⟩ := finish_other { v with due := due } n hjk wall
    refine ⟨job, hsame.trans hjob, hc, ha, hstate.imp (fun ho => ?_) fun hs => ?_⟩
    · refine ⟨?_, ho.running, ho.result, ho.error, htold.trans ho.told⟩
      refine (List.mem_cons.1 (hperm.subset ho.callback)).resolve_left fun he => hjk ?_
      exact congrArg Prod.snd he
    · refine ⟨fun hm => hs.called ?_, hs.done, hs.shows, htold.trans hs.told⟩
      obtain ⟨p, hp, hpj⟩ := List.mem_map.1 hm
      exact List.mem_map.2 ⟨p, hsub p hp, hpj⟩

/-! ## The coroutines -/

/-- The requests when one of them goes on. -/
theorem update_cases {q r' : Request} {m : ℕ}
    (hr' : Function.update v.requests n (some q) m = some r') :
    m = n ∧ r' = q ∨ m ≠ n ∧ v.requests m = some r' := by
  by_cases hm : m = n
  · subst hm
    rw [Function.update_self] at hr'
    exact Or.inl ⟨rfl, (Option.some.inj hr').symm⟩
  · rw [Function.update_of_ne hm] at hr'
    exact Or.inr ⟨hm, hr'⟩

/-- A request that awaits its command is nobody's owner. -/
theorem update_owner {q : Request} {p : ℕ × ℕ} (hr : v.requests n = some r)
    (hst : r.stage = .awaiting) (hp : ∃ r', v.requests p.1 = some r' ∧ r'.stage = .detached p.2) :
    ∃ r', Function.update v.requests n (some q) p.1 = some r' ∧ r'.stage = .detached p.2 := by
  obtain ⟨r', hr', hk⟩ := hp
  have hne : p.1 ≠ n := by
    intro hpn
    rw [hpn, hr] at hr'
    cases hr'
    rw [hst] at hk
    cases hk
  exact ⟨r', (Function.update_of_ne hne _ _).trans hr', hk⟩

/-- A request is over without a job. -/
theorem setStage {stage : Stage} (h : Sound v) (hr : v.requests n = some r)
    (hst : r.stage = .awaiting) (hjob : ∀ k, stage ≠ .detached k)
    (ho : ∀ o, stage = .answered o →
      (v.shared.futures n).done = true ∧ (v.shared.futures n).outcome = some o) :
    Sound (v.setStage n r stage) := by
  have hold : ∀ {m r'}, (v.setStage n r stage).requests m = some r' → ∀ {k},
      r'.stage = .detached k → v.requests m = some r' := by
    intro m r' hr' k hk
    rcases update_cases hr' with ⟨-, rfl⟩ | ⟨-, hr'⟩
    · exact absurd hk (hjob k)
    · exact hr'
  refine ⟨h.sane, h.idle, h.owing, fun p hp => update_owner hr hst (h.owner p hp), h.once,
    fun m m' r' r'' k hr' hr'' hk hk' => h.own m m' r' r'' k (hold hr' hk) (hold hr'' hk') hk hk',
    h.known, fun m r' hr' => ?_⟩
  rcases update_cases hr' with ⟨rfl, rfl⟩ | ⟨-, hr'⟩
  · exact ⟨(h.entry m r hr).bound, ho, fun k hk => absurd hk (hjob k)⟩
  · have hentry := h.entry m r' hr'
    refine ⟨hentry.bound, hentry.answered, fun k hk => ?_⟩
    obtain ⟨job, hjob', hc, ha, hstate⟩ := hentry.detached k hk
    exact ⟨job, hjob', hc, ha, hstate.imp
      (fun ho => ⟨ho.callback, ho.running, ho.result, ho.error, ho.told⟩)
      fun hs => ⟨hs.called, hs.done, hs.shows, hs.told⟩⟩

/-- A request gets a job, and its callback is put among the others. -/
theorem register (h : Sound v) (hr : v.requests n = some r) (hst : r.stage = .awaiting)
    (callbacks due : List (ℕ × ℕ))
    (hperm : (callbacks ++ due).Perm ((n, v.jobs.objects.length) :: (v.callbacks ++ v.due)))
    (hidle : ∀ p ∈ callbacks, (v.shared.futures p.1).done = false)
    (howing : ∀ p ∈ due, (v.shared.futures p.1).done = true) (wall : Time) (id : String) :
    Sound { v with
      jobs := v.jobs.create id (commandKey r.command) r.args wall
      requests := Function.update v.requests n
        (some { r with stage := .detached v.jobs.objects.length })
      callbacks := callbacks, due := due } := by
  have hobjects : ∀ j < v.jobs.objects.length,
      (v.jobs.create id (commandKey r.command) r.args wall).objects[j]? = v.jobs.objects[j]? :=
    fun j hj => List.getElem?_append_left hj
  -- the jobs so far have smaller numbers
  have hless : ∀ {m r' j}, v.requests m = some r' → r'.stage = .detached j →
      j < v.jobs.objects.length := by
    intro m r' j hr' hj
    obtain ⟨job, hjob, -⟩ := (h.entry m r' hr').detached j hj
    exact (List.getElem?_eq_some_iff.1 hjob).1
  have hlater : ∀ p ∈ v.callbacks ++ v.due, p.2 < v.jobs.objects.length := by
    intro p hp
    obtain ⟨r', hr', hk⟩ := h.owner p hp
    exact hless hr' hk
  refine ⟨h.sane, hidle, howing, fun p hp => ?_, (hperm.map Prod.snd).nodup_iff.2
    (List.nodup_cons.2 ⟨fun hm => ?_, h.once⟩), fun m m' r' r'' k hr' hr'' hk hk' => ?_,
    fun p hp => ?_, fun m r' hr' => ?_⟩
  · rcases List.mem_cons.1 (hperm.subset hp) with rfl | hp
    · exact ⟨_, Function.update_self _ _ _, rfl⟩
    · exact update_owner hr hst (h.owner p hp)
  · obtain ⟨p, hp, hpk⟩ := List.mem_map.1 hm
    exact absurd hpk (Nat.ne_of_lt (hlater p hp))
  · rcases update_cases hr' with ⟨rfl, rfl⟩ | ⟨-, hm⟩ <;>
      rcases update_cases hr'' with ⟨rfl, rfl⟩ | ⟨-, hm'⟩
    · rfl
    · cases hk
      exact absurd (hless hm' hk') (Nat.lt_irrefl _)
    · cases hk'
      exact absurd (hless hm hk) (Nat.lt_irrefl _)
    · exact h.own m m' r' r'' k hm hm' hk hk'
  · have hp := h.known p hp
    simp only [Jobs.create, List.length_append, List.length_singleton]
    omega
  · rcases update_cases hr' with ⟨rfl, rfl⟩ | ⟨-, hr'⟩
    · refine ⟨(h.entry m r hr).bound, fun o ho => (by cases ho), fun k hk => ?_⟩
      cases hk
      refine ⟨_, List.getElem?_concat_length, rfl, rfl, Or.inl ⟨hperm.symm.subset
        (List.mem_cons_self ..), rfl, rfl, rfl, ?_⟩⟩
      simp only [Server.told, List.map_eq_nil_iff, List.filter_eq_nil_iff, decide_eq_true_eq]
      exact fun p hp => Nat.ne_of_lt (h.known p hp)
    · have hentry := h.entry m r' hr'
      refine ⟨hentry.bound, hentry.answered, fun k hk => ?_⟩
      obtain ⟨job, hjob', hc, ha, hstate⟩ := hentry.detached k hk
      have hk' := hless hr' hk
      refine ⟨job, (hobjects k hk').trans hjob', hc, ha, hstate.imp (fun ho => ⟨hperm.symm.subset
        (List.mem_cons_of_mem _ ho.callback), ho.running, ho.result, ho.error, ho.told⟩)
        fun hs => ⟨fun hm => ?_, hs.done, hs.shows, hs.told⟩⟩
      rcases List.mem_cons.1 ((hperm.map Prod.snd).subset hm) with he | hm
      · exact absurd he (Nat.ne_of_lt hk')
      · exact hs.called hm

theorem detach (h : Sound v) (hr : v.requests n = some r) (hst : r.stage = .awaiting)
    (wall later : Time) (id : String) : Sound (v.detach n r wall later id) := by
  unfold Server.detach
  show Sound (if (v.shared.futures n).done = true then _ else _)
  cases hdone : (v.shared.futures n).done with
  | true =>
      rw [if_pos rfl]
      have hreg := h.register hr hst v.callbacks
        ((n, v.jobs.objects.length) :: v.due) List.perm_middle h.idle
        (fun p hp => (List.mem_cons.1 hp).elim (fun he => he ▸ hdone) (h.owing p)) wall id
      exact hreg.callback rfl later
  | false =>
      rw [if_neg Bool.false_ne_true]
      refine h.register hr hst (v.callbacks ++ [(n, v.jobs.objects.length)]) v.due ?_
        (fun p hp => ?_) h.owing wall id
      · rw [List.append_assoc]
        exact List.perm_middle
      · rcases List.mem_append.1 hp with hp | hp
        · exact h.idle p hp
        · rw [List.mem_singleton.1 hp]
          exact hdone

/-! ## Runs -/

/-- A step is proper if its deed is. -/
theorem step (h : Sound v) {a : ServerStep} (ha : ∀ d ∈ deedsOf [a], d.Proper) :
    Sound (v.step a) := by
  cases a with
  | deed d wait => exact h.perform (ha d (List.mem_singleton_self _)) wait
  | callback wall =>
      simp only [Server.step]
      cases hdue : v.due with
      | nil => exact h
      | cons p due => exact h.callback hdue wall
  | wake n =>
      simp only [Server.step]
      cases hr : v.requests n with
      | none => exact h
      | some r =>
          dsimp only
          split_ifs with hcond
          · cases ho : (v.shared.futures n).outcome with
            | none => exact h.setStage hr hcond.1 (fun _ h => nomatch h) fun _ h => nomatch h
            | some o =>
                refine h.setStage hr hcond.1 (fun _ h => nomatch h) fun o' h => ?_
                cases h
                exact ⟨hcond.2, ho⟩
          · exact h
  | timeout n now wall later id =>
      simp only [Server.step]
      cases hr : v.requests n with
      | none => exact h
      | some r =>
          dsimp only
          split_ifs with hcond
          · exact h.detach hr hcond.1 wall later id
          · exact h
  | drop n =>
      simp only [Server.step]
      cases hr : v.requests n with
      | none => exact h
      | some r =>
          dsimp only
          split_ifs with hcond
          · exact h.setStage hr hcond (fun _ h => nomatch h) fun _ h => nomatch h
          · exact h

end Sound

theorem deedsOf_append (steps more : List ServerStep) :
    deedsOf (steps ++ more) = deedsOf steps ++ deedsOf more := List.filterMap_append

theorem serve_concat (steps : List ServerStep) (a : ServerStep) :
    serve (steps ++ [a]) = (serve steps).step a := List.foldl_concat ..

/-- **Every order of steps is sound**, if its deeds are proper. -/
theorem sound_serve (steps : List ServerStep) (h : ∀ d ∈ deedsOf steps, d.Proper) :
    Sound (serve steps) := by
  induction steps using List.reverseRecOn with
  | nil => exact sound_new
  | append_singleton steps a ih =>
      rw [deedsOf_append] at h
      rw [serve_concat]
      exact (ih fun d hd => h d (List.mem_append_left _ hd)).step
        fun d hd => h d (List.mem_append_right _ hd)

/-- The event loop leaves the shared variables alone. -/
theorem step_shared (v : Server) (a : ServerStep) :
    (v.step a).shared = (deedsOf [a]).foldl Shared.act v.shared := by
  cases a with
  | deed d wait => rfl
  | callback wall =>
      simp only [Server.step]
      cases v.due <;> rfl
  | wake n =>
      simp only [Server.step]
      cases v.requests n with
      | none => rfl
      | some r =>
          dsimp only
          split_ifs
          · cases (v.shared.futures n).outcome <;> rfl
          · rfl
  | timeout n now wall later id =>
      simp only [Server.step]
      cases v.requests n with
      | none => rfl
      | some r =>
          dsimp only
          split_ifs
          · unfold Server.detach
            show (if (v.shared.futures n).done = true then _ else _ : Server).shared = _
            split_ifs <;> rfl
          · rfl
  | drop n =>
      simp only [Server.step]
      cases v.requests n with
      | none => rfl
      | some r =>
          dsimp only
          split_ifs <;> rfl

theorem serve_shared (steps : List ServerStep) :
    (serve steps).shared = (deedsOf steps).foldl Shared.act {} := by
  induction steps using List.reverseRecOn with
  | nil => rfl
  | append_singleton steps a ih =>
      rw [serve_concat, step_shared, ih, deedsOf_append, List.foldl_append]

/-- **Every request is answered once.**  A run of the worker, also one that has ended, is a list of
deeds.  Whatever the event loop does between them, and at any point of them, each request whose
task and future were not cancelled (those are `dropped`, and nobody waits for an answer) has been
answered with the outcome of its command, or has a job of its own that is filled in once with this
outcome, or awaits it still. -/
theorem requests_reported {W : Type} [Line W] [Clients W] {cfg : Config} {w : W} {s t : St W}
    (h : Head cfg w s) (ht : t = s ∨ t = (runPass cfg s).2) :
    ∃ ds : List Deed, ds.foldl Shared.act {} = t.shared ∧
      ∀ steps : List ServerStep, deedsOf steps <+: ds →
        (serve steps).shared = (deedsOf steps).foldl Shared.act {} ∧
          ∀ n r, (serve steps).requests n = some r → Reported (serve steps) n r := by
  have hrun : Enacts (St.init w) t := by
    rcases ht with rfl | rfl
    · exact enacts_pass.run h
    · exact IsTrans.trans _ _ _ (enacts_pass.run h) (enacts_pass.runPass cfg s)
  obtain ⟨ds, hproper, hds⟩ := hrun
  refine ⟨ds, hds, fun steps hsteps => ⟨serve_shared steps, fun n r hr => ?_⟩⟩
  exact (sound_serve steps fun d hd => hproper d (hsteps.subset hd)).reported hr

/-- Three readings of the tilt. -/
theorem requests_reported_threeAsked :
    ∃ ds : List Deed, ds.foldl Shared.act {} = (runPasses attentive 3 threeAsked).shared ∧
      ∀ steps : List ServerStep, deedsOf steps = ds →
        ∀ r, (serve steps).requests 0 = some r → Reported (serve steps) 0 r := by
  have hhead : Head attentive asksThrice (runPasses attentive 3 threeAsked) :=
    (reaches_runPasses attentive 1 _).trans (reaches_runPasses attentive 3 _)
  obtain ⟨ds, hds, hall⟩ := requests_reported hhead (Or.inl rfl)
  exact ⟨ds, hds, fun steps hsteps r hr => (hall steps (hsteps ▸ List.prefix_refl _)).2 0 r hr⟩

/-- A budget that is over before the outcome comes. -/
example : ((serve [.deed (.call (.submit .getTilt [] 5 0 0)) false, .deed (.claim 0) false,
    .timeout 0 (ms 8000) 1 2 "a", .deed (.resolve 0 (.ok (.tilt 2))) false,
    .callback 3]).told 0).map (·.result) = [some (.tilt 2)] := by decide +kernel

end OpenAisg.Api
