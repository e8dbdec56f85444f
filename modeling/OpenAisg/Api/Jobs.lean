import Mathlib.Data.List.DropRight
import Mathlib.Data.List.Infix
import OpenAisg.Hdlc
import OpenAisg.Retap.Ret

/-!
# The job store (`api/jobs.py`)

A command that outlives its HTTP request gets a job, which its completion fills in later.  The
store forgets the oldest jobs when there are more than its limit, whether they have finished
or not.

* `Job`, `JobStore` — the classes; a job is shared by the store and by the command's
  completion, so the objects are kept apart from the store's two containers.
* `evict` — the loop of `create`, which takes jobs out of both containers until the limit is
  met.
* `JobOp`, `Jobs.run` — any order of creations and completions.
* `Aligned` — the order list and the map hold the newest jobs, in step.
* `RunningNewest` — every unfinished job is among the newest.
* `run_kept_iff` — when no unfinished job is forgotten: exactly if that holds at every moment.
-/

namespace OpenAisg.Api

open Hdlc Retap

variable {α ρ : Type}

/-! ## The classes -/

/-- `Job.state`. -/
inductive JobState
  | running
  | done
  | failed
  deriving DecidableEq, Repr

/-- `Job`; the arguments are a dictionary and the result is any value. -/
structure Job (α ρ : Type) where
  id : String
  command : String
  args : α
  state : JobState := .running
  result : Option ρ := none
  error : Option String := none
  startedAt : Time
  finishedAt : Option Time := none
  deriving DecidableEq, Repr

/-- The dictionary that `as_dict` returns; the times are in milliseconds, the duration is in
hundredths of a second. -/
structure JobDict (α ρ : Type) where
  id : String
  command : String
  args : α
  state : JobState
  startedAt : ℤ
  result : Option ρ
  error : Option String
  finishedAt : Option ℤ
  duration : Option ℤ
  deriving DecidableEq, Repr

/-- `as_dict`; an empty error and a time of 0 are left out. -/
def Job.asDict (j : Job α ρ) : JobDict α ρ where
  id := j.id
  command := j.command
  args := j.args
  state := j.state
  startedAt := pyRound (j.startedAt / 1000)
  result := j.result
  error := j.error.filter (· ≠ "")
  finishedAt := (j.finishedAt.filter (· ≠ 0)).map fun t => pyRound (t / 1000)
  duration := (j.finishedAt.filter (· ≠ 0)).map fun t => pyRound ((t - j.startedAt) / 10000)

/-- The attributes of a `JobStore`; the map leads from a job's id to the object. -/
structure JobStore where
  jobs : List (String × ℕ) := []
  order : List String := []
  limit : ℕ := 200
  deriving DecidableEq, Repr

/-- The store, and every `Job` that was made, the oldest first. -/
structure Jobs (α ρ : Type) where
  objects : List (Job α ρ) := []
  store : JobStore := {}
  deriving DecidableEq

/-- `while len(order) > limit: jobs.pop(order.pop(0), None)`. -/
def evict (limit : ℕ) : List String → List (String × ℕ) → List String × List (String × ℕ)
  | [], jobs => ([], jobs)
  | i :: order, jobs =>
      if limit < (i :: order).length then evict limit order (jobs.eraseP (·.1 = i))
      else (i :: order, jobs)

namespace Jobs

/-- `create`; `id` is the random one, `now` the time. -/
def create (w : Jobs α ρ) (id command : String) (args : α) (now : Time) : Jobs α ρ :=
  let job : Job α ρ := { id := id, command := command, args := args, startedAt := now }
  let r := evict w.store.limit (w.store.order ++ [id])
    (dictSet id w.objects.length w.store.jobs)
  { objects := w.objects ++ [job], store := { w.store with order := r.1, jobs := r.2 } }

/-- `get`. -/
def get (w : Jobs α ρ) (id : String) : Option (Job α ρ) :=
  (w.store.jobs.lookup id).bind fun r => w.objects[r]?

/-- `list`. -/
def list (w : Jobs α ρ) : Except Exn (List (JobDict α ρ)) :=
  w.store.order.reverse.mapM fun i =>
    match w.get i with
    | some job => .ok job.asDict
    | none => .error (.py .keyError ("'" ++ i ++ "'"))

/-- `finish` of `_run`, for the `k`th job: the command returned a value or raised. -/
def finish (w : Jobs α ρ) (k : ℕ) (outcome : Except String (Option ρ)) (now : Time) :
    Jobs α ρ :=
  { w with
    objects := w.objects.modify k fun job =>
      match outcome with
      | .ok result => { job with result := result, state := .done, finishedAt := some now }
      | .error e => { job with error := some e, state := .failed, finishedAt := some now } }

end Jobs

/-! ## Runs -/

/-- A job is created, or a command completes. -/
inductive JobOp (α ρ : Type)
  | create (id command : String) (args : α) (now : Time)
  | finish (k : ℕ) (outcome : Except String (Option ρ)) (now : Time)

namespace Jobs

def step (w : Jobs α ρ) : JobOp α ρ → Jobs α ρ
  | .create id command args now => w.create id command args now
  | .finish k outcome now => w.finish k outcome now

/-- Any order of operations on a new store. -/
def run (limit : ℕ) (ops : List (JobOp α ρ)) : Jobs α ρ :=
  ops.foldl step { store := { limit := limit } }

end Jobs

/-- The ids given to the jobs, the oldest first. -/
def newIds (ops : List (JobOp α ρ)) : List String :=
  ops.filterMap fun
    | .create id .. => some id
    | .finish .. => none

/-! ## The two containers -/

/-- Both containers are cut down to their newest entries. -/
theorem evict_eq (limit : ℕ) {order : List String} {jobs : List (String × ℕ)}
    (h : jobs.map Prod.fst = order) :
    evict limit order jobs = (order.rtake limit, jobs.rtake limit) := by
  induction order generalizing jobs with
  | nil =>
      rw [List.map_eq_nil_iff.1 h]
      simp [evict]
  | cons i order ih =>
      cases jobs with
      | nil => cases h
      | cons e jobs =>
          obtain ⟨rfl, hrest⟩ := List.cons.inj h
          have hlen : jobs.length = order.length := by simpa using congrArg List.length hrest
          rw [evict]
          by_cases hlong : limit < (e.1 :: order).length
          · have hcut : ∀ {β : Type} (x : β) (xs : List β), limit ≤ xs.length →
                (x :: xs).rtake limit = xs.rtake limit := by
              intro β x xs hx
              rw [List.rtake, List.length_cons, Nat.succ_sub hx]
              rfl
            rw [List.length_cons] at hlong
            rw [if_pos (by simpa using hlong), List.eraseP_cons_of_pos (by simp), ih hrest,
              hcut _ _ (by omega), hcut _ _ (by omega)]
          · have hkeep : ∀ {β : Type} {xs : List β}, xs.length ≤ limit → xs.rtake limit = xs := by
              intro β xs hx
              rw [List.rtake, Nat.sub_eq_zero_of_le hx, List.drop_zero]
            rw [if_neg hlong, hkeep (by omega), hkeep (by simpa [hlen] using hlong)]

/-- The newest entries of a longer log are among the newest ones of the log and the new one. -/
theorem rtake_append_singleton {β : Type} (n : ℕ) (xs : List β) (x : β) :
    (xs.rtake n ++ [x]).rtake n = (xs ++ [x]).rtake n := by
  simp only [List.rtake_eq_reverse_take_reverse, List.reverse_append, List.reverse_reverse,
    List.reverse_singleton, List.singleton_append]
  cases n with
  | zero => rfl
  | succ n => simp [List.take_take]

/-- The ids of all jobs, with the jobs themselves. -/
def Jobs.entries (w : Jobs α ρ) : List (String × ℕ) := (w.objects.map Job.id).zipIdx

/-- The store holds the newest jobs, in both of its containers. -/
structure Aligned (w : Jobs α ρ) : Prop where
  ids : (w.objects.map Job.id).Nodup
  order : w.store.order = (w.objects.map Job.id).rtake w.store.limit
  jobs : w.store.jobs = w.entries.rtake w.store.limit

theorem map_fst_entries (w : Jobs α ρ) : w.entries.map Prod.fst = w.objects.map Job.id :=
  List.zipIdx_map_fst ..

theorem map_rtake {β γ : Type} (f : β → γ) (n : ℕ) (xs : List β) :
    (xs.rtake n).map f = (xs.map f).rtake n := by
  simp [List.rtake, List.map_drop]

/-- The keys of the map are the order list. -/
theorem Aligned.keys {w : Jobs α ρ} (h : Aligned w) :
    w.store.jobs.map Prod.fst = w.store.order := by
  rw [h.jobs, map_rtake, map_fst_entries, h.order]

/-- A new job. -/
theorem Aligned.create {w : Jobs α ρ} (h : Aligned w) {id : String}
    (hid : id ∉ w.objects.map Job.id) (command : String) (args : α) (now : Time) :
    Aligned (w.create id command args now) := by
  have hfresh : id ∉ w.store.jobs.map Prod.fst := by
    rw [h.keys, h.order]
    exact fun hmem => hid (List.mem_of_mem_drop hmem)
  have hkeys : (w.store.jobs ++ [(id, w.objects.length)]).map Prod.fst =
      w.store.order ++ [id] := by
    rw [List.map_append, h.keys]
    rfl
  have hstore : (w.create id command args now).store = { w.store with
      order := (w.store.order ++ [id]).rtake w.store.limit
      jobs := (w.store.jobs ++ [(id, w.objects.length)]).rtake w.store.limit } := by
    rw [Jobs.create, dictSet_fresh hfresh, evict_eq w.store.limit hkeys]
  have hids : (w.create id command args now).objects.map Job.id =
      w.objects.map Job.id ++ [id] := List.map_append
  have hentries : (w.create id command args now).entries =
      w.entries ++ [(id, w.objects.length)] := by
    rw [Jobs.entries, hids, List.zipIdx_append, List.zipIdx_singleton, List.length_map,
      Nat.zero_add]
    rfl
  constructor
  · rw [hids]
    refine List.nodup_append.2 ⟨h.ids, List.pairwise_singleton _ id, fun i hi j hj hij => ?_⟩
    rw [hij, List.mem_singleton.1 hj] at hi
    exact hid hi
  · rw [hstore, hids, h.order]
    exact rtake_append_singleton _ _ _
  · rw [hstore, hentries, h.jobs]
    exact rtake_append_singleton _ _ _

/-- The completion of a command changes no id. -/
theorem map_id_finish (w : Jobs α ρ) (k : ℕ) (outcome : Except String (Option ρ)) (now : Time) :
    (w.finish k outcome now).objects.map Job.id = w.objects.map Job.id := by
  apply List.ext_getElem?
  intro i
  simp only [Jobs.finish, List.getElem?_map, List.getElem?_modify]
  by_cases hi : k = i
  · cases outcome <;> simp [hi, Function.comp_def]
  · simp [hi]

theorem Aligned.finish {w : Jobs α ρ} (h : Aligned w) (k : ℕ)
    (outcome : Except String (Option ρ)) (now : Time) : Aligned (w.finish k outcome now) := by
  have hids := map_id_finish w k outcome now
  have hentries : (w.finish k outcome now).entries = w.entries := by
    rw [Jobs.entries, hids]
    rfl
  exact ⟨hids ▸ h.ids, hids ▸ h.order, hentries ▸ h.jobs⟩

theorem lookup_of_mem {jobs : List (String × ℕ)} (hkeys : (jobs.map Prod.fst).Nodup)
    {i : String} {r : ℕ} (h : (i, r) ∈ jobs) : jobs.lookup i = some r := by
  induction jobs with
  | nil => cases h
  | cons e jobs ih =>
      obtain ⟨j, q⟩ := e
      obtain ⟨hj, hrest⟩ := List.nodup_cons.1 hkeys
      rcases List.mem_cons.1 h with heq | hmem
      · cases heq
        exact List.lookup_cons_self
      · have hne : i ≠ j := by
          rintro rfl
          exact hj (List.mem_map.2 ⟨_, hmem, rfl⟩)
        rw [List.lookup_cons, beq_false_of_ne hne]
        exact ih hrest hmem

/-- The newest elements are those with few behind them. -/
theorem mem_rtake_iff {β : Type} {n : ℕ} {xs : List β} {x : β} :
    x ∈ xs.rtake n ↔ ∃ k, xs[k]? = some x ∧ xs.length ≤ k + n := by
  rw [List.rtake, List.mem_iff_getElem?]
  constructor
  · rintro ⟨i, hi⟩
    rw [List.getElem?_drop] at hi
    exact ⟨_, hi, by omega⟩
  · rintro ⟨k, hk, hlen⟩
    refine ⟨k - (xs.length - n), ?_⟩
    rw [List.getElem?_drop, show xs.length - n + (k - (xs.length - n)) = k by omega, hk]

/-- What `get` returns: the job, as long as it is among the newest ones. -/
theorem Aligned.get {w : Jobs α ρ} (h : Aligned w) {k : ℕ} {job : Job α ρ}
    (hk : w.objects[k]? = some job) :
    w.get job.id = if w.objects.length ≤ k + w.store.limit then some job else none := by
  have hkeys : (w.store.jobs.map Prod.fst).Nodup := by
    rw [h.keys, h.order]
    exact h.ids.sublist (List.drop_sublist _ _)
  have hid : (w.objects.map Job.id)[k]? = some job.id := by
    rw [List.getElem?_map, hk]
    rfl
  unfold Jobs.get
  by_cases hnew : w.objects.length ≤ k + w.store.limit
  · have hmem : (job.id, k) ∈ w.store.jobs := by
      rw [h.jobs, mem_rtake_iff]
      refine ⟨k, ?_, by simpa [Jobs.entries] using hnew⟩
      rw [Jobs.entries, List.getElem?_zipIdx, hid]
      simp
    rw [lookup_of_mem hkeys hmem, if_pos hnew]
    exact hk
  · have hnone : w.store.jobs.lookup job.id = none := by
      rw [List.lookup_eq_none_iff]
      intro e he
      have hkey : e.1 ∈ w.store.order := h.keys ▸ List.mem_map.2 ⟨e, he, rfl⟩
      rw [h.order, mem_rtake_iff, List.length_map] at hkey
      obtain ⟨j, hj, hlen⟩ := hkey
      rw [bne_iff_ne]
      intro heq
      have hjk : j = k :=
        (List.getElem?_inj (List.getElem?_eq_some_iff.1 hj).1 h.ids).1 (by rw [hj, hid, heq])
      omega
    rw [hnone, if_neg hnew]
    rfl

theorem mapM_ok {ε β γ : Type} {f : β → Except ε γ} {g : β → γ} {xs : List β}
    (h : ∀ x ∈ xs, f x = .ok (g x)) : xs.mapM f = .ok (xs.map g) := by
  induction xs with
  | nil => rfl
  | cons x xs ih =>
      obtain ⟨hx, hrest⟩ := List.forall_mem_cons.1 h
      rw [List.mapM_cons, hx, ih hrest]
      rfl

/-- `list` never fails: it returns the newest jobs. -/
theorem Aligned.list {w : Jobs α ρ} (h : Aligned w) :
    w.list = .ok ((w.objects.rtake w.store.limit).reverse.map Job.asDict) := by
  have hids : w.store.order.reverse = (w.objects.rtake w.store.limit).reverse.map Job.id := by
    rw [h.order, ← map_rtake, List.map_reverse]
  rw [Jobs.list, hids, List.mapM_map]
  refine mapM_ok fun job hjob => ?_
  obtain ⟨k, hk, hlen⟩ := mem_rtake_iff.1 (List.mem_reverse.1 hjob)
  have hget := h.get hk
  rw [if_pos hlen] at hget
  simp only [Function.comp_apply, hget]

/-! ## Unfinished jobs -/

/-- What a client relies on: an unfinished job is returned and listed, the two containers are in
step, and listing does not fail. -/
structure Kept (w : Jobs α ρ) : Prop where
  polled : ∀ job ∈ w.objects, job.state = .running →
    w.get job.id = some job ∧ ∃ ds, w.list = .ok ds ∧ job.asDict ∈ ds
  inStep : ∀ id, id ∈ w.store.order ↔ id ∈ w.store.jobs.map Prod.fst
  lists : ∃ ds, w.list = .ok ds

/-- Every unfinished job is among the newest ones. -/
def RunningNewest (w : Jobs α ρ) : Prop :=
  ∀ k (hk : k < w.objects.length), w.objects[k].state = .running →
    w.objects.length ≤ k + w.store.limit

instance (w : Jobs α ρ) : Decidable (RunningNewest w) := inferInstanceAs (Decidable (∀ _ _, _))

/-- Aligned containers keep the unfinished jobs exactly if these are among the newest ones. -/
theorem Aligned.kept_iff {w : Jobs α ρ} (h : Aligned w) : Kept w ↔ RunningNewest w := by
  constructor
  · intro hkept k hk hrun
    have hget := (hkept.polled _ (List.getElem_mem hk) hrun).1
    rw [h.get (List.getElem?_eq_getElem hk)] at hget
    by_contra hold
    rw [if_neg hold] at hget
    cases hget
  · intro hnew
    refine ⟨fun job hjob hrun => ?_, fun id => by rw [h.keys], _, h.list⟩
    obtain ⟨k, hlt, rfl⟩ := List.mem_iff_getElem.1 hjob
    have hk := List.getElem?_eq_getElem hlt
    have hlen := hnew k hlt hrun
    refine ⟨by rw [h.get hk, if_pos hlen], _, h.list, List.mem_map.2 ⟨_, ?_, rfl⟩⟩
    exact List.mem_reverse.2 (mem_rtake_iff.2 ⟨k, hk, hlen⟩)

theorem newIds_append (ops more : List (JobOp α ρ)) :
    newIds (ops ++ more) = newIds ops ++ newIds more := List.filterMap_append

/-- Over a run with distinct ids the containers stay aligned. -/
theorem aligned_run (limit : ℕ) (ops : List (JobOp α ρ)) (hids : (newIds ops).Nodup) :
    Aligned (Jobs.run limit ops) ∧ (Jobs.run limit ops).objects.map Job.id = newIds ops := by
  induction ops using List.reverseRecOn with
  | nil => exact ⟨⟨List.nodup_nil, (List.rtake_nil _).symm, (List.rtake_nil _).symm⟩, rfl⟩
  | append_singleton ops op ih =>
      rw [newIds_append] at hids
      obtain ⟨h, hmap⟩ := ih (List.nodup_append.1 hids).1
      have hstep : Jobs.run limit (ops ++ [op]) = (Jobs.run limit ops).step op :=
        List.foldl_concat ..
      rw [hstep, newIds_append]
      cases op with
      | create id command args now =>
          have hid : id ∉ (Jobs.run limit ops).objects.map Job.id := by
            rw [hmap]
            intro hmem
            exact (List.nodup_append.1 hids).2.2 id hmem id (by simp [newIds]) rfl
          refine ⟨h.create hid command args now, ?_⟩
          rw [← hmap]
          exact List.map_append
      | finish k outcome now =>
          refine ⟨h.finish k outcome now, ?_⟩
          rw [Jobs.step, map_id_finish, hmap]
          exact (List.append_nil _).symm

/-- **Unfinished jobs.**  Throughout a run an unfinished job is returned by `get` and listed, the
two containers are in step and `list` does not fail, if and only if throughout the run every
unfinished job is among the newest ones, as many as the limit says. -/
theorem run_kept_iff (limit : ℕ) (ops : List (JobOp α ρ)) (hids : (newIds ops).Nodup) :
    (∀ past, past <+: ops → Kept (Jobs.run limit past)) ↔
      ∀ past, past <+: ops → RunningNewest (Jobs.run limit past) := by
  have hstep : ∀ past, past <+: ops →
      (Kept (Jobs.run limit past) ↔ RunningNewest (Jobs.run limit past)) := by
    intro past hpast
    obtain ⟨more, rfl⟩ := hpast
    rw [newIds_append] at hids
    exact (aligned_run limit past (List.nodup_append.1 hids).1).1.kept_iff
  exact forall₂_congr hstep

/-- With room for one job: a movement that finishes before the next one is created. -/
theorem run_kept_two :
    Kept (Jobs.run 1 ([.create "a" "set_tilt" () 0, .finish 0 (.ok (some ())) 1,
      .create "b" "set_tilt" () 2] : List (JobOp Unit Unit))) := by
  refine (run_kept_iff 1 _ (by decide)).2 (fun past hpast => ?_) _ (List.prefix_refl _)
  rw [← List.mem_inits] at hpast
  revert past
  decide

/-- `n` movements that do not finish; their ids differ in their length. -/
def movements (n : ℕ) : List (JobOp Unit Unit) :=
  (List.range n).map fun k => .create (String.ofList (List.replicate k '0')) "set_tilt" () 0

theorem nodup_newIds_movements (n : ℕ) : (newIds (movements n)).Nodup := by
  have hids : newIds (movements n) =
      (List.range n).map fun k => String.ofList (List.replicate k '0') := by
    rw [newIds, movements, List.filterMap_map, ← List.filterMap_eq_map]
    rfl
  rw [hids, List.nodup_iff_pairwise_ne, List.pairwise_map]
  refine List.nodup_range.imp fun hne heq => hne ?_
  simpa using congrArg String.length heq

/-- None of them finishes. -/
theorem run_movements (limit n : ℕ) :
    (Jobs.run limit (movements n)).objects.length = n ∧
      (∀ job ∈ (Jobs.run limit (movements n)).objects, job.state = .running) ∧
      (Jobs.run limit (movements n)).store.limit = limit := by
  induction n with
  | zero => exact ⟨rfl, fun job hjob => (List.not_mem_nil hjob).elim, rfl⟩
  | succ n ih =>
      obtain ⟨hlen, hrun, hlimit⟩ := ih
      have hstep : movements (n + 1) = movements n ++
          [.create (String.ofList (List.replicate n '0')) "set_tilt" () 0] := by
        rw [movements, List.range_succ, List.map_append]
        rfl
      rw [hstep, Jobs.run, List.foldl_concat, ← Jobs.run]
      refine ⟨by simp [Jobs.step, Jobs.create, hlen], fun job hjob => ?_, hlimit⟩
      rcases List.mem_append.1 hjob with hold | hnew
      · exact hrun job hold
      · rw [List.mem_singleton.1 hnew]

/-- After 200 more movements the first one, which is still running, is gone. -/
theorem run_forgets : ¬ ∀ past, past <+: movements 201 → Kept (Jobs.run 200 past) := by
  intro h
  have hkept := h _ (List.prefix_refl _)
  obtain ⟨hlen, hrun, hlimit⟩ := run_movements 200 201
  have haligned := (aligned_run 200 _ (nodup_newIds_movements 201)).1
  have hnew := haligned.kept_iff.1 hkept 0 (by omega) (hrun _ (List.getElem_mem _))
  omega

end OpenAisg.Api
