import OpenAisg.Session.Resolution

/-!
# What is done to the shared variables

The worker thread and its clients meet in a few variables.  To the other threads a run of the
worker is no more than a list of deeds on them, and this file takes that list out of a run.

* `Deed`, `Shared.act` — a call of a client, or one of the three things the worker does: it
  takes a command, claims a future, or resolves one.
* `Deed.Proper` — a command is only failed with an `AisgError`.
* `Enacts` — the deeds that lead from one state to another.
* `enacts_pass` — it has every kind of step that a pass is made of, and so, by the walk over
  the worker, every method of it enacts proper deeds.
* `act_each` — what a deed can do to a future, and `Sane` — the futures between two deeds.
* `act_done`, `act_sane`, `act_next` — a future that is done stays as it is, a sane one stays
  sane, and numbers are given out in order.
-/

namespace OpenAisg.Session

open Hdlc Link Retap Prog

/-! ## Deeds -/

/-- What is done to the shared variables. -/
inductive Deed where
  | call (c : ClientCall)
  /-- `get_nowait` returns a command. -/
  | take
  /-- `set_running_or_notify_cancel`. -/
  | claim (seq : ℕ)
  /-- `set_result` or `set_exception`. -/
  | resolve (seq : ℕ) (outcome : Except Exn Result)

/-- A deed that its variable does not allow raises, and changes nothing. -/
def Shared.act (sh : Shared) : Deed → Shared
  | .call c => sh.apply c
  | .take => match popMin sh.queue with
      | none => sh
      | some (_, q) => { sh with queue := q }
  | .claim seq => match (sh.futures seq).state with
      | .pending => sh.setFuture seq { sh.futures seq with state := .running }
      | .cancelled => sh.setFuture seq { sh.futures seq with state := .notified }
      | .running | .notified | .finished => sh
  | .resolve seq outcome => match (sh.futures seq).state with
      | .pending | .running => sh.setFuture seq
          { state := .finished, outcome := some outcome
            resolved := (sh.futures seq).resolved + 1 }
      | .cancelled | .notified | .finished => sh

/-- An error that ends a command is an `AisgError`. -/
def Deed.Proper : Deed → Prop
  | .resolve _ (.error e) => e.isAisg = true
  | _ => True

section Enacts

variable {W : Type}

/-- The deeds lead from one state to the other. -/
def Enacts (s t : St W) : Prop :=
  ∃ ds : List Deed, (∀ d ∈ ds, d.Proper) ∧ ds.foldl Shared.act s.shared = t.shared

instance : IsPreorder (St W) Enacts where
  refl s := ⟨[], fun _ h => absurd h List.not_mem_nil, rfl⟩
  trans s t u h h' := by
    obtain ⟨ds, hds, ht⟩ := h
    obtain ⟨ds', hds', hu⟩ := h'
    refine ⟨ds ++ ds', fun d hd => (List.mem_append.1 hd).elim (hds d) (hds' d), ?_⟩
    rw [List.foldl_append, ht, hu]

theorem Enacts.of_eq {s t : St W} (h : t.shared = s.shared) : Enacts s t :=
  ⟨[], fun _ hd => absurd hd List.not_mem_nil, h.symm⟩

/-- One deed. -/
theorem Enacts.one {s t : St W} {d : Deed} (hd : d.Proper) (h : s.shared.act d = t.shared) :
    Enacts s t :=
  ⟨[d], fun _ hd' => by rwa [List.mem_singleton.1 hd'], h⟩

/-- The other threads have their turn. -/
theorem enacts_calls (s : St W) (cs : List ClientCall) :
    Enacts s { s with shared := cs.foldl Shared.apply s.shared } := by
  refine ⟨cs.map .call, fun d hd => ?_, ?_⟩
  · obtain ⟨c, -, rfl⟩ := List.mem_map.1 hd
    exact trivial
  · rw [List.foldl_map]
    rfl

theorem enacts_lift {a b : LinkSt W Worker} : Lift Enacts a b := fun _ _ _ => Enacts.of_eq rfl

variable [Line W] [Clients W]

omit [Clients W] in
/-- The state machine does nothing to the shared variables but let the others have their turn. -/
theorem enacts_frames : FrameClosed (W := W) Enacts where
  world _ _ := Enacts.of_eq rfl
  calls := enacts_calls
  books _ _ _ := Enacts.of_eq rfl
  stored _ _ _ := Enacts.of_eq rfl
  report _ _ := Enacts.of_eq rfl
  baseline _ _ := Enacts.of_eq rfl
  parked _ := Enacts.of_eq rfl
  wire _ _ _ := Enacts.of_eq rfl
  keepaliveTake addr vr f _ := moves_keepaliveTake (fun _ _ => enacts_lift)
    (fun _ _ _ => enacts_lift) (fun _ _ _ => enacts_lift) (fun _ _ => Enacts.of_eq rfl) addr vr f
  drainTake f := moves_drainTake (fun _ _ => enacts_lift) (fun _ _ _ => enacts_lift)
    (fun _ _ _ => enacts_lift) f
  log _ _ _ := Enacts.of_eq rfl
  link _ _ _ _ _ := Enacts.of_eq rfl
  iFrame _ _ _ _ := moves_onIFrame (fun _ _ => enacts_lift) (fun _ _ _ _ => enacts_lift)
    (fun _ _ _ => enacts_lift) fun _ _ => enacts_lift

omit [Clients W] in
theorem enacts_closed : StepClosed (W := W) Enacts where
  toBusClosed := (enacts_frames).busClosed
  state _ _ _ := Enacts.of_eq rfl
  address _ _ _ := Enacts.of_eq rfl
  opened _ := Enacts.of_eq rfl
  closed _ := Enacts.of_eq rfl
  dropped _ := Enacts.of_eq rfl
  armed _ _ := Enacts.of_eq rfl

omit [Line W] [Clients W] in
/-- A deed after the clients had their turn. -/
theorem Enacts.after_calls {s t : St W} {cs : List ClientCall} {d : Deed} (hd : d.Proper)
    (h : (cs.foldl Shared.apply s.shared).act d = t.shared) : Enacts s t :=
  IsTrans.trans (r := Enacts) _ _ _ (enacts_calls s cs) (Enacts.one hd h)

omit [Line W] in
/-- To claim a future is a deed. -/
theorem enacts_claim (n : ℕ) : Moves Enacts (claim n : WorkerProg W Bool) := by
  refine moves_of_wp fun s => ?_
  unfold claim
  rw [wp_bind, wp_shared]
  have hact : ∀ {t : St W}, ((Clients.others s.world).1.foldl Shared.apply s.shared).act
      (.claim n) = t.shared → Enacts s t := fun h => Enacts.after_calls (d := .claim n) trivial h
  generalize (Clients.others s.world).1.foldl Shared.apply s.shared = sh at hact ⊢
  simp only [Shared.act] at hact
  cases hst : (sh.futures n).state with
  | pending | cancelled =>
      rw [hst] at hact
      rw [wp_bind, wp_modify]
      exact hact rfl
  | running | notified | finished =>
      rw [hst] at hact
      exact hact rfl

omit [Line W] in
/-- To resolve one is a deed, proper because of what the worker resolves with. -/
theorem enacts_resolve (n : ℕ) (o : Except Exn Result) (ho : Answer o) :
    Moves Enacts (resolve n o : WorkerProg W Unit) := by
  refine moves_of_wp fun s => ?_
  have hproper : (Deed.resolve n o).Proper := by
    cases o with
    | ok x => exact trivial
    | error e => exact ho
  unfold resolve
  rw [wp_bind, wp_shared]
  have hact : ∀ {t : St W}, ((Clients.others s.world).1.foldl Shared.apply s.shared).act
      (.resolve n o) = t.shared → Enacts s t := fun h => Enacts.after_calls hproper h
  generalize (Clients.others s.world).1.foldl Shared.apply s.shared = sh at hact ⊢
  simp only [Shared.act] at hact
  cases hst : (sh.futures n).state with
  | pending | running =>
      rw [hst] at hact
      rw [wp_modify]
      exact hact rfl
  | cancelled | notified | finished =>
      rw [hst] at hact
      exact hact rfl

omit [Line W] in
/-- To take a command is a deed. -/
theorem enacts_pop : Moves Enacts (pop : WorkerProg W (Option Command)) := by
  refine moves_of_wp fun s => ?_
  unfold pop
  refine (wp_bind _ _).2 (wp_sync.2 ?_)
  have hact : ∀ {t : St W}, ((Clients.others s.world).1.foldl Shared.apply s.shared).act .take =
      t.shared → Enacts s t := fun h => Enacts.after_calls (d := .take) trivial h
  unfold wp
  dsimp only
  generalize (Clients.others s.world).1.foldl Shared.apply s.shared = sh at hact ⊢
  simp only [Shared.act] at hact
  cases hq : popMin sh.queue with
  | none =>
      rw [hq] at hact
      exact hact rfl
  | some r =>
      rw [hq] at hact
      exact hact rfl

/-- **A pass is a list of proper deeds**, however it ends. -/
theorem enacts_pass : PassClosed (W := W) Enacts where
  toStepClosed := enacts_closed
  claim := enacts_claim
  resolve := enacts_resolve
  pop := enacts_pop
  setHead _ _ := Enacts.of_eq rfl

end Enacts

/-! ## The futures between two deeds -/

/-- A future has an outcome exactly if it is finished, and an error is an `AisgError`. -/
structure Future.Sane (f : Future) : Prop where
  outcome : f.outcome.isSome = true ↔ f.state = .finished
  aisg : ∀ e, f.outcome = some (.error e) → e.isAisg = true

/-- A new future is sane. -/
theorem sane_new : Future.Sane {} := ⟨by decide, fun _ h => nomatch h⟩

/-- Only that future is written. -/
theorem setFuture_futures (sh : Shared) (m n : ℕ) (f : Future) :
    (sh.setFuture m f).futures n = if n = m then f else sh.futures n := rfl

/-- One future is written, in a way that `P` allows. -/
theorem setFuture_each {P : Future → Future → Prop} {sh : Shared} {m : ℕ} {f : Future}
    (hrefl : ∀ g, P g g) (h : P (sh.futures m) f) (n : ℕ) :
    P (sh.futures n) ((sh.setFuture m f).futures n) := by
  rw [setFuture_futures]
  split_ifs with hn
  · rwa [hn]
  · exact hrefl _

/-- **What a deed does to a future** that there is: what `P` allows of the four transitions. -/
theorem act_each {P : Future → Future → Prop} {sh : Shared} {d : Deed} (hrefl : ∀ f, P f f)
    (hcancel : ∀ f, f.state = .pending → P f { f with state := .cancelled })
    (hclaim : ∀ f, f.state = .pending → P f { f with state := .running })
    (hnotify : ∀ f, f.state = .cancelled → P f { f with state := .notified })
    (hresolve : ∀ f o m, d = .resolve m o → f.done = false →
      P f { state := .finished, outcome := some o, resolved := f.resolved + 1 })
    {n : ℕ} (hn : n < sh.nextSeq) : P (sh.futures n) ((sh.act d).futures n) := by
  cases d with
  | call c =>
      cases c with
      | submit name args priority now linkWait =>
          have hold : (sh.act (.call (.submit name args priority now linkWait))).futures n =
              sh.futures n := if_neg (Nat.ne_of_lt hn)
          rw [hold]
          exact hrefl _
      | cancel m =>
          refine setFuture_each hrefl ?_ n
          cases hst : (sh.futures m).state with
          | pending =>
              simp only [Future.cancel, hst]
              exact hcancel _ hst
          | running | cancelled | notified | finished =>
              simp only [Future.cancel, hst]
              exact hrefl _
      | lease now seconds => exact hrefl _
      | unlease => exact hrefl _
      | stop => exact hrefl _
  | take =>
      simp only [Shared.act]
      cases popMin sh.queue with
      | none => exact hrefl _
      | some r => exact hrefl _
  | claim m =>
      cases hst : (sh.futures m).state with
      | pending =>
          simp only [Shared.act, hst]
          exact setFuture_each hrefl (hclaim _ hst) n
      | cancelled =>
          simp only [Shared.act, hst]
          exact setFuture_each hrefl (hnotify _ hst) n
      | running | notified | finished =>
          simp only [Shared.act, hst]
          exact hrefl _
  | resolve m o =>
      cases hst : (sh.futures m).state with
      | pending | running =>
          simp only [Shared.act, hst]
          exact setFuture_each hrefl (hresolve _ o m rfl (by simp [Future.done, hst])) n
      | cancelled | notified | finished =>
          simp only [Shared.act, hst]
          exact hrefl _

/-- A future that is done stays done, with its outcome. -/
theorem act_done {sh : Shared} {n : ℕ} (d : Deed) (hn : n < sh.nextSeq)
    (h : (sh.futures n).done = true) :
    ((sh.act d).futures n).done = true ∧
      ((sh.act d).futures n).outcome = (sh.futures n).outcome := by
  refine act_each (P := fun f g => f.done = true → g.done = true ∧ g.outcome = f.outcome)
    (fun f hf => ⟨hf, rfl⟩) (fun f _ hf => ⟨rfl, rfl⟩) (fun f hst hf => ?_)
    (fun f _ hf => ⟨rfl, rfl⟩) (fun f o m _ hdone hf => ?_) hn h
  · rw [Future.done, hst] at hf
    cases hf
  · rw [hdone] at hf
    cases hf

/-- A sane future stays sane. -/
theorem act_sane {sh : Shared} {n : ℕ} {d : Deed} (hd : d.Proper) (hn : n < sh.nextSeq)
    (h : (sh.futures n).Sane) : ((sh.act d).futures n).Sane := by
  have hnot : ∀ {f : Future} {state : FutureState}, f.Sane → f.state ≠ .finished →
      state ≠ .finished → Future.Sane { f with state := state } := fun hf hst hnew =>
    ⟨iff_of_false (fun h => hst (hf.outcome.1 h)) hnew, hf.aisg⟩
  refine act_each (P := fun f g => f.Sane → g.Sane) (fun f hf => hf)
    (fun f hst hf => hnot hf (by rw [hst]; decide) (by decide))
    (fun f hst hf => hnot hf (by rw [hst]; decide) (by decide))
    (fun f hst hf => hnot hf (by rw [hst]; decide) (by decide)) (fun f o m ho _ _ => ?_) hn h
  refine ⟨iff_of_true rfl rfl, fun e he => ?_⟩
  cases he
  subst ho
  exact hd

/-- Numbers are given out in order, to new futures. -/
theorem act_next (sh : Shared) (d : Deed) : (sh.act d).nextSeq = sh.nextSeq ∨
    (sh.act d).nextSeq = sh.nextSeq + 1 ∧ (sh.act d).futures sh.nextSeq = {} := by
  cases d with
  | call c =>
      cases c with
      | submit name args priority now linkWait => exact Or.inr ⟨rfl, if_pos rfl⟩
      | lease now seconds => exact Or.inl rfl
      | unlease => exact Or.inl rfl
      | stop => exact Or.inl rfl
      | cancel m => exact Or.inl rfl
  | take =>
      simp only [Shared.act]
      cases popMin sh.queue with
      | none => exact Or.inl rfl
      | some r => exact Or.inl rfl
  | claim m =>
      simp only [Shared.act]
      cases (sh.futures m).state <;> exact Or.inl rfl
  | resolve m o =>
      simp only [Shared.act]
      cases (sh.futures m).state <;> exact Or.inl rfl

/-- Numbers only grow. -/
theorem act_next_le (sh : Shared) (d : Deed) : sh.nextSeq ≤ (sh.act d).nextSeq := by
  rcases act_next sh d with h | ⟨h, -⟩ <;> omega

/-- No number is given out twice. -/
theorem Enacts.next_le {W : Type} {s t : St W} (h : Enacts s t) :
    s.shared.nextSeq ≤ t.shared.nextSeq := by
  obtain ⟨ds, -, ht⟩ := h
  rw [← ht]
  clear ht
  generalize s.shared = sh
  induction ds generalizing sh with
  | nil => exact Nat.le_refl _
  | cons d ds ih => exact (act_next_le sh d).trans (ih (sh.act d))

end OpenAisg.Session
