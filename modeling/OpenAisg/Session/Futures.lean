import OpenAisg.Session.Walk

/-!
# The life of a future

A future is waiting, claimed or ended, and `Tracked` says which of the three each
submitted command is in: the commands of the queue and the one the worker holds are
waiting, at most one is claimed, and all others have ended with one result.

* `Future.Waiting`, `Future.Claimed`, `Future.Ended` — the three, of one future.  A
  client may cancel it in the first; afterwards `cancel` does nothing.
* `Tracked` — the invariant over all of them.
* `Tracked.apply` — what other threads do keeps this.
* `Tracked.perm`, `Tracked.leave`, `Tracked.resolve` — the worker moves a command on.
* `Aside`, `aside_closed` — everything else the worker does leaves the futures to the
  others.
* `wp_claim`, `wp_resolve`, `wp_abandon`, `wp_pop` — the same as rules for the methods.
-/

namespace OpenAisg.Session

open Hdlc Link Retap Prog

variable {W : Type}

/-! ## One future -/

/-- Not claimed, so `set_running_or_notify_cancel` does not raise. -/
def Future.Waiting (f : Future) : Prop :=
  (f.state = .pending ∨ f.state = .cancelled) ∧ f.resolved = 0

/-- Claimed, and its caller is waiting for the result. -/
def Future.Claimed (f : Future) : Prop := f.state = .running ∧ f.resolved = 0

/-- Done: resolved once, or cancelled by its caller before it was claimed. -/
def Future.Ended (f : Future) : Prop :=
  (f.state = .finished ∧ f.resolved = 1) ∨ (f.state = .notified ∧ f.resolved = 0)

/-- What has ended is done. -/
theorem Future.Ended.done {f : Future} (h : f.Ended) : f.done = true := by
  rcases h with ⟨h, -⟩ | ⟨h, -⟩ <;> simp [Future.done, h]

/-- Cancelled, it still waits to be taken and thrown away. -/
theorem Future.Waiting.cancel {f : Future} (h : f.Waiting) : f.cancel.Waiting := by
  obtain ⟨hs | hs, hr⟩ := h
  · simp [Future.cancel, hs, Future.Waiting, hr]
  · simp [Future.cancel, hs, Future.Waiting, hr]

/-- A running future cannot be cancelled, -/
theorem Future.Claimed.cancel {f : Future} (h : f.Claimed) : f.cancel = f := by
  simp [Future.cancel, h.1]

/-- nor one that is done. -/
theorem Future.Ended.cancel {f : Future} (h : f.Ended) : f.cancel = f := by
  rcases h with ⟨h, -⟩ | ⟨h, -⟩ <;> simp [Future.cancel, h]

theorem Future.Waiting.not_claimed {f : Future} (h : f.Waiting) : ¬ f.Claimed := by
  rintro ⟨hr, -⟩
  rcases h.1 with h | h <;> rw [h] at hr <;> cases hr

/-! ## All futures -/

/-- Where each command is: `held` and the queue wait, those of `busy` are claimed, and
the rest have ended. -/
structure Tracked (held : List Command) (busy : List ℕ) (sh : Shared) : Prop where
  distinct : ((held ++ sh.queue).map Command.seq).Nodup
  bounded : ∀ c ∈ held ++ sh.queue, c.seq < sh.nextSeq
  waiting : ∀ c ∈ held ++ sh.queue, (sh.futures c.seq).Waiting
  single : busy.Nodup
  claimed : ∀ n ∈ busy, n < sh.nextSeq ∧ (sh.futures n).Claimed
  ended : ∀ n < sh.nextSeq, n ∉ (held ++ sh.queue).map Command.seq → n ∉ busy →
    (sh.futures n).Ended

namespace Tracked

variable {held : List Command} {busy : List ℕ} {sh : Shared}

theorem init : Tracked [] [] {} where
  distinct := List.nodup_nil
  bounded _ h := nomatch h
  waiting _ h := nomatch h
  single := List.nodup_nil
  claimed _ h := nomatch h
  ended n h := absurd h (Nat.not_lt_zero n)

/-- A claimed command is not one of those that wait. -/
theorem not_mem_of_busy {n : ℕ} (h : Tracked held busy sh) (hb : n ∈ busy) :
    n ∉ (held ++ sh.queue).map Command.seq := by
  intro hn
  obtain ⟨c, hc, rfl⟩ := List.mem_map.1 hn
  exact (h.waiting c hc).not_claimed (h.claimed c.seq hb).2

/-- A new command waits behind the others. -/
theorem submit (h : Tracked held busy sh) (name : CommandName) (args : List (String × PyVal))
    (priority : ℕ) (now linkWait : Time) :
    Tracked held busy (sh.apply (.submit name args priority now linkWait)) := by
  have hold : ∀ n < sh.nextSeq, (sh.apply (.submit name args priority now linkWait)).futures n =
      sh.futures n := fun n hn => if_neg (Nat.ne_of_lt hn)
  have hq : ∀ c, c ∈ held ++ (sh.apply (.submit name args priority now linkWait)).queue →
      c ∈ held ++ sh.queue ∨ c.seq = sh.nextSeq := by
    intro c hc
    simp only [Shared.apply, ← List.append_assoc, List.mem_append (s := held ++ sh.queue)] at hc
    exact hc.imp id fun hc => by rw [List.mem_singleton.1 hc]
  refine ⟨?_, fun c hc => ?_, fun c hc => ?_, h.single, fun n hn => ?_, fun n hn hnot hb => ?_⟩
  · simp only [Shared.apply, ← List.append_assoc, List.map_append, List.map_cons, List.map_nil]
    refine List.Nodup.append (by simpa using h.distinct) (List.nodup_singleton _) ?_
    intro n hn hn'
    rw [List.mem_singleton.1 hn', ← List.map_append] at hn
    obtain ⟨c, hc, hcn⟩ := List.mem_map.1 hn
    exact absurd hcn (Nat.ne_of_lt (h.bounded c hc))
  · show c.seq < sh.nextSeq + 1
    rcases hq c hc with hc | hc
    · exact Nat.lt_succ_of_lt (h.bounded c hc)
    · omega
  · rcases hq c hc with hc | hc
    · rw [hold _ (h.bounded c hc)]
      exact h.waiting c hc
    · have hnew : (sh.apply (.submit name args priority now linkWait)).futures c.seq = {} :=
        if_pos hc
      rw [hnew]
      exact ⟨Or.inl rfl, rfl⟩
  · obtain ⟨hlt, hc⟩ := h.claimed n hn
    exact ⟨Nat.lt_succ_of_lt hlt, by rw [hold n hlt]; exact hc⟩
  · simp only [Shared.apply, ← List.append_assoc, List.map_append, List.mem_append, not_or,
      List.map_cons, List.map_nil, List.mem_singleton] at hnot
    have hlt : n < sh.nextSeq := lt_of_le_of_ne (Nat.le_of_lt_succ hn) hnot.2
    rw [hold n hlt]
    exact h.ended n hlt (by simpa using hnot.1) hb

/-- A client cancels a command. -/
theorem cancel (h : Tracked held busy sh) (seq : ℕ) :
    Tracked held busy (sh.apply (.cancel seq)) := by
  have hf : ∀ n, (sh.apply (.cancel seq)).futures n = sh.futures n ∨
      (sh.apply (.cancel seq)).futures n = (sh.futures n).cancel := by
    intro n
    by_cases hn : n = seq
    · subst hn
      exact Or.inr (if_pos rfl)
    · exact Or.inl (if_neg hn)
  refine ⟨h.distinct, h.bounded, fun c hc => ?_, h.single, fun n hn => ?_, fun n hn hnot hb => ?_⟩
  · rcases hf c.seq with he | he <;> rw [he]
    · exact h.waiting c hc
    · exact (h.waiting c hc).cancel
  · obtain ⟨hlt, hc⟩ := h.claimed n hn
    refine ⟨hlt, ?_⟩
    rcases hf n with he | he <;> rw [he]
    · exact hc
    · rwa [hc.cancel]
  · have he := h.ended n hn hnot hb
    rcases hf n with hf | hf <;> rw [hf]
    · exact he
    · rwa [he.cancel]

/-- What another thread does. -/
theorem apply (h : Tracked held busy sh) (c : ClientCall) : Tracked held busy (sh.apply c) := by
  cases c with
  | submit name args priority now linkWait => exact h.submit name args priority now linkWait
  | cancel seq => exact h.cancel seq
  | lease now seconds => exact ⟨h.distinct, h.bounded, h.waiting, h.single, h.claimed, h.ended⟩
  | unlease => exact ⟨h.distinct, h.bounded, h.waiting, h.single, h.claimed, h.ended⟩
  | stop => exact ⟨h.distinct, h.bounded, h.waiting, h.single, h.claimed, h.ended⟩

/-- What the other threads do between two accesses of the worker. -/
theorem calls (cs : List ClientCall) (h : Tracked held busy sh) :
    Tracked held busy (cs.foldl Shared.apply sh) := by
  induction cs generalizing sh with
  | nil => exact h
  | cons c cs ih => exact ih (h.apply c)

/-- The same commands wait, in another order. -/
theorem perm {held' : List Command} {q : List Command} (h : Tracked held busy sh)
    (hp : (held' ++ q).Perm (held ++ sh.queue)) : Tracked held' busy { sh with queue := q } where
  distinct := (hp.map _).nodup_iff.2 h.distinct
  bounded c hc := h.bounded c (hp.mem_iff.1 hc)
  waiting c hc := h.waiting c (hp.mem_iff.1 hc)
  single := h.single
  claimed := h.claimed
  ended n hn hnot := h.ended n hn fun hm => hnot ((hp.map _).mem_iff.2 hm)

/-- A held command leaves the waiting ones, claimed or at its end. -/
theorem leave {c : Command} {f : Future} {busy' : List ℕ} (h : Tracked (c :: held) busy sh)
    (hf : f.Claimed ∧ busy' = c.seq :: busy ∨ f.Ended ∧ busy' = busy) :
    Tracked held busy' (sh.setFuture c.seq f) := by
  have hmem : ∀ d ∈ held ++ sh.queue, d ∈ c :: held ++ sh.queue := fun d hd =>
    List.mem_cons_of_mem _ hd
  have hdistinct : c.seq ∉ (held ++ sh.queue).map Command.seq ∧
      ((held ++ sh.queue).map Command.seq).Nodup := List.nodup_cons.1 h.distinct
  have hother : ∀ n, n ≠ c.seq → (sh.setFuture c.seq f).futures n = sh.futures n :=
    fun n hn => if_neg hn
  have hself : (sh.setFuture c.seq f).futures c.seq = f := if_pos rfl
  have hc : c.seq < sh.nextSeq := h.bounded c (List.mem_cons_self ..)
  have hidle : c.seq ∉ busy := fun hb => h.not_mem_of_busy hb (List.mem_cons_self ..)
  refine ⟨hdistinct.2, fun d hd => h.bounded d (hmem d hd), fun d hd => ?_, ?_, fun n hn => ?_,
    fun n hn hnot hb => ?_⟩
  · rw [hother]
    · exact h.waiting d (hmem d hd)
    · exact fun he => hdistinct.1 (he ▸ List.mem_map_of_mem hd)
  · rcases hf with ⟨-, rfl⟩ | ⟨-, rfl⟩
    · exact List.nodup_cons.2 ⟨hidle, h.single⟩
    · exact h.single
  · by_cases hnc : n = c.seq
    · subst hnc
      rcases hf with ⟨hf, -⟩ | ⟨-, rfl⟩
      · exact ⟨hc, by rwa [hself]⟩
      · exact absurd hn hidle
    · rw [hother n hnc]
      rcases hf with ⟨-, rfl⟩ | ⟨-, rfl⟩
      · exact h.claimed n ((List.mem_cons.1 hn).resolve_left hnc)
      · exact h.claimed n hn
  · by_cases hnc : n = c.seq
    · subst hnc
      rcases hf with ⟨-, rfl⟩ | ⟨hf, -⟩
      · exact absurd (List.mem_cons_self ..) hb
      · rwa [hself]
    · rw [hother n hnc]
      refine h.ended n hn (fun hm => ?_) fun hb' => hb ?_
      · rw [List.cons_append, List.map_cons, List.mem_cons] at hm
        exact hm.elim hnc hnot
      · rcases hf with ⟨-, rfl⟩ | ⟨-, rfl⟩
        · exact List.mem_cons_of_mem _ hb'
        · exact hb'

/-- A claimed command is resolved. -/
theorem resolve {n : ℕ} {f : Future} (h : Tracked held (n :: busy) sh) (hf : f.Ended) :
    Tracked held busy (sh.setFuture n f) := by
  have hother : ∀ m, m ≠ n → (sh.setFuture n f).futures m = sh.futures m := fun m hm => if_neg hm
  have hsingle := List.nodup_cons.1 h.single
  refine ⟨h.distinct, h.bounded, fun c hc => ?_, hsingle.2, fun m hm => ?_, fun m hm hnot hb => ?_⟩
  · rw [hother]
    · exact h.waiting c hc
    · exact fun he => h.not_mem_of_busy (List.mem_cons_self ..) (he ▸ List.mem_map_of_mem hc)
  · rw [hother m fun he => hsingle.1 (he ▸ hm)]
    exact h.claimed m (List.mem_cons_of_mem _ hm)
  · by_cases hmn : m = n
    · subst hmn
      have hself : (sh.setFuture m f).futures m = f := if_pos rfl
      rwa [hself]
    · rw [hother m hmn]
      exact h.ended m hm hnot fun he => hb ((List.mem_cons.1 he).resolve_left hmn)

end Tracked

/-! ## What the worker does to them -/

/-- The futures and `head` are left to others. -/
structure Aside (s t : St W) : Prop where
  head : t.wk.head = s.wk.head
  tracked : ∀ held busy, Tracked held busy s.shared → Tracked held busy t.shared

instance : IsPreorder (St W) Aside where
  refl _ := ⟨rfl, fun _ _ h => h⟩
  trans _ _ _ h h' := ⟨h'.head.trans h.head, fun held busy hs =>
    h'.tracked held busy (h.tracked held busy hs)⟩

theorem Aside.of_eq {s t : St W} (h : t.wk.head = s.wk.head) (hs : t.shared = s.shared) :
    Aside s t :=
  ⟨h, fun _ _ ht => by rwa [hs]⟩

theorem aside_lift {a b : LinkSt W Worker} (h : b.user.head = a.user.head) : Lift Aside a b :=
  fun _ _ _ => Aside.of_eq h rfl

variable [Line W] [Clients W]

omit [Clients W] in
/-- The state machine has no step that resolves, claims or takes anything. -/
theorem aside_frames : FrameClosed (W := W) Aside where
  world _ _ := Aside.of_eq rfl rfl
  calls _ cs := ⟨rfl, fun _ _ h => h.calls cs⟩
  books _ _ h := Aside.of_eq h.head rfl
  stored _ _ _ := Aside.of_eq rfl rfl
  report _ _ := Aside.of_eq rfl rfl
  baseline _ _ := Aside.of_eq rfl rfl
  parked s := Aside.of_eq s.wk.drainIndications_head rfl
  wire _ _ _ := Aside.of_eq rfl rfl
  keepaliveTake addr vr f _ := moves_keepaliveTake (fun _ _ => aside_lift rfl)
    (fun _ _ _ => aside_lift rfl) (fun _ _ _ => aside_lift rfl)
    (fun _ _ => Aside.of_eq rfl rfl) addr vr f
  drainTake f := moves_drainTake (fun _ _ => aside_lift rfl) (fun _ _ _ => aside_lift rfl)
    (fun _ _ _ => aside_lift rfl) f
  log _ _ _ := Aside.of_eq rfl rfl
  link _ _ _ _ _ := Aside.of_eq rfl rfl
  iFrame _ _ _ _ := moves_onIFrame (fun _ _ => aside_lift rfl) (fun _ _ _ _ => aside_lift rfl)
    (fun _ _ _ => aside_lift rfl) fun _ _ => aside_lift rfl

omit [Clients W] in
theorem aside_closed : StepClosed (W := W) Aside where
  toBusClosed := (aside_frames).busClosed
  state _ _ _ := Aside.of_eq (Worker.setState_head _ _ _) rfl
  address _ _ _ := Aside.of_eq rfl rfl
  opened _ := Aside.of_eq rfl rfl
  closed _ := Aside.of_eq rfl rfl
  dropped _ := Aside.of_eq rfl rfl
  armed _ _ := Aside.of_eq rfl rfl

/-- The state after an operation that only the shared variables feel. -/
def Elsewhere (P : Shared → Prop) (s t : St W) : Prop :=
  ∃ w sh, t = { s with world := w, shared := sh } ∧ P sh

section Wp

variable {held : List Command} {busy : List ℕ} {E : Exn → St W → Prop} {S : St W → Prop} {s : St W}

omit [Line W] in
/-- `set_running_or_notify_cancel` on a future that waits. -/
theorem wp_claim {cmd : Command} (h : Tracked (cmd :: held) busy s.shared) :
    wp (claim cmd.seq) (fun claimed t => Elsewhere (fun sh =>
      if claimed = true then Tracked held (cmd.seq :: busy) sh else Tracked held busy sh) s t)
      E S s := by
  have hcalls := h.calls (Clients.others s.world).1
  have hwait := hcalls.waiting cmd (List.mem_cons_self ..)
  unfold claim
  rw [wp_bind, wp_shared]
  generalize (Clients.others s.world).1.foldl Shared.apply s.shared = sh at hcalls hwait ⊢
  obtain ⟨hs | hs, hr⟩ := hwait
  · rw [hs, wp_bind, wp_modify, wp_pure]
    exact ⟨_, _, rfl, hcalls.leave (Or.inl ⟨⟨rfl, hr⟩, rfl⟩)⟩
  · rw [hs, wp_bind, wp_modify, wp_pure]
    exact ⟨_, _, rfl, hcalls.leave (Or.inr ⟨Or.inr ⟨rfl, hr⟩, rfl⟩)⟩

omit [Line W] in
/-- `set_result` and `set_exception` on the claimed future. -/
theorem wp_resolve {n : ℕ} (h : Tracked held (n :: busy) s.shared) (o : Except Exn Result) :
    wp (resolve n o)
      (fun _ t => Elsewhere (fun sh => Tracked held busy sh ∧ (sh.futures n).Ended) s t) E S s := by
  have hcalls := h.calls (Clients.others s.world).1
  obtain ⟨-, hs, hr⟩ := hcalls.claimed n (List.mem_cons_self ..)
  unfold resolve
  rw [wp_bind, wp_shared]
  generalize (Clients.others s.world).1.foldl Shared.apply s.shared = sh at hcalls hs hr ⊢
  rw [hs, wp_modify]
  have hend : Future.Ended
      { state := .finished, outcome := some o, resolved := (sh.futures n).resolved + 1 } :=
    Or.inl ⟨rfl, by rw [hr]⟩
  refine ⟨_, _, rfl, hcalls.resolve hend, ?_⟩
  show Future.Ended (if n = n then _ else _)
  rwa [if_pos rfl]

omit [Line W] in
/-- `_abandon`: claimed and failed at once, unless its client has cancelled it. -/
theorem wp_abandon {cmd : Command} (h : Tracked (cmd :: held) busy s.shared) (e : Exn) :
    wp (abandon cmd e) (fun _ t => Elsewhere (Tracked held busy) s t) E S s := by
  unfold abandon
  rw [wp_bind]
  refine (wp_claim h).mono (fun claimed t ht => ?_) (fun _ _ h => h) fun _ h => h
  obtain ⟨w, sh, rfl, ht⟩ := ht
  cases claimed with
  | false => exact ⟨w, sh, rfl, by simpa using ht⟩
  | true =>
      refine (wp_resolve (s := { s with world := w, shared := sh })
        (by simpa using ht) _).mono (fun _ u hu => ?_) (fun _ _ h => h) fun _ h => h
      obtain ⟨w', sh', rfl, hu⟩ := hu
      exact ⟨w', sh', rfl, hu.1⟩

theorem foldl_min_mem (cs : List Command) (c : Command) :
    cs.foldl (fun m d => if d.before m then d else m) c ∈ c :: cs := by
  induction cs generalizing c with
  | nil => exact List.mem_singleton_self _
  | cons d cs ih =>
      rw [List.foldl_cons]
      rcases List.mem_cons.1 (ih (if d.before c then d else c)) with h | h
      · rw [h]
        split_ifs
        · exact List.mem_cons_of_mem _ (List.mem_cons_self ..)
        · exact List.mem_cons_self ..
      · exact List.mem_cons_of_mem _ (List.mem_cons_of_mem _ h)

/-- What is popped was in the queue. -/
theorem popMin_perm {q rest : List Command} {c : Command} (h : popMin q = some (c, rest)) :
    (c :: rest).Perm q := by
  cases q with
  | nil => cases h
  | cons d ds =>
      obtain ⟨rfl, rfl⟩ := Prod.mk.inj (Option.some.inj h)
      exact (List.perm_cons_erase (foldl_min_mem ds d)).symm

omit [Line W] in
/-- `get_nowait` moves a command from the queue to the worker. -/
theorem wp_pop (h : Tracked held busy s.shared) :
    wp pop (fun c t => Elsewhere (fun sh => Tracked (c.toList ++ held) busy sh) s t) E S s := by
  have hcalls := h.calls (Clients.others s.world).1
  unfold pop
  refine (wp_bind _ _).2 (wp_sync.2 ?_)
  unfold wp
  dsimp only
  generalize (Clients.others s.world).1.foldl Shared.apply s.shared = sh at hcalls ⊢
  cases hq : popMin sh.queue with
  | none => exact ⟨_, sh, rfl, hcalls⟩
  | some r =>
      refine ⟨_, _, rfl, hcalls.perm ?_⟩
      have hperm := (popMin_perm hq).append_left held
      exact (List.perm_middle.symm.trans hperm : (r.1 :: (held ++ r.2)).Perm _)

/-- `_take`: a command is moved from the queue to the worker, or none is. -/
theorem wp_take (cfg : Config) (h : Tracked held busy s.shared) :
    wp (take cfg) (fun c t => Elsewhere (fun sh => Tracked (c.toList ++ held) busy sh) s t)
      (fun _ t => t = s) S s := by
  unfold take
  rw [wp_bind, wp_self, wp_ite]
  refine ⟨fun _ => rfl, fun _ => ?_⟩
  rw [wp_bind]
  refine (wp_pop h).mono (fun c t ht => ?_) (fun _ _ h => h) fun _ h => h
  obtain ⟨w, sh, rfl, ht⟩ := ht
  cases c with
  | some c => exact ⟨w, sh, rfl, ht⟩
  | none =>
      rw [wp_bind, wp_pause]
      refine wp.mono (wp_pop ht) (fun c u hu => ?_) (fun _ _ h => h) fun _ h => h
      obtain ⟨w', sh', rfl, hu⟩ := hu
      exact ⟨w', sh', rfl, hu⟩

end Wp

end OpenAisg.Session
