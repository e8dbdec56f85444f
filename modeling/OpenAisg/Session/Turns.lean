import OpenAisg.Session.Resolution

/-!
# The order of answers

The queue is a `PriorityQueue`, and `run` takes the next command only when it is done with the
one it holds.  So the commands are answered in the order of the queue, whatever happens to the
link and whatever is submitted meanwhile.

* `popMin_least` — no command of the queue is before the one that is taken.
* `Lengthens` — what everything else leaves of the queue: more commands at its end.
  `lengthens_command` — it has every kind of step that a command can take, so nothing that is
  executed takes a command itself.
* `Turn` — what a pass does to the queue and `head`: at most one command is taken, and only if
  none is held.  `turn_of_pass` — every pass is a turn.
* `Gone`, `Behind` — where a command can be while another waits behind it.
* `Behind.turn`, `behind_run` — a turn keeps that, and so does a run.
* `answered_in_order` — when a command has left the queue, all that were before it are answered.
-/

namespace OpenAisg.Session

open Hdlc Link Retap Prog

/-! ## The smallest command -/

/-- Of two commands at most one is before the other. -/
theorem Command.before_asymm {a b : Command} (h : a.before b = true) : b.before a = false := by
  simp only [Command.before, Bool.or_eq_true, Bool.and_eq_true, decide_eq_true_eq] at h
  simp only [Command.before, Bool.or_eq_false_iff, Bool.and_eq_false_iff, decide_eq_false_iff_not]
  omega

/-- "Not before" is transitive. -/
theorem Command.not_before_trans {a b c : Command} (h : c.before b = false)
    (h' : b.before a = false) : c.before a = false := by
  simp only [Command.before, Bool.or_eq_false_iff, Bool.and_eq_false_iff, decide_eq_false_iff_not]
    at h h' ⊢
  omega

/-- The smallest of a list, as `min` finds it. -/
theorem foldl_min_least (cs : List Command) (c : Command) :
    ∀ d ∈ c :: cs, d.before (cs.foldl (fun m d => if d.before m then d else m) c) = false := by
  induction cs generalizing c with
  | nil =>
      intro d hd
      rw [List.mem_singleton.1 hd, List.foldl_nil]
      simp [Command.before]
  | cons e cs ih =>
      intro d hd
      rw [List.foldl_cons]
      by_cases he : e.before c = true
      · rw [if_pos he]
        rcases List.mem_cons.1 hd with rfl | hd
        · exact Command.not_before_trans (Command.before_asymm he) (ih e e (List.mem_cons_self ..))
        · exact ih e d hd
      · rw [if_neg he]
        rcases List.mem_cons.1 hd with rfl | hd
        · exact ih d d (List.mem_cons_self ..)
        · rcases List.mem_cons.1 hd with rfl | hd
          · exact Command.not_before_trans (by simpa using he) (ih c c (List.mem_cons_self ..))
          · exact ih c d (List.mem_cons_of_mem _ hd)

/-- No command of the queue is before the one that is taken. -/
theorem popMin_least {q rest : List Command} {c : Command} (h : popMin q = some (c, rest)) :
    ∀ d ∈ q, d.before c = false := by
  cases q with
  | nil => cases h
  | cons e es =>
      obtain ⟨rfl, -⟩ := Prod.mk.inj (Option.some.inj h)
      exact foldl_min_least es e

/-! ## What passes leave of the queue -/

variable {W : Type}

/-- More commands at the end of the queue. -/
structure More (sh sh' : Shared) (new : List Command) : Prop where
  queue : sh'.queue = sh.queue ++ new
  later : ∀ c ∈ new, sh.nextSeq ≤ c.seq
  next : sh.nextSeq ≤ sh'.nextSeq

theorem More.of_eq {sh sh' : Shared} (hq : sh'.queue = sh.queue) (hn : sh'.nextSeq = sh.nextSeq) :
    More sh sh' [] :=
  ⟨by rw [hq, List.append_nil], fun _ h => absurd h List.not_mem_nil, Nat.le_of_eq hn.symm⟩

/-- First these, then those. -/
theorem More.trans {a b c : Shared} {new new' : List Command} (h : More a b new)
    (h' : More b c new') : More a c (new ++ new') where
  queue := by rw [h'.queue, h.queue, List.append_assoc]
  later d hd := (List.mem_append.1 hd).elim (h.later d) fun hd => h.next.trans (h'.later d hd)
  next := h.next.trans h'.next

/-- What another thread does. -/
theorem More.apply (sh : Shared) (call : ClientCall) : ∃ new, More sh (sh.apply call) new := by
  cases call with
  | submit name args priority now linkWait =>
      refine ⟨_, rfl, fun c hc => ?_, Nat.le_succ _⟩
      rw [List.mem_singleton.1 hc]
  | lease now seconds => exact ⟨[], More.of_eq rfl rfl⟩
  | unlease => exact ⟨[], More.of_eq rfl rfl⟩
  | stop => exact ⟨[], More.of_eq rfl rfl⟩
  | cancel seq => exact ⟨[], More.of_eq rfl rfl⟩

/-- What the other threads do between two accesses of the worker. -/
theorem More.calls (sh : Shared) (cs : List ClientCall) :
    ∃ new, More sh (cs.foldl Shared.apply sh) new := by
  induction cs generalizing sh with
  | nil => exact ⟨[], More.of_eq rfl rfl⟩
  | cons c cs ih =>
      obtain ⟨new, h⟩ := More.apply sh c
      obtain ⟨new', h'⟩ := ih (sh.apply c)
      exact ⟨new ++ new', h.trans h'⟩

/-- `head` is kept and the queue grows. -/
structure Lengthens (s t : St W) : Prop where
  head : t.wk.head = s.wk.head
  more : ∃ new, More s.shared t.shared new

instance : IsPreorder (St W) Lengthens where
  refl s := ⟨rfl, [], More.of_eq rfl rfl⟩
  trans _ _ _ h h' := by
    obtain ⟨new, hm⟩ := h.more
    obtain ⟨new', hm'⟩ := h'.more
    exact ⟨h'.head.trans h.head, new ++ new', hm.trans hm'⟩

theorem Lengthens.of_eq {s t : St W} (h : t.wk.head = s.wk.head) (hs : t.shared = s.shared) :
    Lengthens s t :=
  ⟨h, [], More.of_eq (by rw [hs]) (by rw [hs])⟩

theorem lengthens_lift {a b : LinkSt W Worker} (h : b.user.head = a.user.head) :
    Lift Lengthens a b :=
  fun _ _ _ => Lengthens.of_eq h rfl

variable [Line W] [Clients W]

omit [Clients W] in
/-- The state machine leaves the queue to the other threads. -/
theorem lengthens_frames : FrameClosed (W := W) Lengthens where
  world _ _ := Lengthens.of_eq rfl rfl
  calls s cs := ⟨rfl, More.calls s.shared cs⟩
  books _ _ h := Lengthens.of_eq h.head rfl
  stored _ _ _ := Lengthens.of_eq rfl rfl
  report _ _ := Lengthens.of_eq rfl rfl
  baseline _ _ := Lengthens.of_eq rfl rfl
  parked s := Lengthens.of_eq s.wk.drainIndications_head rfl
  wire _ _ _ := Lengthens.of_eq rfl rfl
  keepaliveTake addr vr f _ := moves_keepaliveTake (fun _ _ => lengthens_lift rfl)
    (fun _ _ _ => lengthens_lift rfl) (fun _ _ _ => lengthens_lift rfl)
    (fun _ _ => Lengthens.of_eq rfl rfl) addr vr f
  drainTake f := moves_drainTake (fun _ _ => lengthens_lift rfl) (fun _ _ _ => lengthens_lift rfl)
    (fun _ _ _ => lengthens_lift rfl) f
  log _ _ _ := Lengthens.of_eq rfl rfl
  link _ _ _ _ _ := Lengthens.of_eq rfl rfl
  iFrame _ _ _ _ := moves_onIFrame (fun _ _ => lengthens_lift rfl)
    (fun _ _ _ _ => lengthens_lift rfl) (fun _ _ _ => lengthens_lift rfl)
    fun _ _ => lengthens_lift rfl

omit [Clients W] in
theorem lengthens_closed : StepClosed (W := W) Lengthens where
  toBusClosed := (lengthens_frames).busClosed
  state _ _ _ := Lengthens.of_eq (Worker.setState_head _ _ _) rfl
  address _ _ _ := Lengthens.of_eq rfl rfl
  opened _ := Lengthens.of_eq rfl rfl
  closed _ := Lengthens.of_eq rfl rfl
  dropped _ := Lengthens.of_eq rfl rfl
  armed _ _ := Lengthens.of_eq rfl rfl

omit [Line W] [Clients W] in
/-- Only a future is written. -/
theorem lengthens_future (s : St W) (n : ℕ) (f : Future) :
    Lengthens s { s with shared := s.shared.setFuture n f } := ⟨rfl, [], More.of_eq rfl rfl⟩

/-- Whatever a command does, it takes no other. -/
theorem lengthens_command : CommandClosed (W := W) Lengthens where
  toStepClosed := lengthens_closed
  claim := (lengthens_closed).claim lengthens_future
  resolve seq o _ := (lengthens_closed).resolve lengthens_future seq o

/-! ## A pass -/

/-- What a pass does to the queue and `head`: at most one command is taken, and only if none is
held. -/
structure Turn (s t : St W) : Prop where
  next : s.shared.nextSeq ≤ t.shared.nextSeq
  moved : (∃ new, More s.shared t.shared new ∧ (t.wk.head = s.wk.head ∨ t.wk.head = none)) ∨
    s.wk.head = none ∧ ∃ q c rest new, (∃ more, q = s.shared.queue ++ more ∧
      ∀ d ∈ more, s.shared.nextSeq ≤ d.seq) ∧ popMin q = some (c, rest) ∧
      t.shared.queue = rest ++ new ∧ (∀ d ∈ new, s.shared.nextSeq ≤ d.seq) ∧
      (t.wk.head = some c ∨ t.wk.head = none)

omit [Line W] [Clients W] in
/-- A pass may also take nothing. -/
theorem Turn.of_lengthens {s t : St W} (h : Lengthens s t) : Turn s t := by
  obtain ⟨new, hm⟩ := h.more
  exact ⟨hm.next, Or.inl ⟨new, hm, Or.inl h.head⟩⟩

omit [Line W] [Clients W] in
/-- Nothing is taken afterwards. -/
theorem Turn.lengthens {s t u : St W} (h : Turn s t) (h' : Lengthens t u) : Turn s u := by
  obtain ⟨new', hm'⟩ := h'.more
  refine ⟨h.next.trans hm'.next, ?_⟩
  rcases h.moved with ⟨new, hm, hh⟩ | ⟨hnone, q, c, rest, new, hq, hpop, ht, hnew, hh⟩
  · exact Or.inl ⟨new ++ new', hm.trans hm', by rwa [h'.head]⟩
  · refine Or.inr ⟨hnone, q, c, rest, new ++ new', hq, hpop, ?_, fun d hd => ?_, by rwa [h'.head]⟩
    · rw [hm'.queue, ht, List.append_assoc]
    · exact (List.mem_append.1 hd).elim (hnew d) fun hd => h.next.trans (hm'.later d hd)

omit [Line W] [Clients W] in
/-- The worker is done with its command. -/
theorem Turn.done {s t : St W} (h : Turn s t) :
    Turn s { t with wk := { t.wk with head := none } } := by
  refine ⟨h.next, ?_⟩
  rcases h.moved with ⟨new, hm, -⟩ | ⟨hnone, q, c, rest, new, hq, hpop, ht, hnew, -⟩
  · exact Or.inl ⟨new, hm, Or.inr rfl⟩
  · exact Or.inr ⟨hnone, q, c, rest, new, hq, hpop, ht, hnew, Or.inr rfl⟩

omit [Line W] [Clients W] in
/-- A program that takes nothing, somewhere in a pass. -/
theorem Turn.wp {α : Type} {s t : St W} {c : WorkerProg W α} (h : Turn s t)
    (hc : Moves Lengthens c) : wp c (fun _ u => Turn s u) (fun _ u => Turn s u) (fun _ => True) t :=
  (hc.wp t).mono (fun _ _ hu => h.lengthens hu) (fun _ _ hu => h.lengthens hu) fun _ _ => trivial

omit [Line W] in
/-- `get_nowait`, after the other threads had their turn. -/
theorem wp_pop_turn {s t : St W} (h : Lengthens s t) (hh : s.wk.head = none) {E : Exn → St W → Prop}
    {S : St W → Prop} :
    wp pop (fun c u => u.wk = t.wk ∧ match c with
      | none => Lengthens s u
      | some c => Turn s { u with wk := { u.wk with head := some c } }) E S t := by
  obtain ⟨new, hm⟩ := More.calls t.shared (Clients.others t.world).1
  have hg : ∀ w, Lengthens s { t with
      world := w, shared := (Clients.others t.world).1.foldl Shared.apply t.shared } := fun w =>
    IsTrans.trans _ _ _ h ⟨rfl, new, hm⟩
  unfold pop
  refine (wp_bind _ _).2 (wp_sync.2 ?_)
  unfold Prog.wp
  dsimp only
  generalize (Clients.others t.world).1.foldl Shared.apply t.shared = sh at hg ⊢
  cases hq : popMin sh.queue with
  | none => exact ⟨rfl, hg _⟩
  | some r =>
      obtain ⟨more, hmore⟩ := (hg (Clients.others t.world).2).more
      exact ⟨rfl, hmore.next, Or.inr ⟨hh, sh.queue, r.1, r.2, [], ⟨more, hmore.queue, hmore.later⟩,
        hq, (List.append_nil _).symm, fun _ hd => absurd hd List.not_mem_nil, Or.inl rfl⟩⟩

/-- The pass that holds no command takes one, or waits in vain. -/
theorem wp_take_turn (cfg : Config) {s t : St W} (h : Lengthens s t) (hh : s.wk.head = none) :
    wp (take cfg) (fun c u => Turn s { u with wk := { u.wk with head := c } })
      (fun _ u => Turn s u) (fun _ => True) t := by
  have hnone : ∀ u : St W, Lengthens s u → Turn s { u with wk := { u.wk with head := none } } :=
    fun u hu => (Turn.of_lengthens hu).done
  unfold take
  rw [wp_bind, wp_self, wp_ite]
  refine ⟨fun _ => Turn.of_lengthens h, fun _ => ?_⟩
  rw [wp_bind]
  refine (wp_pop_turn h hh).mono (fun c u hu => ?_) (fun _ _ h => h) fun _ h => h
  cases c with
  | some c => exact hu.2
  | none =>
      rw [wp_bind, wp_pause]
      have hpause : Lengthens s
          { u with world := Line.sleep (tickBudget cfg t.wk.state) u.world } :=
        IsTrans.trans _ _ _ hu.2 (lengthens_closed.world _ _)
      refine Prog.wp.mono (wp_pop_turn hpause hh) (fun c v hv => ?_) (fun _ _ h => h) fun _ h => h
      cases c with
      | some c => exact hv.2
      | none => exact hnone v hv.2

/-- The first half of a pass is where a command can be taken. -/
theorem wp_dispatch_turn (cfg : Config) {s t : St W} (h : Lengthens s t) :
    wp (dispatch cfg) (fun _ u => Turn s u) (fun _ u => Turn s u) (fun _ => True) t := by
  unfold dispatch
  rw [wp_bind]
  refine (lengthens_closed.refreshLease.wp t).mono (fun _ u hu => ?_)
    (fun _ u hu => (Turn.of_lengthens h).lengthens hu) fun _ _ => trivial
  have hg : Lengthens s u := IsTrans.trans _ _ _ h hu
  rw [wp_bind, wp_self, wp_bind]
  have htake : wp (onlyIf u.wk.head.isNone do
      let c ← take cfg
      setHead c : WorkerProg W Unit) (fun _ v => Turn s v) (fun _ v => Turn s v) (fun _ => True)
      u := by
    rw [wp_onlyIf]
    refine ⟨fun hnone => ?_, fun _ => Turn.of_lengthens hg⟩
    have hs : s.wk.head = none := by
      rw [← hg.head]
      simpa using hnone
    rw [wp_bind]
    exact (wp_take_turn cfg hg hs).mono (fun c v hv => hv) (fun _ _ h => h) fun _ h => h
  refine htake.mono (fun _ v hv => ?_) (fun _ _ h => h) fun _ h => h
  rw [wp_bind, wp_self]
  cases v.wk.head with
  | none => exact hv
  | some cmd => exact hv.wp (lengthens_command.attempt cmd)

/-- The second half takes none, and may be done with the one that is held. -/
theorem wp_finish_turn (cfg : Config) (v : Verdict) {s t : St W} (h : Turn s t) :
    wp (finish cfg v) (fun _ u => Turn s u) (fun _ u => Turn s u) (fun _ => True) t := by
  cases v with
  | execute cmd =>
      show wp (execute cfg cmd >>= fun _ => setHead none) _ _ _ t
      rw [wp_bind]
      exact (h.wp (lengthens_command.execute cfg cmd)).mono (fun _ u hu => hu.done) (fun _ _ h => h)
        fun _ h => h
  | finished => exact h.done
  | goOn => exact h.wp (lengthens_closed.step cfg)

/-- A pass that comes back to the head of the loop. -/
theorem turn_of_pass {cfg : Config} {s t : St W} (hp : Pass cfg s t) : Turn s t := by
  have hbegun : Lengthens s (begun s) := ⟨rfl, More.calls s.shared _⟩
  have hwp : wp (runPass cfg) (fun b u => b = true → Turn s u) (fun _ _ => True)
      (fun _ => True) s := by
    refine wp_pass (E := Turn s) (fun _ => wp_dispatch_turn cfg hbegun)
      (fun v u hu => wp_finish_turn cfg v hu) fun u hu => ?_
    exact (hu.wp (lengthens_closed).lastResort).mono (fun _ _ h => h) (fun _ _ _ => trivial)
      fun _ h => h
  unfold wp at hwp
  rw [hp] at hwp
  exact hwp rfl

/-! ## Whole runs -/

/-- The command has left the queue, and the worker is done with it. -/
def Gone (a : Command) (t : St W) : Prop :=
  a.seq < t.shared.nextSeq ∧ (∀ c ∈ t.shared.queue, c.seq ≠ a.seq) ∧
    ∀ c ∈ t.wk.head, c.seq ≠ a.seq

/-- Where `a` is while `b` waits behind it. -/
def Behind (a b : Command) (t : St W) : Prop :=
  b ∈ t.shared.queue ∧ (a ∈ t.shared.queue ∨ t.wk.head = some a) ∨ Gone a t

/-- No two commands that wait or are held have one number. -/
structure Apart (t : St W) : Prop where
  distinct : (t.shared.queue.map Command.seq).Nodup
  held : ∀ c ∈ t.wk.head, ∀ d ∈ t.shared.queue, d.seq ≠ c.seq
  bounded : ∀ c ∈ t.wk.head.toList ++ t.shared.queue, c.seq < t.shared.nextSeq

/-- At every head the numbers are apart, since each is given out once. -/
theorem apart_head {cfg : Config} {w : W} {t : St W} (h : Head cfg w t) : Apart t := by
  rcases settled_or_stuck h with hs | ⟨cmd, hh, hs⟩
  · have hs : Tracked t.wk.head.toList [] t.shared := hs
    have hdistinct := hs.distinct
    rw [List.map_append, List.nodup_append] at hdistinct
    refine ⟨hdistinct.2.1, fun c hc d hd => ?_, hs.bounded⟩
    exact (hdistinct.2.2 c.seq (List.mem_map_of_mem (Option.mem_toList.2 hc)) d.seq
      (List.mem_map_of_mem hd)).symm
  · have hmem : cmd.seq ∈ [cmd.seq] := List.mem_singleton_self _
    refine ⟨hs.distinct, fun c hc d hd he => ?_, fun c hc => ?_⟩
    · rw [hh] at hc
      cases hc
      exact hs.not_mem_of_busy hmem (he ▸ List.mem_map_of_mem hd)
    · rw [hh] at hc
      rcases List.mem_cons.1 hc with rfl | hc
      · exact (hs.claimed _ hmem).1
      · exact hs.bounded c hc

omit [Line W] [Clients W] in
/-- What is done with stays so. -/
theorem Gone.turn {a : Command} {s t : St W} (h : Gone a s) (ht : Turn s t) : Gone a t := by
  obtain ⟨hlt, hq, hh⟩ := h
  refine ⟨Nat.lt_of_lt_of_le hlt ht.next, ?_⟩
  have hnew : ∀ d : Command, s.shared.nextSeq ≤ d.seq → d.seq ≠ a.seq := fun d hd => by omega
  rcases ht.moved with ⟨new, hm, hhead⟩ |
    ⟨-, q, c, rest, new, ⟨more, rfl, hmore⟩, hpop, hqueue, hlater, hhead⟩
  · refine ⟨fun c hc => ?_, fun c hc => ?_⟩
    · rw [hm.queue] at hc
      exact (List.mem_append.1 hc).elim (hq c) fun hc => hnew c (hm.later c hc)
    · rcases hhead with he | he
      · exact hh c (he ▸ hc)
      · rw [he] at hc
        cases hc
  · have hwas : ∀ d ∈ c :: rest, d.seq ≠ a.seq := by
      intro d hd
      exact (List.mem_append.1 ((popMin_perm hpop).subset hd)).elim (hq d) fun hd =>
        hnew d (hmore d hd)
    refine ⟨fun d hd => ?_, fun d hd => ?_⟩
    · rw [hqueue] at hd
      exact (List.mem_append.1 hd).elim (fun hd => hwas d (List.mem_cons_of_mem _ hd)) fun hd =>
        hnew d (hlater d hd)
    · rcases hhead with he | he
      · rw [he] at hd
        cases hd
        exact hwas c (List.mem_cons_self ..)
      · rw [he] at hd
        cases hd

/-- The number of the command that was taken is not in the rest of the queue. -/
theorem seq_notMem_rest {a : Command} {queue more rest : List Command}
    (h : (queue.map Command.seq).Nodup) (ha : a ∈ queue) (hmore : ∀ c ∈ more, a.seq < c.seq)
    (hp : (a :: rest).Perm (queue ++ more)) : a.seq ∉ rest.map Command.seq := by
  have hone : (queue.map Command.seq).count a.seq = 1 :=
    List.count_eq_one_of_mem h (List.mem_map_of_mem ha)
  have hnone : (more.map Command.seq).count a.seq = 0 := by
    refine List.count_eq_zero.2 fun hm => ?_
    obtain ⟨c, hc, hca⟩ := List.mem_map.1 hm
    exact absurd hca (Nat.ne_of_gt (hmore c hc))
  have hcount := (hp.map Command.seq).count_eq a.seq
  rw [List.map_append, List.count_append, hone, hnone, List.map_cons,
    List.count_cons_self] at hcount
  exact List.count_eq_zero.1 (by omega)

omit [Line W] [Clients W] in
/-- A command that waits does not overtake.  If the pass takes a command it is the smallest, so it
is `b` only when `a` has gone before. -/
theorem Behind.turn {a b : Command} {s t : St W} (h : Behind a b s) (hab : a.before b = true)
    (hs : Apart s) (ht : Turn s t) : Behind a b t := by
  rcases h with ⟨hb, ha⟩ | hgone
  swap
  · exact Or.inr (hgone.turn ht)
  have hlt : a.seq < s.shared.nextSeq := by
    rcases ha with ha | ha
    · exact hs.bounded a (List.mem_append_right _ ha)
    · exact hs.bounded a (List.mem_append_left _ (Option.mem_toList.2 ha))
  rcases ht.moved with ⟨new, hm, hhead⟩ |
    ⟨hnone, q, c, rest, new, ⟨more, rfl, hmore⟩, hpop, hqueue, hlater, hhead⟩
  · have hkeep : ∀ d ∈ s.shared.queue, d ∈ t.shared.queue := fun d hd => by
      rw [hm.queue]
      exact List.mem_append_left _ hd
    rcases ha with ha | ha
    · exact Or.inl ⟨hkeep b hb, Or.inl (hkeep a ha)⟩
    · rcases hhead with he | he
      · exact Or.inl ⟨hkeep b hb, Or.inr (he.trans ha)⟩
      · refine Or.inr ⟨Nat.lt_of_lt_of_le hlt ht.next, fun d hd => ?_, fun d hd => ?_⟩
        · rw [hm.queue] at hd
          rcases List.mem_append.1 hd with hd | hd
          · exact hs.held a ha d hd
          · have := hm.later d hd
            omega
        · rw [he] at hd
          cases hd
  · -- the one that is taken is not `b`, for `a` is before it
    have ha : a ∈ s.shared.queue := ha.resolve_right fun ha => by
      rw [hnone] at ha
      cases ha
    have hcb : c ≠ b := by
      rintro rfl
      have := popMin_least hpop a (List.mem_append_left _ ha)
      rw [hab] at this
      cases this
    have hrest : ∀ d ∈ s.shared.queue, d = c ∨ d ∈ t.shared.queue := by
      intro d hd
      rw [hqueue]
      have hmem := (popMin_perm hpop).symm.subset (List.mem_append_left more hd)
      exact (List.mem_cons.1 hmem).imp id fun hd => List.mem_append_left _ hd
    have hb' : b ∈ t.shared.queue := (hrest b hb).resolve_left fun he => hcb he.symm
    rcases hrest a ha with rfl | ha'
    · rcases hhead with he | he
      · exact Or.inl ⟨hb', Or.inr he⟩
      · refine Or.inr ⟨Nat.lt_of_lt_of_le hlt ht.next, fun d hd hda => ?_, fun d hd => ?_⟩
        · rw [hqueue] at hd
          rcases List.mem_append.1 hd with hd | hd
          · exact seq_notMem_rest hs.distinct ha (fun e he => Nat.lt_of_lt_of_le hlt (hmore e he))
              (popMin_perm hpop) (hda ▸ List.mem_map_of_mem hd)
          · have := hlater d hd
            omega
        · rw [he] at hd
          cases hd
    · exact Or.inl ⟨hb', Or.inl ha'⟩

/-- From one head to any later one, by induction on the passes between them. -/
theorem behind_run {cfg : Config} {w : W} {a b : Command} {s t : St W} (h : Head cfg w s)
    (hst : Relation.ReflTransGen (Pass cfg) s t) (ha : a ∈ s.shared.queue)
    (hb : b ∈ s.shared.queue) (hab : a.before b = true) : Behind a b t := by
  induction hst with
  | refl => exact Or.inl ⟨hb, Or.inl ha⟩
  | @tail t u hst hp ih => exact ih.turn hab (apart_head (h.trans hst)) (turn_of_pass hp)

/-- At a head, a command that is gone has been answered. -/
theorem Gone.ended {cfg : Config} {w : W} {a : Command} {t : St W} (h : Gone a t)
    (ht : Head cfg w t) : (t.shared.futures a.seq).Ended := by
  obtain ⟨hlt, hq, hh⟩ := h
  have hnot : a.seq ∉ t.shared.queue.map Command.seq := by
    intro hm
    obtain ⟨c, hc, hca⟩ := List.mem_map.1 hm
    exact hq c hc hca
  rcases settled_or_stuck ht with hs | ⟨cmd, hhead, hs⟩
  · refine @Tracked.ended t.wk.head.toList [] t.shared hs a.seq hlt (fun hm => ?_) List.not_mem_nil
    rw [List.map_append] at hm
    rcases List.mem_append.1 hm with hm | hm
    · obtain ⟨c, hc, hca⟩ := List.mem_map.1 hm
      exact hh c (Option.mem_toList.1 hc) hca
    · exact hnot hm
  · refine hs.ended a.seq hlt hnot fun hm => ?_
    exact hh cmd hhead (List.mem_singleton.1 hm).symm

/-- **Answers come in the order of the queue.**  For every behaviour of the bus and of the other
threads: when a command has left the queue, every command that waited with it and comes before it,
by priority and then by the order of submission, has been answered once, or had been cancelled. -/
theorem answered_in_order {cfg : Config} {w : W} {a b : Command} {s t : St W} (h : Head cfg w s)
    (hst : Relation.ReflTransGen (Pass cfg) s t) (ha : a ∈ s.shared.queue)
    (hb : b ∈ s.shared.queue) (hab : a.before b = true) (hleft : b ∉ t.shared.queue) :
    (t.shared.futures a.seq).Ended := by
  rcases behind_run h hst ha hb hab with ⟨hb', -⟩ | hgone
  · exact absurd hb' hleft
  · exact hgone.ended (h.trans hst)

/-- A client that asks for the tilt three times, the last time at once. -/
def asksThrice : Bench ClientCall :=
  { plan :=
    { answer := fun _ m => deviceAnswer [] m
      reply := fun _ => deviceReply
      calls := fun i => if i = 0 then
        [.submit .getTilt [] 5 0 (ms 20000), .submit .getTilt [] 5 0 (ms 20000),
          .submit .getTilt [] 0 0 (ms 20000)] else [] } }

/-- The head after the first connection: the last command is held, the others wait. -/
def threeAsked : St (Bench ClientCall) := runPasses attentive 1 (St.init asksThrice)

theorem answered_in_order_threeAsked :
    ((runPasses attentive 3 threeAsked).shared.futures 0).Ended := by
  have hhead : Head attentive asksThrice threeAsked := reaches_runPasses attentive 1 _
  have hwait : (⟨5, 0, .getTilt, [], ms 20000⟩ : Command) ∈ threeAsked.shared.queue ∧
      (⟨5, 1, .getTilt, [], ms 20000⟩ : Command) ∈ threeAsked.shared.queue ∧
      (⟨5, 1, .getTilt, [], ms 20000⟩ : Command) ∉
        (runPasses attentive 3 threeAsked).shared.queue := by
    decide +kernel
  obtain ⟨hfirst, hsecond, hleft⟩ := hwait
  have hended := answered_in_order hhead (reaches_runPasses attentive 3 threeAsked) hfirst hsecond
    (by decide) hleft
  simpa only using hended

end OpenAisg.Session
