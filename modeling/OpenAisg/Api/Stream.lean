import Mathlib.Algebra.GroupWithZero.Nat
import OpenAisg.Api.Events

/-!
# The event stream (`api/app.py`)

The WebSocket handler `events` runs between two awaits without a break; at each await the
publisher, and the other clients, may use the bus.

* `Pc`, `Conn`, `Conn.resume` — the handler, cut at its awaits.
* `Act`, `Conn.step` — what happens while it is suspended, or that it goes on.
* `Conn.Delivers` — the events sent have rising numbers, and every event after `since` was
  sent, is about to be, or is counted.
* `Conn.Fits` — the ring reaches back to `since` when the client subscribes, nothing newer is
  published while its first snapshot is being sent, and no event is dropped from its queue
  while a `resync` is being sent.
* `Served`, `Joining` — what the client has been sent and is still owed, once it is subscribed
  and while its first snapshot is being sent.
* `Conn.Inv`, `inv_step` — the invariant by the await that the handler is at, and that a step
  that fits keeps it.
* `runConn_delivers` — every run whose steps all fit delivers.
* `not_delivers_twice` — an event that comes in the moment the second condition is about.
-/

namespace OpenAisg.Api

variable {β σ : Type}

/-! ## The handler -/

/-- What goes over the socket; `σ` is what the worker's `snapshot()` returns. -/
inductive Message (β σ : Type) where
  | snapshot (ts : Option ℤ) (snap : σ)
  | resync (dropped : ℕ)
  | event (ev : Numbered β)
  deriving DecidableEq

/-- The await that the handler is suspended in, with the local variables that it needs
afterwards. -/
inductive Pc (β : Type) where
  /-- `ws.accept()` -/
  | accepting
  /-- The first snapshot is being sent. -/
  | snapshot
  /-- An event of the replay is being sent, before those of `rest`. -/
  | replaying (rest : List (Numbered β))
  /-- `sub.q.get()` -/
  | waiting
  /-- The `resync` before the event `ev` is being sent. -/
  | resync (ev : Numbered β)
  /-- The snapshot before the event `ev` is being sent. -/
  | resnap (ev : Numbered β)
  /-- An event of the queue is being sent. -/
  | sending
  /-- The handler has ended. -/
  | closed
  deriving DecidableEq

/-- A client: the bus, where its handler is, and what has been put on its socket. -/
structure Conn (β σ : Type) where
  run : Run β
  pc : Pc β := .accepting
  sent : List (Message β σ) := []

/-- What the handler reads when it goes on: the time and the state of the worker. -/
structure Reading (σ : Type) where
  now : ℤ
  snap : σ

/-- `sub.dropped = 0`. -/
def Run.clear (r : Run β) (sub : ℕ) : Run β :=
  { r with heap := Function.update r.heap sub ((r.heap sub).map fun s => { s with dropped := 0 }) }

namespace Conn

/-- `await ws.send_json(m)`, at the await `pc`. -/
def send (c : Conn β σ) (m : Message β σ) (pc : Pc β) : Conn β σ :=
  { c with sent := c.sent ++ [m], pc := pc }

/-- The body of `while True`, up to its first await that suspends it. -/
def loopHead (sub : ℕ) (c : Conn β σ) : Conn β σ :=
  match (c.run.heap sub).bind fun s => s.q.get.map fun p => (p.1, s.dropped) with
  | none => { c with pc := .waiting }
  | some (ev, dropped) =>
      let c := { c with run := c.run.step (.get sub) }
      if dropped ≠ 0 then c.send (.resync dropped) (.resync ev) else c.send (.event ev) .sending

/-- `for ev in …: await ws.send_json(ev)`, and then the loop. -/
def replayRest (sub : ℕ) (c : Conn β σ) : List (Numbered β) → Conn β σ
  | [] => c.loopHead sub
  | ev :: rest => c.send (.event ev) (.replaying rest)

/-- The handler goes on to its next await. -/
def resume (since sub : ℕ) (c : Conn β σ) (now : Reading σ) : Conn β σ :=
  match c.pc with
  | .accepting =>
      { c with run := c.run.step (.subscribe sub) }.send (.snapshot (some now.now) now.snap)
        .snapshot
  | .snapshot =>
      c.replayRest sub (if since ≠ 0 then c.run.bus.replaySince since else [])
  | .replaying rest => c.replayRest sub rest
  | .waiting => c.loopHead sub
  | .resync ev =>
      { c with run := c.run.clear sub }.send (.snapshot none now.snap) (.resnap ev)
  | .resnap ev => c.send (.event ev) .sending
  | .sending => c.loopHead sub
  | .closed => c

/-- An await raises: `finally: bus.unsubscribe(sub)`. -/
def fail (sub : ℕ) (c : Conn β σ) : Conn β σ :=
  match c.pc with
  | .accepting | .closed => { c with pc := .closed }
  | _ => { c with run := c.run.step (.unsubscribe sub), pc := .closed }

end Conn

/-- The operation is one of `sub`. -/
def Op.isOf (sub : ℕ) : Op β → Bool
  | .publish _ _ => false
  | .subscribe j | .unsubscribe j | .get j => decide (j = sub)

/-- What can happen next. -/
inductive Act (β σ : Type) where
  /-- The publisher or another client uses the bus. -/
  | bus (op : Op β)
  | resume (now : Reading σ)
  | fail

/-- One step; nobody else has the identity `sub` of this client's subscriber. -/
def Conn.step (since sub : ℕ) (c : Conn β σ) : Act β σ → Conn β σ
  | .bus op => if op.isOf sub then c else { c with run := c.run.step op }
  | .resume now => c.resume since sub now
  | .fail => c.fail sub

/-- A client that connects after `ops`. -/
def Conn.start (replay sub : ℕ) (ops : List (Op β)) : Conn β σ :=
  { run := Api.run replay (ops.filter fun op => !op.isOf sub) }

/-- A run of the handler. -/
def runConn (since sub : ℕ) (c : Conn β σ) (acts : List (Act β σ)) : Conn β σ :=
  acts.foldl (Conn.step since sub) c

/-! ## What it is to deliver -/

/-- The events among the messages. -/
def eventsOf (ms : List (Message β σ)) : List (Numbered β) :=
  ms.filterMap fun
    | .event ev => some ev
    | _ => none

/-- How many events the client was told that it has missed. -/
def announced (ms : List (Message β σ)) : ℕ :=
  (ms.map fun
    | .resync dropped => dropped
    | _ => 0).sum

/-- The events that the handler holds and has still to send. -/
def Conn.inHand (since : ℕ) (c : Conn β σ) : List (Numbered β) :=
  match c.pc with
  | .snapshot => if since ≠ 0 then c.run.bus.replaySince since else []
  | .replaying rest => rest
  | .resync ev | .resnap ev => [ev]
  | _ => []

/-- The client is subscribed. -/
def Conn.open (c : Conn β σ) : Prop := c.pc ≠ .accepting ∧ c.pc ≠ .closed

/-- **The stream is faithful**: the numbers of the events sent rise, and while the client is
subscribed every event after `since` was sent, is in the handler's hand, waits in the queue,
or is one of those that were announced or are still counted as dropped. -/
structure Conn.Delivers (since sub : ℕ) (c : Conn β σ) : Prop where
  rising : ((eventsOf c.sent).map Numbered.seq).Pairwise (· < ·)
  covered : c.open → ∃ s, c.run.heap sub = some s ∧ ∃ lost : List (Numbered β),
    lost.length ≤ announced c.sent + s.dropped ∧
    ∀ e ∈ c.run.log, since < e.seq →
      e ∈ eventsOf c.sent ∨ e ∈ c.inHand since ∨ e ∈ s.q.items ∨ e ∈ lost

/-- The step is none of the three that lose or repeat an event. -/
def Conn.Fits (replay since sub : ℕ) (c : Conn β σ) : Act β σ → Prop
  | .resume _ => c.pc = .accepting → c.run.log.length ≤ since + replay
  | .bus (.publish _ _) =>
      (c.pc = .snapshot → c.run.bus.seq ≤ since) ∧
      ((∃ ev, c.pc = .resync ev) →
        ∀ s, c.run.heap sub = some s → s.q.items.length < QUEUE_DEPTH)
  | _ => True

/-- Every step of the run fits. -/
def AllFit (replay since sub : ℕ) : Conn β σ → List (Act β σ) → Prop
  | _, [] => True
  | c, act :: acts =>
      c.Fits replay since sub act ∧ AllFit replay since sub (c.step since sub act) acts

@[simp] theorem eventsOf_concat_event (ms : List (Message β σ)) (ev : Numbered β) :
    eventsOf (ms ++ [.event ev]) = eventsOf ms ++ [ev] := by
  simp [eventsOf]

@[simp] theorem eventsOf_concat_snapshot (ms : List (Message β σ)) (ts : Option ℤ) (snap : σ) :
    eventsOf (ms ++ [.snapshot ts snap]) = eventsOf ms := by
  simp [eventsOf]

@[simp] theorem eventsOf_concat_resync (ms : List (Message β σ)) (d : ℕ) :
    eventsOf (ms ++ [.resync d]) = eventsOf ms := by
  simp [eventsOf]

@[simp] theorem announced_concat_event (ms : List (Message β σ)) (ev : Numbered β) :
    announced (ms ++ [.event ev]) = announced ms := by
  simp [announced]

@[simp] theorem announced_concat_snapshot (ms : List (Message β σ)) (ts : Option ℤ) (snap : σ) :
    announced (ms ++ [.snapshot ts snap]) = announced ms := by
  simp [announced]

@[simp] theorem announced_concat_resync (ms : List (Message β σ)) (d : ℕ) :
    announced (ms ++ [.resync d]) = announced ms + d := by
  simp [announced]

/-! ## The numbers -/

variable {replay since sub : ℕ} {cleared : ℕ → ℕ} {r r' : Run β}

/-- The numbers of the log rise. -/
theorem log_rising (h : r.Sound replay cleared) :
    (r.log.map Numbered.seq).Pairwise (· < ·) := by
  rw [h.seqs]
  exact List.pairwise_lt_range'

/-- The event at place `i` has the number `i + 1`. -/
theorem seq_at (h : r.Sound replay cleared) {i : ℕ} (hi : i < r.log.length) :
    r.log[i].seq = i + 1 := by
  have hseqs := congrArg (fun L => L[i]?) h.seqs
  simp only [List.getElem?_map, List.getElem?_eq_getElem hi, List.getElem?_range' hi,
    Option.map_some, Option.some.injEq] at hseqs
  omega

/-- What is published is numbered up to the length of the log. -/
theorem seq_le (h : r.Sound replay cleared) {e : Numbered β} (he : e ∈ r.log) :
    e.seq ≤ r.log.length := by
  obtain ⟨i, hi, rfl⟩ := List.getElem_of_mem he
  rw [seq_at h hi]
  omega

/-- An event is in the ring when no more than `replay` events are as new. -/
theorem mem_ring (h : r.Sound replay cleared) {e : Numbered β} (he : e ∈ r.log)
    (hnew : r.log.length < e.seq + replay) : e ∈ r.bus.ring.items := by
  obtain ⟨i, hi, rfl⟩ := List.getElem_of_mem he
  rw [seq_at h hi] at hnew
  rw [h.ring, List.rtake, List.mem_drop_iff_getElem]
  refine ⟨i - (r.log.length - replay), by omega, ?_⟩
  congr 1
  omega

/-- The ring holds a part of the log, in order. -/
theorem ring_sublist (h : r.Sound replay cleared) : r.bus.ring.items.Sublist r.log := by
  rw [h.ring]
  exact List.drop_sublist _ _

/-! ## What the handler owes its client -/

/-- The client has been sent the events of `sent`, `hand` is to be sent next, and of the
dropped events `owed` have been announced and not yet cleared. -/
structure Served (replay since sub : ℕ) (cleared : ℕ → ℕ) (r : Run β) (sent : List (Message β σ))
    (hand : List (Numbered β)) (owed : ℕ) : Prop where
  sound : r.Sound replay cleared
  member : sub ∈ r.bus.subs
  given : ∃ rep : List (Numbered β), rep.Sublist (r.log.take (r.joined sub)) ∧
    (∀ e ∈ r.log.take (r.joined sub), since < e.seq → e ∈ rep) ∧
    eventsOf sent ++ hand = rep ++ r.taken sub
  counted : cleared sub + owed = announced sent

variable {sent : List (Message β σ)} {hand : List (Numbered β)} {owed : ℕ}

/-- The events sent and those in hand have rising numbers. -/
theorem Served.rising (h : Served replay since sub cleared r sent hand owed) :
    ((eventsOf sent ++ hand).map Numbered.seq).Pairwise (· < ·) := by
  obtain ⟨rep, hrep, -, heq⟩ := h.given
  obtain ⟨s, -, -, hacc⟩ := h.sound.accounts sub h.member
  have htaken : (r.taken sub).Sublist (r.log.drop (r.joined sub)) :=
    (List.sublist_append_left _ _).trans hacc.sublist
  have hall := hrep.append htaken
  rw [List.take_append_drop, ← heq] at hall
  exact (log_rising h.sound).sublist (hall.map _)

/-- Every event after `since` is accounted for. -/
theorem Served.covered (h : Served replay since sub cleared r sent hand owed) :
    ∃ s, r.heap sub = some s ∧ ∃ lost : List (Numbered β),
      lost.length ≤ announced sent + s.dropped ∧
      ∀ e ∈ r.log, since < e.seq →
        e ∈ eventsOf sent ∨ e ∈ hand ∨ e ∈ s.q.items ∨ e ∈ lost := by
  obtain ⟨rep, -, hcov, heq⟩ := h.given
  obtain ⟨s, hs, -, hacc⟩ := h.sound.accounts sub h.member
  obtain ⟨lost, hlost, hput⟩ := hacc.covers
  refine ⟨s, hs, lost, by have := h.counted; omega, fun e he hseq => ?_⟩
  have hmem : e ∈ rep ++ r.taken sub → e ∈ eventsOf sent ∨ e ∈ hand := by
    rw [← heq]
    exact List.mem_append.1
  rw [← List.take_append_drop (r.joined sub) r.log] at he
  rcases List.mem_append.1 he with hold | hnew
  · rcases hmem (List.mem_append_left _ (hcov e hold hseq)) with h | h
    · exact .inl h
    · exact .inr (.inl h)
  · rcases hput e hnew with h | h | h
    · rcases hmem (List.mem_append_right _ h) with h | h
      · exact .inl h
      · exact .inr (.inl h)
    · exact .inr (.inr (.inl h))
    · exact .inr (.inr (.inr h))

/-- The first event in hand is sent. -/
theorem Served.send {ev : Numbered β}
    (h : Served replay since sub cleared r sent (ev :: hand) owed) :
    Served replay since sub cleared r (sent ++ [.event ev]) hand owed :=
  ⟨h.sound, h.member, by simpa using h.given, by simpa using h.counted⟩

/-- The client is told that `d` events were dropped. -/
theorem Served.announce (h : Served replay since sub cleared r sent hand owed) (d : ℕ) :
    Served replay since sub cleared r (sent ++ [.resync d]) hand (owed + d) :=
  ⟨h.sound, h.member, by simpa using h.given, by simp [← h.counted, Nat.add_assoc]⟩

/-- Others use the bus. -/
theorem Served.other (h : Served replay since sub cleared r sent hand owed) {op : Op β}
    (hop : op.concerns sub = false) :
    Served replay since sub cleared (r.step op) sent hand owed := by
  have hsame : SameFor sub (r.step op) r :=
    sameFor_other ⟨rfl, rfl, rfl, Iff.rfl, rfl, rfl, rfl⟩ hop
  refine ⟨sound_step h.sound op, hsame.member.2 h.member, ?_, h.counted⟩
  rw [hsame.log, hsame.joined, hsame.taken]
  exact h.given

/-- An event is published. -/
theorem Served.publish (h : Served replay since sub cleared r sent hand owed) (now : ℤ)
    (event : β) : Served replay since sub cleared (r.step (.publish now event)) sent hand owed := by
  refine ⟨sound_step h.sound _, h.member, ?_, h.counted⟩
  have hlog : (r.step (.publish now event)).log.take ((r.step (.publish now event)).joined sub) =
      r.log.take (r.joined sub) :=
    List.take_append_of_le_length (h.sound.joined sub)
  rw [hlog]
  exact h.given

/-- The oldest event of the queue is taken in hand. -/
theorem Served.take (h : Served replay since sub cleared r sent [] owed) {s : Subscriber β}
    {ev : Numbered β} {q : Fifo (Numbered β)} (hs : r.heap sub = some s)
    (hq : s.q.get = some (ev, q)) :
    Served replay since sub cleared (r.step (.get sub)) sent [ev] owed := by
  have hstep := step_get_takes hs hq
  refine ⟨sound_step h.sound _, by rw [hstep]; exact h.member, ?_, h.counted⟩
  obtain ⟨rep, hrep, hcov, heq⟩ := h.given
  rw [hstep]
  refine ⟨rep, hrep, hcov, ?_⟩
  simp only [List.append_nil] at heq
  simp [heq]

/-- `sub.dropped = 0` lowers the counter by what it showed. -/
theorem sound_clear (h : r.Sound replay cleared) {s : Subscriber β} (hs : r.heap sub = some s) :
    (r.clear sub).Sound replay (Function.update cleared sub (s.dropped + cleared sub)) := by
  have hheap : (r.clear sub).heap sub = some { s with dropped := 0 } := by
    simp [Run.clear, hs]
  have hother : ∀ j, j ≠ sub → (r.clear sub).heap j = r.heap j := by
    intro j hj
    simp [Run.clear, hj]
  refine ⟨h.nodup, h.seq, h.seqs, h.maxlen, h.ring, ?_, ?_, h.joined, ?_⟩
  · intro j t hj
    by_cases hjs : j = sub
    · subst hjs
      rw [hheap] at hj
      cases hj
      exact ⟨(h.bounded j s hs).maxsize, (h.bounded j s hs).items⟩
    · rw [hother j hjs] at hj
      exact h.bounded j t hj
  · intro j hj
    by_cases hjs : j = sub
    · subst hjs
      rw [hheap] at hj
      cases hj
    · rw [hother j hjs] at hj
      simpa [hjs, Run.clear] using h.untaken j hj
  · intro j hj
    obtain ⟨t, ht, hlen, hacc⟩ := h.accounts j hj
    by_cases hjs : j = sub
    · subst hjs
      obtain rfl := Option.some.inj (hs.symm.trans ht)
      exact ⟨_, hheap, hlen, by simpa [Run.clear] using hacc⟩
    · exact ⟨t, (hother j hjs).trans ht, hlen, by simpa [hjs, Run.clear] using hacc⟩

/-- The announced drops are no longer counted. -/
theorem Served.clear {s : Subscriber β} (hs : r.heap sub = some s)
    (h : Served replay since sub cleared r sent hand s.dropped) :
    Served replay since sub (Function.update cleared sub (s.dropped + cleared sub)) (r.clear sub)
      sent hand 0 :=
  ⟨sound_clear h.sound hs, h.member, h.given, by simp [← h.counted, Nat.add_comm]⟩

/-- The message in between holds no event. -/
theorem Served.snapshot (h : Served replay since sub cleared r sent hand owed) (ts : Option ℤ)
    (snap : σ) : Served replay since sub cleared r (sent ++ [.snapshot ts snap]) hand owed :=
  ⟨h.sound, h.member, by simpa using h.given, by simpa using h.counted⟩

/-! ## The handler, await by await -/

/-- While the first snapshot is being sent, nothing newer than `since` has been published
since the client subscribed, and the ring reaches back to `since`. -/
structure Joining (replay since sub : ℕ) (cleared : ℕ → ℕ) (r : Run β)
    (sent : List (Message β σ)) : Prop where
  sound : r.Sound replay cleared
  member : sub ∈ r.bus.subs
  events : eventsOf sent = []
  counted : cleared sub = announced sent
  taken : r.taken sub = []
  reaches : r.joined sub ≤ since + replay
  quiet : r.log.length = r.joined sub ∨ r.log.length ≤ since

/-- The replay is then all that the client has missed. -/
theorem Joining.served (h : Joining replay since sub cleared r sent) (hsince : 0 < since) :
    Served replay since sub cleared r sent
      (if since ≠ 0 then r.bus.replaySince since else []) 0 := by
  rw [if_pos hsince.ne']
  refine ⟨h.sound, h.member, ⟨r.bus.replaySince since, ?_, ?_, ?_⟩, by simp [h.counted]⟩
  · rcases h.quiet with hq | hq
    · rw [List.take_of_length_le hq.le]
      exact List.filter_sublist.trans (ring_sublist h.sound)
    · have hnone : r.bus.replaySince since = [] := by
        refine List.filter_eq_nil_iff.2 fun e he hlt => ?_
        have hle := seq_le h.sound ((ring_sublist h.sound).subset he)
        have hgt : since < e.seq := by simpa using hlt
        omega
      rw [hnone]
      exact List.nil_sublist _
  · intro e he hlt
    have hlog := List.mem_of_mem_take he
    have hle := seq_le h.sound hlog
    have hreach := h.reaches
    refine List.mem_filter.2 ⟨mem_ring h.sound hlog ?_, by simpa using hlt⟩
    rcases h.quiet with hq | hq <;> omega
  · simp [h.events, h.taken]

/-- What holds at each await. -/
def Conn.Inv (replay since sub : ℕ) (c : Conn β σ) : Prop :=
  match c.pc with
  | .accepting => c.run.Sound replay (fun _ => 0) ∧ c.run.heap sub = none ∧ c.sent = []
  | .snapshot => ∃ cleared, Joining replay since sub cleared c.run c.sent
  | .replaying rest => ∃ cleared, Served replay since sub cleared c.run c.sent rest 0
  | .waiting | .sending => ∃ cleared, Served replay since sub cleared c.run c.sent [] 0
  | .resync ev => ∃ cleared s, c.run.heap sub = some s ∧
      Served replay since sub cleared c.run c.sent [ev] s.dropped
  | .resnap ev => ∃ cleared, Served replay since sub cleared c.run c.sent [ev] 0
  | .closed => ((eventsOf c.sent).map Numbered.seq).Pairwise (· < ·)

variable {c : Conn β σ}

/-- At each await the stream is faithful. -/
theorem delivers_of_inv (h : c.Inv replay since sub) (hsince : 0 < since) :
    c.Delivers since sub := by
  have hserved : ∀ {cleared owed}, Served replay since sub cleared c.run c.sent
      (c.inHand since) owed → c.Delivers since sub := fun hs =>
    ⟨hs.rising.sublist ((List.sublist_append_left _ _).map _), fun _ => hs.covered⟩
  cases hpc : c.pc
  case accepting =>
      simp only [Conn.Inv, hpc] at h
      exact ⟨by simp [h.2.2, eventsOf], fun ho => absurd hpc ho.1⟩
  case snapshot =>
      simp only [Conn.Inv, hpc] at h
      obtain ⟨cleared, hj⟩ := h
      exact hserved (by simpa only [Conn.inHand, hpc] using hj.served hsince)
  case resync ev =>
      simp only [Conn.Inv, hpc] at h
      obtain ⟨cleared, s, -, hs⟩ := h
      exact hserved (by simpa only [Conn.inHand, hpc] using hs)
  case closed =>
      simp only [Conn.Inv, hpc] at h
      exact ⟨h, fun ho => absurd hpc ho.2⟩
  all_goals
    simp only [Conn.Inv, hpc] at h
    obtain ⟨cleared, hs⟩ := h
    exact hserved (by simpa only [Conn.inHand, hpc] using hs)

/-! ## One step -/

/-- At the head of its loop the handler takes the oldest event, or waits for one. -/
theorem inv_loopHead (h : Served replay since sub cleared c.run c.sent [] 0) :
    (c.loopHead sub).Inv replay since sub := by
  obtain ⟨s, hs, -, -⟩ := h.sound.accounts sub h.member
  unfold Conn.loopHead
  rw [hs]
  cases hq : s.q.get with
  | none =>
      simp only [Option.bind_some, hq, Option.map_none]
      exact ⟨cleared, h⟩
  | some p =>
      obtain ⟨ev, q⟩ := p
      have htake := h.take hs hq
      simp only [Option.bind_some, hq, Option.map_some]
      by_cases hd : s.dropped = 0
      · simp only [hd, ne_eq, not_true_eq_false, if_false, Conn.send]
        exact ⟨cleared, htake.send⟩
      · simp only [ne_eq, hd, not_false_eq_true, if_true, Conn.send]
        have hstep := step_get_takes hs hq
        refine ⟨cleared, { s with q := q }, by simp [hstep], ?_⟩
        simpa using htake.announce s.dropped

/-- The replay goes on, or ends. -/
theorem inv_replayRest {rest : List (Numbered β)}
    (h : Served replay since sub cleared c.run c.sent rest 0) :
    (c.replayRest sub rest).Inv replay since sub := by
  cases rest with
  | nil => exact inv_loopHead h
  | cons ev rest => exact ⟨cleared, h.send⟩

/-- The handler goes on. -/
theorem inv_resume (h : c.Inv replay since sub) (hsince : 0 < since) (now : Reading σ)
    (hfit : c.Fits replay since sub (.resume now)) :
    (c.resume since sub now).Inv replay since sub := by
  cases hpc : c.pc with
  | accepting =>
      simp only [Conn.Inv, hpc] at h
      obtain ⟨hsound, hnone, hsent⟩ := h
      simp only [Conn.resume, hpc, Conn.send]
      refine ⟨fun _ => 0, sound_step hsound (.subscribe sub), ?_, by simp [hsent, eventsOf],
        by simp [hsent, announced], ?_, ?_, .inl ?_⟩
      · simp [Run.step, hnone, EventBus.subscribe]
      · simpa [Run.step, hnone] using (hsound.untaken sub hnone).1
      · simpa [Run.step, hnone] using hfit hpc
      · simp [Run.step, hnone]
  | snapshot =>
      simp only [Conn.Inv, hpc] at h
      obtain ⟨cleared, hj⟩ := h
      simp only [Conn.resume, hpc]
      exact inv_replayRest (hj.served hsince)
  | replaying rest =>
      simp only [Conn.Inv, hpc] at h
      obtain ⟨cleared, hs⟩ := h
      simp only [Conn.resume, hpc]
      exact inv_replayRest hs
  | waiting =>
      simp only [Conn.Inv, hpc] at h
      obtain ⟨cleared, hs⟩ := h
      simp only [Conn.resume, hpc]
      exact inv_loopHead hs
  | resync ev =>
      simp only [Conn.Inv, hpc] at h
      obtain ⟨cleared, s, hheap, hs⟩ := h
      simp only [Conn.resume, hpc, Conn.send]
      exact ⟨_, (hs.clear hheap).snapshot none now.snap⟩
  | resnap ev =>
      simp only [Conn.Inv, hpc] at h
      obtain ⟨cleared, hs⟩ := h
      simp only [Conn.resume, hpc, Conn.send]
      exact ⟨cleared, hs.send⟩
  | sending =>
      simp only [Conn.Inv, hpc] at h
      obtain ⟨cleared, hs⟩ := h
      simp only [Conn.resume, hpc]
      exact inv_loopHead hs
  | closed => simpa only [Conn.resume, hpc] using h

/-- The publisher uses the bus. -/
theorem inv_publish (h : c.Inv replay since sub) (now : ℤ) (event : β)
    (hfit : c.Fits replay since sub (.bus (.publish now event))) :
    ({ c with run := c.run.step (.publish now event) } : Conn β σ).Inv replay since sub := by
  cases hpc : c.pc
  case accepting =>
      simp only [Conn.Inv, hpc] at h ⊢
      obtain ⟨hsound, hnone, hsent⟩ := h
      refine ⟨sound_step hsound _, ?_, hsent⟩
      rw [publish_at hsound]
      simp [hnone]
  case snapshot =>
      simp only [Conn.Inv, hpc] at h ⊢
      obtain ⟨cleared, hj⟩ := h
      have hle : c.run.bus.seq ≤ since := hfit.1 hpc
      have hlen : (c.run.step (.publish now event)).log.length ≤ since := by
        rw [hj.sound.seq] at hle
        simpa [Run.step] using hle
      exact ⟨cleared, sound_step hj.sound _, hj.member, hj.events, hj.counted, hj.taken,
        hj.reaches, .inr hlen⟩
  case resync ev =>
      simp only [Conn.Inv, hpc] at h ⊢
      obtain ⟨cleared, s, hheap, hs⟩ := h
      have hroom := hfit.2 ⟨ev, hpc⟩ s hheap
      have hat := publish_at hs.sound now event sub
      rw [if_pos hs.member, hheap, Option.map_some] at hat
      rcases offer_cases (hs.sound.bounded sub s hheap) (c.run.bus.number now event) with
        ⟨-, hoff⟩ | ⟨_, _, -, hfull, -⟩
      · rw [hoff] at hat
        exact ⟨cleared, _, hat, hs.publish now event⟩
      · omega
  case closed => simpa only [Conn.Inv, hpc] using h
  all_goals
    simp only [Conn.Inv, hpc] at h ⊢
    obtain ⟨cleared, hs⟩ := h
    exact ⟨cleared, hs.publish now event⟩

/-- Another client uses the bus. -/
theorem inv_other (h : c.Inv replay since sub) {op : Op β} (hop : op.concerns sub = false) :
    ({ c with run := c.run.step op } : Conn β σ).Inv replay since sub := by
  have hsame : SameFor sub (c.run.step op) c.run :=
    sameFor_other ⟨rfl, rfl, rfl, Iff.rfl, rfl, rfl, rfl⟩ hop
  cases hpc : c.pc
  case accepting =>
      simp only [Conn.Inv, hpc] at h ⊢
      exact ⟨sound_step h.1 op, hsame.heap.trans h.2.1, h.2.2⟩
  case snapshot =>
      simp only [Conn.Inv, hpc] at h ⊢
      obtain ⟨cleared, hj⟩ := h
      exact ⟨cleared, sound_step hj.sound op, hsame.member.2 hj.member, hj.events, hj.counted,
        hsame.taken.trans hj.taken, by rw [hsame.joined]; exact hj.reaches,
        by rw [hsame.log, hsame.joined]; exact hj.quiet⟩
  case resync ev =>
      simp only [Conn.Inv, hpc] at h ⊢
      obtain ⟨cleared, s, hheap, hs⟩ := h
      exact ⟨cleared, s, hsame.heap.trans hheap, hs.other hop⟩
  case closed => simpa only [Conn.Inv, hpc] using h
  all_goals
    simp only [Conn.Inv, hpc] at h ⊢
    obtain ⟨cleared, hs⟩ := h
    exact ⟨cleared, hs.other hop⟩

/-- What is not an operation of this client is one of the publisher, or of somebody else. -/
theorem concerns_of_not_isOf {op : Op β} (h : op.isOf sub = false) :
    (∃ now event, op = .publish now event) ∨ op.concerns sub = false := by
  cases op with
  | publish now event => exact .inl ⟨now, event, rfl⟩
  | subscribe j => exact .inr h
  | unsubscribe j => exact .inr h
  | get j => exact .inr h

/-- **One step that fits keeps the invariant.** -/
theorem inv_step (h : c.Inv replay since sub) (hsince : 0 < since) (act : Act β σ)
    (hfit : c.Fits replay since sub act) : (c.step since sub act).Inv replay since sub := by
  cases act with
  | resume now => exact inv_resume h hsince now hfit
  | bus op =>
      cases hop : op.isOf sub with
      | true => simpa [Conn.step, hop] using h
      | false =>
          simp only [Conn.step, hop, Bool.false_eq_true, if_false]
          rcases concerns_of_not_isOf hop with ⟨now, event, rfl⟩ | hother
          · exact inv_publish h now event hfit
          · exact inv_other h hother
  | fail =>
      have hrising := (delivers_of_inv h hsince).rising
      simp only [Conn.step, Conn.fail]
      split <;> exact hrising

/-- The subscriber of this client does not exist yet. -/
theorem heap_start (replay sub : ℕ) (ops : List (Op β)) :
    (run replay (ops.filter fun op => !op.isOf sub)).heap sub = none := by
  induction ops using List.reverseRecOn with
  | nil => rfl
  | append_singleton ops op ih =>
      rw [List.filter_append]
      cases hop : op.isOf sub with
      | true => simpa [hop] using ih
      | false =>
          rw [List.filter_singleton, hop, Bool.not_false, cond_true, run_concat]
          rcases concerns_of_not_isOf hop with ⟨now, event, rfl⟩ | hother
          · rw [publish_at (run_sound _ _), ih]
            simp
          · exact (sameFor_other ⟨rfl, rfl, rfl, Iff.rfl, rfl, rfl, rfl⟩ hother).heap.trans ih

/-- **Every run whose steps all fit is faithful** in every state that it reaches.  Whatever happens
between two awaits, the client has been sent every event once and in order, but for those that it
was or will be told about. -/
theorem runConn_delivers (replay since sub : ℕ) (hsince : 0 < since) (ops : List (Op β))
    (acts : List (Act β σ)) (hfit : AllFit replay since sub (Conn.start replay sub ops) acts) :
    (runConn since sub (Conn.start replay sub ops) acts).Delivers since sub := by
  have hrun : ∀ (acts : List (Act β σ)) (c : Conn β σ), c.Inv replay since sub →
      AllFit replay since sub c acts → (runConn since sub c acts).Inv replay since sub := by
    intro acts
    induction acts with
    | nil => exact fun c h _ => h
    | cons act acts ih => exact fun c h hall => ih _ (inv_step h hsince act hall.1) hall.2
  exact delivers_of_inv (hrun acts _ ⟨run_sound _ _, heap_start replay sub ops, rfl⟩ hfit) hsince

/-- A client that has seen the first event is sent the second one, which is published while
it waits. -/
theorem runConn_delivers_second :
    (runConn 1 7 (Conn.start REPLAY 7 [.publish 0 ()])
      [.resume ⟨0, ()⟩, .resume ⟨0, ()⟩, .bus (.publish 1 ()), .resume ⟨1, ()⟩]).Delivers 1 7 := by
  refine runConn_delivers REPLAY 1 7 (by decide) _ _
    ⟨fun _ => by decide, fun h => absurd h (by decide), ⟨fun h => absurd h (by decide), ?_⟩,
      fun h => absurd h (by decide), trivial⟩
  rintro ⟨ev, h⟩
  cases h

/-- An event that is published while the first snapshot is being sent is in the ring and in
the queue: it is sent twice. -/
theorem not_delivers_twice :
    ¬ (runConn 1 7 (Conn.start REPLAY 7 [.publish 0 ()])
      [.resume ⟨0, ()⟩, .bus (.publish 1 ()), .resume ⟨1, ()⟩, .resume ⟨1, ()⟩]).Delivers 1 7 := by
  intro h
  have hrising := h.rising
  revert hrising
  decide

end OpenAisg.Api
