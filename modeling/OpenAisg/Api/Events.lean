import OpenAisg.Lib.Fifo
import Mathlib.Logic.Function.Basic

/-!
# The event bus (`api/events.py`)

The events of the worker are numbered, kept in a replay ring and put into one bounded
queue for each subscriber; a full queue drops its oldest event.  The bus lives in one event
loop, so its operations do not interleave, but they come in any order.

* `Subscriber`, `EventBus` — the classes, over the body `β` of an event.
* `Heap` — the objects, by their identity: a consumer holds on to its subscriber after it
  has unsubscribed.
* `Op`, `run` — any order of publishing, subscribing, unsubscribing and taking an event out
  of a queue, with what each subscriber was given.
* `offer_cases`, `publish_at` — what publishing does to one subscriber, whatever the order
  of `_subs`.
* `Run.Accounts`, `Run.Sound` — the invariant: of a subscriber's events it is known which
  were given out, which dropped, and which its queue holds.
* `run_apart` — what a subscriber sees is made by its own operations and the publisher's.
* `run_accounts` — over every run, the ring holds the newest events, every subscriber's
  events are accounted for, and no subscriber changes what another is given.
-/

namespace OpenAisg.Api

variable {β : Type}

def QUEUE_DEPTH : ℕ := 256

def REPLAY : ℕ := 500

/-- `{"seq": …, "ts": …, **event}`: the keys that the bus adds, and the event.  The time is
in milliseconds. -/
structure Numbered (β : Type) where
  seq : ℕ
  ts : ℤ
  event : β
  deriving Repr, DecidableEq

/-- A subscriber: its queue, and how many events it has dropped. -/
structure Subscriber (β : Type) where
  q : Fifo (Numbered β) := { maxsize := QUEUE_DEPTH }
  dropped : ℕ := 0
  deriving DecidableEq

/-- The body of the loop over `_subs`. -/
def Subscriber.offer (sub : Subscriber β) (event : Numbered β) : Subscriber β :=
  match sub.q.put event with
  | some q => { sub with q := q }
  | none =>
      -- Drop the oldest, never block the publisher.
      let sub := match sub.q.get with
        | some (_, q) => { sub with q := q }
        | none => sub
      let sub := { sub with dropped := sub.dropped + 1 }
      match sub.q.put event with
      | some q => { sub with q := q }
      | none => sub

/-- The subscribers that exist, by their identity. -/
abbrev Heap (β : Type) : Type := ℕ → Option (Subscriber β)

/-- `for sub in self._subs: …`. -/
def offerAll (event : Numbered β) (subs : List ℕ) (heap : Heap β) : Heap β :=
  subs.foldl (fun heap sub =>
    Function.update heap sub ((heap sub).map fun s => s.offer event)) heap

/-- `_subs` as the identities in it, in the order of an iteration; `_seq` as the number that
it gives next. -/
structure EventBus (β : Type) where
  subs : List ℕ := []
  ring : RingBuffer (Numbered β) := { maxlen := REPLAY }
  seq : ℕ := 1

namespace EventBus

/-- `EventBus(replay)`. -/
def init (replay : ℕ) : EventBus β := { ring := { maxlen := replay } }

/-- The event that `publish_nowait` makes of `event`, at the time `now`. -/
def number (bus : EventBus β) (now : ℤ) (event : β) : Numbered β := ⟨bus.seq, now, event⟩

/-- `publish_nowait`: number the event, keep it in the ring, and offer it to every subscriber. -/
def publishNowait (bus : EventBus β) (heap : Heap β) (now : ℤ) (event : β) :
    EventBus β × Heap β :=
  let event := bus.number now event
  ({ bus with seq := bus.seq + 1, ring := bus.ring.append event },
    offerAll event bus.subs heap)

/-- `replay_since`: the events of the ring with later numbers. -/
def replaySince (bus : EventBus β) (seq : ℕ) : List (Numbered β) :=
  bus.ring.items.filter fun e => decide (seq < e.seq)

/-- `subscribe`, for the identity `sub` of the new object. -/
def subscribe (bus : EventBus β) (heap : Heap β) (sub : ℕ) : EventBus β × Heap β :=
  ({ bus with subs := bus.subs ++ [sub] }, Function.update heap sub (some {}))

/-- `unsubscribe`: the object is no longer in `_subs`, and is offered nothing more. -/
def unsubscribe (bus : EventBus β) (sub : ℕ) : EventBus β :=
  { bus with subs := bus.subs.filter (· ≠ sub) }

end EventBus

/-! ## Runs -/

/-- What the event loop does with the bus. -/
inductive Op (β : Type) where
  | publish (now : ℤ) (event : β)
  | subscribe (sub : ℕ)
  | unsubscribe (sub : ℕ)
  /-- The consumer of `sub` takes an event out of its queue. -/
  | get (sub : ℕ)
  deriving Repr, DecidableEq

/-- The operation is one of `sub`, or of the publisher. -/
def Op.concerns (sub : ℕ) : Op β → Bool
  | .publish _ _ => true
  | .subscribe j | .unsubscribe j | .get j => decide (j = sub)

/-- The bus and its subscribers; the events published, those that each subscriber was given,
and how many had been published when it subscribed. -/
structure Run (β : Type) where
  bus : EventBus β
  heap : Heap β := fun _ => none
  log : List (Numbered β) := []
  taken : ℕ → List (Numbered β) := fun _ => []
  joined : ℕ → ℕ := fun _ => 0

/-- One operation.  A new object has an identity that no object has, and a consumer waits
for as long as its queue is empty. -/
def Run.step (r : Run β) : Op β → Run β
  | .publish now event =>
      { r with
        bus := (r.bus.publishNowait r.heap now event).1
        heap := (r.bus.publishNowait r.heap now event).2
        log := r.log ++ [r.bus.number now event] }
  | .subscribe sub =>
      match r.heap sub with
      | some _ => r
      | none =>
          { r with
            bus := (r.bus.subscribe r.heap sub).1
            heap := (r.bus.subscribe r.heap sub).2
            joined := Function.update r.joined sub r.log.length }
  | .unsubscribe sub => { r with bus := r.bus.unsubscribe sub }
  | .get sub =>
      match r.heap sub with
      | none => r
      | some s =>
          match s.q.get with
          | none => r
          | some (event, q) =>
              { r with
                heap := Function.update r.heap sub (some { s with q := q })
                taken := Function.update r.taken sub (r.taken sub ++ [event]) }

/-- The operations `ops` on a new bus. -/
def run (replay : ℕ) (ops : List (Op β)) : Run β :=
  ops.foldl Run.step { bus := EventBus.init replay }

theorem run_concat (replay : ℕ) (ops : List (Op β)) (op : Op β) :
    run replay (ops ++ [op]) = (run replay ops).step op := by
  simp [run, List.foldl_append]

/-! ## One subscriber -/

/-- Its queue has the depth that `Subscriber()` gives it, and no more in it. -/
structure Subscriber.Bounded (s : Subscriber β) : Prop where
  maxsize : s.q.maxsize = QUEUE_DEPTH
  items : s.q.items.length ≤ QUEUE_DEPTH

theorem bounded_new : ({} : Subscriber β).Bounded := ⟨rfl, Nat.zero_le _⟩

/-- **What the loop body does to a subscriber**: the event is the newest of its queue, and
of a full queue the oldest is gone and counted. -/
theorem offer_cases {s : Subscriber β} (h : s.Bounded) (e : Numbered β) :
    (s.q.items.length < QUEUE_DEPTH ∧
      s.offer e = { s with q := { s.q with items := s.q.items ++ [e] } }) ∨
    (∃ y ys, s.q.items = y :: ys ∧ s.q.items.length = QUEUE_DEPTH ∧
      s.offer e = { q := { s.q with items := ys ++ [e] }, dropped := s.dropped + 1 }) := by
  have hpos : 0 < QUEUE_DEPTH := by decide
  have hmax := h.maxsize
  have hlen := h.items
  cases hfull : s.q.full with
  | false =>
      left
      have hput : s.q.put e = some { s.q with items := s.q.items ++ [e] } :=
        Fifo.put_eq_some.2 ⟨hfull, rfl⟩
      simp only [Fifo.full, decide_eq_false_iff_not, hmax] at hfull
      exact ⟨by omega, by simp only [Subscriber.offer, hput]⟩
  | true =>
      right
      have hnone : s.q.put e = none := Fifo.put_eq_none.2 hfull
      simp only [Fifo.full, decide_eq_true_eq, hmax] at hfull
      cases hitems : s.q.items with
      | nil => simp [hitems] at hfull; omega
      | cons y ys =>
          have hget : s.q.get = some (y, { s.q with items := ys }) :=
            Fifo.get_eq_some.2 ⟨ys, hitems, rfl⟩
          have hroom : ({ s.q with items := ys } : Fifo (Numbered β)).put e =
              some { s.q with items := ys ++ [e] } := by
            refine Fifo.put_eq_some.2 ⟨?_, rfl⟩
            rw [hitems, List.length_cons] at hlen
            simp only [Fifo.full, decide_eq_false_iff_not, hmax]
            omega
          rw [hitems] at hfull hlen
          refine ⟨y, ys, rfl, by omega, ?_⟩
          simp only [Subscriber.offer, hnone, hget, hroom]

theorem offer_bounded {s : Subscriber β} (h : s.Bounded) (e : Numbered β) :
    (s.offer e).Bounded := by
  rcases offer_cases h e with ⟨hlen, he⟩ | ⟨y, ys, hy, hlen, he⟩
  · rw [he]
    exact ⟨h.maxsize, by simpa using Nat.succ_le_of_lt hlen⟩
  · rw [he]
    refine ⟨h.maxsize, ?_⟩
    rw [hy] at hlen
    simpa using hlen.le

/-- A queue that gives an event up has one less. -/
theorem get_bounded {s : Subscriber β} (h : s.Bounded) {e : Numbered β} {q : Fifo (Numbered β)}
    (hq : s.q.get = some (e, q)) : ({ s with q := q } : Subscriber β).Bounded := by
  obtain ⟨ys, hys, rfl⟩ := Fifo.get_eq_some.1 hq
  have hlen := h.items
  rw [hys, List.length_cons] at hlen
  exact ⟨h.maxsize, Nat.le_of_succ_le hlen⟩

/-! ## The loop over the subscribers -/

/-- The loop offers the event once to each subscriber, and to nobody else. -/
theorem offerAll_at (e : Numbered β) (subs : List ℕ) (hnd : subs.Nodup) (heap : Heap β)
    (sub : ℕ) : offerAll e subs heap sub =
      if sub ∈ subs then (heap sub).map fun s => s.offer e else heap sub := by
  induction subs generalizing heap with
  | nil => simp [offerAll]
  | cons j subs ih =>
      obtain ⟨hj, hnd⟩ := List.nodup_cons.1 hnd
      have hstep := ih hnd (Function.update heap j ((heap j).map fun s => s.offer e))
      unfold offerAll at hstep ⊢
      rw [List.foldl_cons, hstep]
      by_cases hsub : sub = j
      · subst hsub
        simp [hj]
      · simp [hsub]

/-! ## The accounts -/

/-- The events published since `sub` subscribed are, in order, those that were taken from it
or dropped and then those that its queue holds.  Of the dropped ones, `cleared` are no
longer in its counter. -/
def Run.Accounts (cleared : ℕ → ℕ) (r : Run β) (sub : ℕ) : Prop :=
  ∃ s, r.heap sub = some s ∧ s.q.items.length ≤ QUEUE_DEPTH ∧
    Accounted (r.log.drop (r.joined sub)) (r.taken sub) (s.dropped + cleared sub) s.q.items

/-- What holds between two operations. -/
structure Run.Sound (replay : ℕ) (cleared : ℕ → ℕ) (r : Run β) : Prop where
  nodup : r.bus.subs.Nodup
  seq : r.bus.seq = r.log.length + 1
  seqs : r.log.map Numbered.seq = List.range' 1 r.log.length
  maxlen : r.bus.ring.maxlen = replay
  ring : r.bus.ring.items = r.log.rtake replay
  bounded : ∀ sub s, r.heap sub = some s → s.Bounded
  untaken : ∀ sub, r.heap sub = none → r.taken sub = [] ∧ cleared sub = 0
  joined : ∀ sub, r.joined sub ≤ r.log.length
  accounts : ∀ sub ∈ r.bus.subs, r.Accounts cleared sub

variable {replay : ℕ} {cleared : ℕ → ℕ} {r : Run β}

theorem sound_init (replay : ℕ) :
    ({ bus := EventBus.init replay } : Run β).Sound replay fun _ => 0 where
  nodup := List.nodup_nil
  seq := rfl
  seqs := rfl
  maxlen := rfl
  ring := by simp [EventBus.init, List.rtake]
  bounded := by simp
  untaken := by simp
  joined := by simp
  accounts := by simp [EventBus.init]

/-- What publishing does to one subscriber. -/
theorem publish_at (h : r.Sound replay cleared) (now : ℤ) (event : β) (sub : ℕ) :
    (r.step (.publish now event)).heap sub =
      if sub ∈ r.bus.subs then (r.heap sub).map fun s => s.offer (r.bus.number now event)
      else r.heap sub :=
  offerAll_at _ _ h.nodup _ _

/-- A subscriber is offered the new event, and its accounts balance again. -/
theorem accounts_publish (h : r.Sound replay cleared) (now : ℤ) (event : β) {sub : ℕ}
    (hsub : sub ∈ r.bus.subs) : (r.step (.publish now event)).Accounts cleared sub := by
  obtain ⟨s, hs, hlen, hacc⟩ := h.accounts sub hsub
  have hat := publish_at h now event sub
  rw [if_pos hsub, hs, Option.map_some] at hat
  have hlog : (r.step (.publish now event)).log.drop (r.joined sub) =
      r.log.drop (r.joined sub) ++ [r.bus.number now event] :=
    List.drop_append_of_le_length (h.joined sub)
  refine ⟨_, hat, (offer_bounded (h.bounded sub s hs) _).items, ?_⟩
  show Accounted ((r.step (.publish now event)).log.drop (r.joined sub)) (r.taken sub) _ _
  rw [hlog]
  rcases offer_cases (h.bounded sub s hs) (r.bus.number now event) with
    ⟨-, he⟩ | ⟨y, ys, hy, -, he⟩
  · rw [he]
    exact hacc.push _
  · rw [he]
    rw [hy] at hacc
    have hdrop := hacc.drop.push (r.bus.number now event)
    rwa [Nat.add_right_comm] at hdrop

/-- Publishing: the new event is in the ring, in every queue, and in the accounts. -/
theorem sound_publish (h : r.Sound replay cleared) (now : ℤ) (event : β) :
    (r.step (.publish now event)).Sound replay cleared where
  nodup := h.nodup
  seq := by simp [Run.step, EventBus.publishNowait, h.seq]
  seqs := by
    simp only [Run.step, EventBus.number, List.map_append, List.map_cons, List.map_nil, h.seqs,
      h.seq, List.length_append, List.length_singleton]
    rw [List.range'_1_concat, Nat.add_comm]
  maxlen := h.maxlen
  ring := by
    have hring := RingBuffer.append_items (h.ring.trans (by rw [h.maxlen])) (r.bus.number now event)
    rwa [h.maxlen] at hring
  bounded := by
    intro sub s hs
    rw [publish_at h] at hs
    split at hs
    · obtain ⟨s', hs', rfl⟩ := Option.map_eq_some_iff.1 hs
      exact offer_bounded (h.bounded sub s' hs') _
    · exact h.bounded sub s hs
  untaken := by
    intro sub hs
    rw [publish_at h] at hs
    exact h.untaken sub (by split at hs <;> simpa using hs)
  joined := by
    intro sub
    have hle := h.joined sub
    simp only [Run.step, List.length_append, List.length_singleton]
    omega
  accounts := fun _ hsub => accounts_publish h now event hsub

/-- A new subscriber owes nothing and is owed nothing. -/
theorem sound_subscribe (h : r.Sound replay cleared) (sub : ℕ) :
    (r.step (.subscribe sub)).Sound replay cleared := by
  cases hs : r.heap sub with
  | some s => simpa only [Run.step, hs] using h
  | none =>
      have hnew : sub ∉ r.bus.subs := by
        intro hmem
        obtain ⟨s, hs', -⟩ := h.accounts sub hmem
        rw [hs] at hs'
        cases hs'
      simp only [Run.step, hs, EventBus.subscribe]
      constructor
      · simpa [List.nodup_append] using ⟨h.nodup, fun j hj => ne_of_mem_of_not_mem hj hnew⟩
      · exact h.seq
      · exact h.seqs
      · exact h.maxlen
      · exact h.ring
      · intro j s hj
        by_cases hjs : j = sub
        · subst hjs
          obtain rfl : {} = s := by simpa using hj
          exact bounded_new
        · exact h.bounded j s (by simpa [hjs] using hj)
      · intro j hj
        by_cases hjs : j = sub
        · simp [hjs] at hj
        · exact h.untaken j (by simpa [hjs] using hj)
      · intro j
        by_cases hjs : j = sub
        · simp [hjs]
        · simpa [hjs] using h.joined j
      · intro j hj
        by_cases hjs : j = sub
        · subst hjs
          refine ⟨{}, by simp, Nat.zero_le _, ?_⟩
          simpa [(h.untaken j hs).1, (h.untaken j hs).2] using Accounted.nil
        · have hold : j ∈ r.bus.subs := by simpa [hjs] using hj
          obtain ⟨s, hs', hacc⟩ := h.accounts j hold
          exact ⟨s, by simpa [hjs] using hs', by simpa [hjs] using hacc⟩

theorem sound_unsubscribe (h : r.Sound replay cleared) (sub : ℕ) :
    (r.step (.unsubscribe sub)).Sound replay cleared where
  nodup := h.nodup.filter _
  seq := h.seq
  seqs := h.seqs
  maxlen := h.maxlen
  ring := h.ring
  bounded := h.bounded
  untaken := h.untaken
  joined := h.joined
  accounts := fun j hj => h.accounts j (List.mem_of_mem_filter hj)

/-- A consumer with nothing to take waits. -/
theorem step_get_waits {sub : ℕ} (hs : ∀ s, r.heap sub = some s → s.q.get = none) :
    r.step (.get sub) = r := by
  simp only [Run.step]
  cases h : r.heap sub with
  | none => rfl
  | some s => simp [hs s h]

/-- A consumer takes the oldest event. -/
theorem step_get_takes {sub : ℕ} {s : Subscriber β} {e : Numbered β} {q : Fifo (Numbered β)}
    (hs : r.heap sub = some s) (hq : s.q.get = some (e, q)) :
    r.step (.get sub) = { r with
      heap := Function.update r.heap sub (some { s with q := q })
      taken := Function.update r.taken sub (r.taken sub ++ [e]) } := by
  simp [Run.step, hs, hq]

/-- A consumer takes the oldest event, or waits. -/
theorem sound_get (h : r.Sound replay cleared) (sub : ℕ) :
    (r.step (.get sub)).Sound replay cleared := by
  cases hs : r.heap sub with
  | none => rwa [step_get_waits (by simp [hs])]
  | some s =>
      cases hget : s.q.get with
      | none => rwa [step_get_waits (by simp [hs, hget])]
      | some eq =>
          obtain ⟨e, q⟩ := eq
          rw [step_get_takes hs hget]
          have hbounded := get_bounded (h.bounded sub s hs) hget
          obtain ⟨ys, hys, rfl⟩ := Fifo.get_eq_some.1 hget
          constructor
          · exact h.nodup
          · exact h.seq
          · exact h.seqs
          · exact h.maxlen
          · exact h.ring
          · intro j t hj
            by_cases hjs : j = sub
            · subst hjs
              obtain rfl := Option.some.inj ((Function.update_self j _ _).symm.trans hj)
              exact hbounded
            · exact h.bounded j t (by simpa [hjs] using hj)
          · intro j hj
            by_cases hjs : j = sub
            · simp [hjs] at hj
            · simpa [hjs] using h.untaken j (by simpa [hjs] using hj)
          · exact h.joined
          · intro j hj
            obtain ⟨t, ht, hlen, hacc⟩ := h.accounts j hj
            by_cases hjs : j = sub
            · subst hjs
              rw [hs] at ht
              cases ht
              rw [hys] at hacc
              exact ⟨_, Function.update_self _ _ _, hbounded.items, by simpa using hacc.take⟩
            · exact ⟨t, by simpa [hjs] using ht, hlen, by simpa [hjs] using hacc⟩

theorem sound_step (h : r.Sound replay cleared) (op : Op β) :
    (r.step op).Sound replay cleared := by
  cases op with
  | publish now event => exact sound_publish h now event
  | subscribe sub => exact sound_subscribe h sub
  | unsubscribe sub => exact sound_unsubscribe h sub
  | get sub => exact sound_get h sub

/-- **Every run keeps the accounts.** -/
theorem run_sound (replay : ℕ) (ops : List (Op β)) :
    (run replay ops).Sound replay fun _ => 0 := by
  induction ops using List.reverseRecOn with
  | nil => exact sound_init replay
  | append_singleton ops op ih => rw [run_concat]; exact sound_step ih op

/-! ## One subscriber apart from the others -/

/-- Two runs publish the same events, and `sub` sees the same of both. -/
structure SameFor (sub : ℕ) (r r' : Run β) : Prop where
  log : r.log = r'.log
  seq : r.bus.seq = r'.bus.seq
  ring : r.bus.ring = r'.bus.ring
  member : sub ∈ r.bus.subs ↔ sub ∈ r'.bus.subs
  heap : r.heap sub = r'.heap sub
  taken : r.taken sub = r'.taken sub
  joined : r.joined sub = r'.joined sub

variable {r' : Run β} {sub : ℕ}

/-- An operation of another subscriber shows `sub` nothing. -/
theorem sameFor_other (h : SameFor sub r r') {op : Op β} (hop : op.concerns sub = false) :
    SameFor sub (r.step op) r' := by
  cases op with
  | publish now event => cases hop
  | subscribe j =>
      have hj : sub ≠ j := fun e => by simp [Op.concerns, e] at hop
      simp only [Run.step]
      cases r.heap j with
      | some s => exact h
      | none => exact ⟨h.log, h.seq, h.ring, by simpa [EventBus.subscribe, hj] using h.member,
          by simpa [EventBus.subscribe, hj] using h.heap, h.taken, by simpa [hj] using h.joined⟩
  | unsubscribe j =>
      have hj : sub ≠ j := fun e => by simp [Op.concerns, e] at hop
      exact ⟨h.log, h.seq, h.ring, by simpa [Run.step, EventBus.unsubscribe, hj] using h.member,
        h.heap, h.taken, h.joined⟩
  | get j =>
      have hj : sub ≠ j := fun e => by simp [Op.concerns, e] at hop
      simp only [Run.step]
      cases r.heap j with
      | none => exact h
      | some s =>
          dsimp only
          cases s.q.get with
          | none => exact h
          | some eq => exact ⟨h.log, h.seq, h.ring, h.member, by simpa [hj] using h.heap,
              by simpa [hj] using h.taken, h.joined⟩

/-- An operation of `sub` or of the publisher shows it the same in both. -/
theorem sameFor_own (h : SameFor sub r r') (hr : r.Sound replay cleared)
    (hr' : r'.Sound replay cleared) {op : Op β} (hop : op.concerns sub = true) :
    SameFor sub (r.step op) (r'.step op) := by
  have hnum : ∀ now event, r.bus.number now event = r'.bus.number now event := fun now event => by
    simp [EventBus.number, h.seq]
  cases op with
  | publish now event =>
      refine ⟨?_, ?_, ?_, h.member, ?_, h.taken, h.joined⟩
      · simp [Run.step, h.log, hnum]
      · simp [Run.step, EventBus.publishNowait, h.seq]
      · simp [Run.step, EventBus.publishNowait, h.ring, hnum]
      · simp [publish_at hr, publish_at hr', h.member, h.heap, hnum]
  | subscribe j =>
      obtain rfl : j = sub := by simpa [Op.concerns] using hop
      simp only [Run.step, h.heap]
      cases r'.heap j with
      | some s => exact h
      | none => exact ⟨h.log, h.seq, h.ring, by simp [EventBus.subscribe],
          by simp [EventBus.subscribe], h.taken, by simp [h.log]⟩
  | unsubscribe j =>
      exact ⟨h.log, h.seq, h.ring, by simp [Run.step, EventBus.unsubscribe, h.member], h.heap,
        h.taken, h.joined⟩
  | get j =>
      obtain rfl : j = sub := by simpa [Op.concerns] using hop
      simp only [Run.step, h.heap]
      cases r'.heap j with
      | none => exact h
      | some s =>
          dsimp only
          cases s.q.get with
          | none => exact h
          | some eq => exact ⟨h.log, h.seq, h.ring, h.member, by simp, by simp [h.taken], h.joined⟩

/-- **What a subscriber sees is made by its own operations and the publisher's.** -/
theorem run_apart (replay : ℕ) (sub : ℕ) (ops : List (Op β)) :
    SameFor sub (run replay ops) (run replay (ops.filter (Op.concerns sub))) := by
  induction ops using List.reverseRecOn with
  | nil => exact ⟨rfl, rfl, rfl, Iff.rfl, rfl, rfl, rfl⟩
  | append_singleton ops op ih =>
      rw [List.filter_append, run_concat]
      cases hop : op.concerns sub with
      | false => simpa [hop] using sameFor_other ih hop
      | true =>
          rw [List.filter_singleton, hop, cond_true, run_concat]
          exact sameFor_own ih (run_sound _ _) (run_sound _ _) hop

/-- **The accounts of every run.**  The ring holds the newest events; of every subscriber's events
it is known, in order, which were taken or dropped and which its queue holds, and how many were
dropped; its queue never outgrows its depth; and it sees what it would see if there were no others.
-/
theorem run_accounts (replay : ℕ) (ops : List (Op β)) :
    (run replay ops).bus.ring.items = (run replay ops).log.rtake replay ∧
    ∀ sub, SameFor sub (run replay ops) (run replay (ops.filter (Op.concerns sub))) ∧
      (sub ∈ (run replay ops).bus.subs →
        ∃ s, (run replay ops).heap sub = some s ∧ s.q.items.length ≤ QUEUE_DEPTH ∧
          Accounted ((run replay ops).log.drop ((run replay ops).joined sub))
            ((run replay ops).taken sub) s.dropped s.q.items ∧
          ((run replay ops).taken sub).length + s.dropped + s.q.items.length =
            ((run replay ops).log.drop ((run replay ops).joined sub)).length) := by
  refine ⟨(run_sound replay ops).ring, fun sub => ⟨run_apart replay sub ops, fun hsub => ?_⟩⟩
  obtain ⟨s, hs, hlen, hacc⟩ := (run_sound replay ops).accounts sub hsub
  exact ⟨s, hs, hlen, hacc, hacc.total⟩

end OpenAisg.Api
