import OpenAisg.Session.Machine

/-!
# Late responses

A command that times out although it was acknowledged leaves a response behind.  The worker drains
the line before it takes the next command, but it does not poll, and a secondary in Normal Response
Mode speaks only when it is polled.  So the response comes in answer to the next request, and the
router takes it for that one's if the procedure is the same.

* `AskedFor`, `Traced` — the responses that were accepted, read off the log: the request of each was
  written before, and the frame came in a read after that.
* `traced_exchange` — a call accepts nothing else; `traces_closed` — nor does anything that the
  worker does between two heads of its loop.
* `debt` — what the secondary owes after a log; `Answers` — it answers each request that it
  accepted once and in order, with its procedure code.
* `Clear` — the condition on the requests of the run; `Misread` — what must not happen.
* `late_response_discarded` — it does not, in a run of which all requests meet the condition.
* `late_response_misread` — a worker that is in CONNECTED again, and takes the response to the
  abandoned command for the next one's.
-/

namespace OpenAisg.Session

open Hdlc Link Retap Prog Trace

variable {W : Type}

/-! ## What a call leaves in the log -/

/-- The response `f` to the message `m` was accepted after the events `past`: the request was
handed to the port no earlier than at position `n`, the frame came in a later read, and the router
let it through. -/
def AskedFor (n : ℕ) (past : List WireEvent) (m : Bytes) (f : Rx) : Prop :=
  ∃ pre g mid fs, past = pre ++ .tx g :: mid ∧ n ≤ pre.length ∧ kind g.ctrl = .iFrame ∧
    g.payload = m ∧ .batch fs ∈ mid ∧ f ∈ fs ∧ retapRouter m.head? f.payload = .accept

/-- The log has grown, and every response that was accepted since was asked for since. -/
def Traced (L L' : List WireEvent) : Prop :=
  L <+: L' ∧ ∀ past m f later, L' = past ++ .accepted m f :: later → L.length ≤ past.length →
    AskedFor L.length past m f

/-- An event that accepts no response. -/
def Plain (e : WireEvent) : Prop := ∀ m f, e ≠ .accepted m f

theorem plain_of_passive {e : WireEvent} (h : e.passive = true) : Plain e := by
  rintro m f rfl
  cases h

theorem plain_of_quiet {e : WireEvent} (h : e.quiet = true) : Plain e :=
  plain_of_passive (WireEvent.passive_of_quiet h)

namespace AskedFor

variable {n k : ℕ} {past : List WireEvent} {m : Bytes} {f : Rx}

/-- More may have happened since. -/
theorem later (h : AskedFor n past m f) (new : List WireEvent) : AskedFor n (past ++ new) m f := by
  obtain ⟨pre, g, mid, fs, rfl, hn, hg, hm, hb, hf, hr⟩ := h
  exact ⟨pre, g, mid ++ new, fs, by simp, hn, hg, hm, List.mem_append_left _ hb, hf, hr⟩

/-- An earlier position. -/
theorem mono (h : AskedFor n past m f) (hk : k ≤ n) : AskedFor k past m f := by
  obtain ⟨pre, g, mid, fs, hp, hn, h⟩ := h
  exact ⟨pre, g, mid, fs, hp, Nat.le_trans hk hn, h⟩

end AskedFor

namespace Traced

variable {L L' L'' : List WireEvent} {e : WireEvent}

theorem refl (L : List WireEvent) : Traced L L := by
  refine ⟨List.prefix_rfl, fun past m f later hL hlen => ?_⟩
  have h := congrArg List.length hL
  simp only [List.length_append, List.length_cons] at h
  omega

/-- A log that was not written to. -/
theorem of_eq (h : L' = L) : Traced L L' := h ▸ refl L

theorem trans (h : Traced L L') (h' : Traced L' L'') : Traced L L'' := by
  refine ⟨h.1.trans h'.1, fun past m f later hL hlen => ?_⟩
  by_cases hpast : past.length < L'.length
  · obtain ⟨rest, hrest⟩ := split_of_prefix h'.1 hL hpast
    exact h.2 past m f rest hrest hlen
  · exact (h'.2 past m f later hL (Nat.not_lt.1 hpast)).mono h.1.length_le

/-- One event more. -/
theorem concat (h : Traced L L') (he : ∀ m f, e = .accepted m f → AskedFor L.length L' m f) :
    Traced L (L' ++ [e]) := by
  refine ⟨h.1.trans (List.prefix_append _ _), fun past m f later hL hlen => ?_⟩
  rcases List.eq_nil_or_concat later with rfl | ⟨later', e', rfl⟩
  · obtain ⟨rfl, hx⟩ := List.append_inj' hL rfl
    cases hx
    exact he m f rfl
  · rw [List.concat_eq_append, ← List.cons_append, ← List.append_assoc] at hL
    exact h.2 past m f later' (List.append_inj' hL rfl).1 hlen

/-- One that accepts nothing. -/
theorem plain (L : List WireEvent) (he : Plain e) : Traced L (L ++ [e]) :=
  (refl L).concat fun m f h => absurd h (he m f)

end Traced

/-! ## One call -/

/-- Events were added, and only such responses were accepted among them. -/
def Adds (P : Bytes → Rx → Prop) (s t : LinkSt W Worker) : Prop :=
  ∃ new, t.log = s.log ++ new ∧ ∀ m f, .accepted m f ∈ new → P m f

instance {P : Bytes → Rx → Prop} : IsPreorder (LinkSt W Worker) (Adds P) where
  refl s := ⟨[], (List.append_nil _).symm, fun _ _ h => absurd h List.not_mem_nil⟩
  trans s t u := by
    rintro ⟨new, ht, h⟩ ⟨new', hu, h'⟩
    refine ⟨new ++ new', by rw [hu, ht, List.append_assoc], fun m f hf => ?_⟩
    rcases List.mem_append.1 hf with hf | hf
    · exact h m f hf
    · exact h' m f hf

section Call

variable {P : Bytes → Rx → Prop} {L L' : List WireEvent} {e : WireEvent} {s u : LinkSt W Worker}

theorem adds_of_eq (h : u.log = s.log) : Adds P s u :=
  ⟨[], by rw [h, List.append_nil], fun _ _ h => absurd h List.not_mem_nil⟩

theorem adds_plain (h : u.log = s.log ++ [e]) (he : Plain e) : Adds P s u := by
  refine ⟨[e], h, fun m f hf => ?_⟩
  exact absurd (List.mem_singleton.1 hf).symm (he m f)

/-- What is accepted among the added events was asked for. -/
theorem Traced.adds (h : Traced L s.log) (hadds : Adds P s u)
    (hP : ∀ m f, P m f → AskedFor L.length s.log m f) : Traced L u.log := by
  obtain ⟨new, hu, hnew⟩ := hadds
  rw [hu]
  clear hu
  induction new using List.reverseRecOn with
  | nil => rwa [List.append_nil]
  | append_singleton new e ih =>
      rw [← List.append_assoc]
      refine (ih fun m f hf => hnew m f (List.mem_append_left _ hf)).concat fun m f he => ?_
      subst he
      exact (hP m f (hnew m f (by simp))).later new

variable [Line W] {p : ℕ → Bool → Worker → Worker} {addr : Byte} {m : Bytes} {t : Time}
  {cmd : Frame} {ns : Seq} {x : Flight} {f : Rx} {fs : List Rx}

/-- The frame is the response to the message. -/
def RespondsTo (m : Bytes) (f : Rx) (m' : Bytes) (f' : Rx) : Prop :=
  m' = m ∧ f' = f ∧ retapRouter m.head? f.payload = .accept

theorem adds_write (g : Frame) : Moves (Adds P) (write g : LinkProg W Worker Unit) :=
  moves_write (fun _ _ => adds_of_eq rfl) fun _ _ he _ => adds_plain rfl (plain_of_quiet he)

omit [Line W] in
theorem adds_setPeer (a : Byte) (g : PeerState → PeerState) :
    Moves (Adds P) (setPeer a g : LinkProg W Worker Unit) := fun _ => adds_of_eq rfl

omit [Line W] in
theorem adds_bump (g : Stats → Stats) : Moves (Adds P) (bump g : LinkProg W Worker Unit) :=
  fun _ => adds_of_eq rfl

/-- The I-frame path accepts no other frame than its own, and only if the router does. -/
theorem adds_onIFrame : Moves (Adds (W := W) (RespondsTo m f))
    (onIFrame (sessionCall p addr m t) ns x f) := by
  unfold onIFrame
  refine moves_bind (moves_read _) fun pr => moves_ite (fun _ => ?_) fun _ => ?_
  · exact moves_bind (adds_bump _) fun _ => moves_bind (adds_write _) fun _ => moves_pure _
  refine moves_bind (fun _ => adds_plain rfl (by rintro m f ⟨⟩)) fun _ =>
    moves_bind (adds_setPeer _ _) fun _ => ?_
  have hrouter : (sessionCall p addr m t).router f.payload = retapRouter m.head? f.payload := rfl
  rw [hrouter]
  cases hroute : retapRouter m.head? f.payload with
  | accept =>
      refine moves_bind (adds_write _) fun _ => moves_bind (moves_onlyIf fun _ =>
        adds_setPeer _ _) fun _ => moves_bind (fun s => ⟨_, rfl, fun m' f' hf => ?_⟩) fun _ =>
          moves_pure _
      cases List.mem_singleton.1 hf
      exact ⟨rfl, rfl, hroute⟩
  | indication =>
      exact moves_bind (adds_write _) fun _ => moves_bind (fun _ => adds_of_eq rfl) fun _ =>
        moves_bind (fun _ => adds_of_eq rfl) fun _ => moves_pure _
  | unexpected =>
      exact moves_bind (adds_write _) fun _ => moves_bind (adds_bump _) fun _ => moves_pure _

/-- Nor does an S-frame, which may only have the command sent again. -/
theorem adds_onSequenced : Moves (Adds (W := W) (RespondsTo m f))
    (onSequenced (sessionCall p addr m t) cmd ns x f) := by
  have hrej : Moves (Adds (W := W) (RespondsTo m f)) (if !x.acked ∧ x.retxLeft ≠ 0 then do
        bump fun st => { st with retx := st.retx + 1 }
        write cmd
        pure (.next { x with retxLeft := x.retxLeft - 1 })
      else pure (.next x) : LinkProg W Worker (Step Bytes Flight)) :=
    moves_ite (fun _ => moves_bind (adds_bump _) fun _ => moves_bind (adds_write _) fun _ =>
      moves_pure _) fun _ => moves_pure _
  unfold onSequenced
  cases kind f.ctrl with
  | rr => exact moves_pure _
  | rnr => exact moves_bind (adds_bump _) fun _ => moves_pure _
  | rej => exact hrej
  | srej => exact hrej
  | iFrame => exact adds_onIFrame
  | uFrame => exact adds_onIFrame

/-- Nor does any frame of a batch. -/
theorem adds_onFrame : Moves (Adds (W := W) (RespondsTo m f))
    (onFrame (sessionCall p addr m t) cmd ns x f) := by
  unfold onFrame
  refine moves_ite (fun _ => moves_bind (adds_bump _) fun _ => moves_pure _) fun _ =>
    moves_bind (fun _ => adds_plain rfl (by rintro m f ⟨⟩)) fun _ =>
      moves_ite (fun _ => ?_) fun _ => moves_bind ?_ fun acked => adds_onSequenced
  · exact moves_ite (fun _ => moves_bind (adds_setPeer _ _) fun _ => moves_bind (adds_bump _)
      fun _ => moves_raise _) fun _ => moves_pure _
  · exact moves_ite (fun _ => moves_pure _) fun _ => moves_ite
      (fun _ => moves_bind (adds_setPeer _ _) fun _ => moves_pure _) fun _ => moves_pure _

/-- The call is running: its request is in the log, and whatever was accepted was asked for. -/
structure Sent (m : Bytes) (L L' : List WireEvent) (fs : List Rx) : Prop where
  traced : Traced L L'
  sent : ∃ g rest, L' = L ++ .tx g :: rest ∧ kind g.ctrl = .iFrame ∧ g.payload = m ∧
    ∀ f ∈ fs, ∃ gs, .batch gs ∈ rest ∧ f ∈ gs

/-- Events that accept nothing. -/
theorem Sent.plain (h : Sent m L L' []) (he : Plain e) : Sent m L (L' ++ [e]) [] := by
  obtain ⟨ht, g, rest, rfl, hg, hm, -⟩ := h
  refine ⟨ht.trans (Traced.plain _ he), g, rest ++ [e], by simp, hg, hm, fun _ hf => ?_⟩
  cases hf

/-- A read. -/
theorem Sent.batch (h : Sent m L L' []) (gs : List Rx) : Sent m L (L' ++ [.batch gs]) gs := by
  obtain ⟨ht, g, rest, rfl, hg, hm, -⟩ := h
  refine ⟨ht.trans (Traced.plain _ (by rintro m f ⟨⟩)), g, rest ++ [.batch gs], by simp, hg, hm,
    fun f hf => ⟨gs, by simp, hf⟩⟩

omit [Line W] in
/-- One of its frames has had its turn. -/
theorem Sent.took (h : Sent m L s.log (f :: fs)) (hadds : Adds (RespondsTo m f) s u) :
    Sent m L u.log fs := by
  obtain ⟨ht, g, rest, hL', hg, hm, hb⟩ := h
  have hasked : ∀ m' f', RespondsTo m f m' f' → AskedFor L.length s.log m' f' := by
    rintro m' f' ⟨rfl, rfl, hr⟩
    obtain ⟨gs, hgs, hf⟩ := hb f' (List.mem_cons_self ..)
    exact ⟨L, g, rest, gs, hL', Nat.le_refl _, hg, hm, hgs, hf, hr⟩
  have htraced := ht.adds hadds hasked
  obtain ⟨new, hu, -⟩ := hadds
  refine ⟨htraced, g, rest ++ new, by rw [hu, hL']; simp, hg, hm, fun f' hf' => ?_⟩
  obtain ⟨gs, hgs, hf⟩ := hb f' (List.mem_cons_of_mem _ hf')
  exact ⟨gs, List.mem_append_left _ hgs, hf⟩

/-- The end of a pass reads nothing and accepts nothing. -/
theorem keeps_passEnd : Moves (Keeps fun u : LinkSt W Worker => Sent m L u.log [])
    (passEnd (sessionCall p addr m t) cmd ns x) := by
  have hw : ∀ g, Moves (Keeps fun u : LinkSt W Worker => Sent m L u.log [])
      (write g : LinkProg W Worker Unit) := fun g =>
    moves_write (fun _ _ h => h) fun s e he _ h => h.plain (plain_of_quiet he)
  refine moves_bind (fun _ h => h) fun now => moves_ite (fun _ => ?_) fun _ =>
    moves_ite (fun _ => moves_raise _) fun _ => ?_
  · exact moves_bind (fun _ h => h) fun _ => moves_bind (hw _) fun _ => moves_pure _
  · refine moves_bind (fun _ h => h) fun _ => moves_bind (fun _ h => h) fun _ =>
      moves_bind (fun _ h => h) fun _ => moves_bind (moves_read _) fun pr => ?_
    exact moves_bind (hw _) fun _ => moves_pure _

/-- Whatever a call accepts it has asked for. -/
theorem traced_exchange (n : ℕ) (s : LinkSt W Worker) :
    Traced s.log (exchange n (sessionCall p addr m t) s).2.log := by
  refine wp.leaves (P := fun u : LinkSt W Worker => Traced s.log u.log) (wp_exchange
    (fun _ u => Sent m s.log u.log []) (fun fs _ u => Sent m s.log u.log fs)
    (D := fun _ u => Traced s.log u.log) (E := fun _ u => Traced s.log u.log)
    (S := fun u => Traced s.log u.log) ?_ (fun _ u hu => hu.traced) ?_ ?_ ?_)
  · -- the request is handed to the port, or the port fails over it
    rw [wp_write]
    refine wp_any (fun _ w => ?_) (fun _ w => ?_) (fun w => ?_) _
    · refine ⟨Traced.plain _ (by rintro m f ⟨⟩), _, [], rfl, kind_iCtrl _ _, rfl, fun f hf => ?_⟩
      cases hf
    · exact Traced.plain _ (by rintro m f ⟨⟩)
    · exact Traced.plain _ (by rintro m f ⟨⟩)
  · intro _ u hu
    rw [wp_readFrames]
    refine wp_any (fun fs w => hu.batch fs) (fun _ w => ?_) (fun w => ?_) _
    · exact (hu.plain (by rintro m f ⟨⟩)).traced
    · exact (hu.plain (by rintro m f ⟨⟩)).traced
  · intro f fs y u hu
    refine (adds_onFrame.wp u).mono (fun r v hv => ?_) (fun _ v hv => (hu.took hv).traced)
      fun v hv => (hu.took hv).traced
    cases r with
    | done _ => exact (hu.took hv).traced
    | next _ => exact hu.took hv
  · intro y u hu
    refine (keeps_passEnd.wp u).mono (fun r v hv => ?_) (fun _ v hv => (hv hu).traced)
      fun v hv => (hv hu).traced
    cases r with
    | done _ => exact (hv hu).traced
    | next _ => exact hv hu

end Call

/-! ## A run -/

/-- In the log of the worker. -/
def Traces (s t : St W) : Prop := Traced s.log t.log

instance : IsPreorder (St W) Traces where
  refl s := Traced.refl s.log
  trans _ _ _ h h' := Traced.trans h h'

theorem traces_of_eq {s t : St W} (h : t.log = s.log) : Traces s t := Traced.of_eq h

/-- The wire, one event at a time. -/
theorem traces_wire {s : St W} {e : WireEvent} (he : Plain e) :
    Traces s { s with log := s.log ++ [e] } := Traced.plain s.log he

theorem traces_lift {a b : LinkSt W Worker} (h : b.log = a.log) : Lift Traces a b :=
  fun _ _ _ => traces_of_eq h

section Steps

variable [Line W] [Clients W]

omit [Clients W] in
/-- The steps of the state machine accept nothing but what a request has asked for. -/
theorem traces_bus : BusClosed (W := W) Traces where
  world _ _ := traces_of_eq rfl
  calls _ _ := traces_of_eq rfl
  books _ _ _ := traces_of_eq rfl
  stored _ _ _ := traces_of_eq rfl
  report _ _ := traces_of_eq rfl
  baseline _ _ := traces_of_eq rfl
  parked _ := traces_of_eq rfl
  wire _ _ he := traces_wire (plain_of_quiet he)
  keepaliveTake addr vr f _ := by
    refine moves_bind (moves_onLink (moves_bind (fun s _ _ _ => traces_wire ?_) fun _ =>
      moves_bind (fun _ => traces_lift rfl) fun _ => ?_)) fun _ =>
        moves_onlyIf fun _ _ => traces_of_eq rfl
    · rintro m f ⟨⟩
    · exact moves_write (fun _ _ => traces_lift rfl)
        fun _ _ he _ _ _ _ => traces_wire (plain_of_quiet he)
  drainTake f := by
    refine moves_bind (fun s _ _ _ => traces_wire ?_) fun _ => moves_bind (moves_read _) fun _ =>
      moves_bind (fun s _ _ _ => traces_wire ?_) fun _ =>
        moves_bind (fun _ => traces_lift rfl) fun _ => ?_
    · rintro m f ⟨⟩
    · rintro m f ⟨⟩
    · exact moves_write (fun _ _ => traces_lift rfl)
        fun _ _ he _ _ _ _ => traces_wire (plain_of_quiet he)
  log _ _ he := traces_wire (plain_of_passive he)
  link _ _ _ _ _ := traces_of_eq rfl
  request _ _ _ _ _ n s _ _ _ := traced_exchange n s

omit [Clients W] in
theorem traces_steps : StepClosed (W := W) Traces where
  toBusClosed := traces_bus
  state _ _ _ := traces_of_eq rfl
  address _ _ _ := traces_of_eq rfl
  opened _ := traces_of_eq rfl
  closed _ := traces_of_eq rfl
  dropped _ := traces_of_eq rfl
  armed _ _ := traces_of_eq rfl

theorem traces_closed : PassClosed (W := W) Traces :=
  (traces_steps).passClosed (fun _ _ => traces_of_eq rfl) fun _ _ => traces_of_eq rfl

end Steps

/-! ## The secondary -/

/-- A response that the secondary owes: the position of the request in the log, and its
procedure code. -/
structure Owed where
  sent : ℕ
  code : Byte
  deriving DecidableEq

/-- The response that a frame is, by the mark of the line. -/
def responseOf (f : Rx) : Option Owed :=
  match f.tag, f.payload with
  | some n, code :: _ => some ⟨n, code⟩
  | _, _ => none

/-- The responses among the frames of a read. -/
def responses (fs : List Rx) : List Owed := fs.filterMap responseOf

/-- What the secondary owes for the request at position `n`. -/
def dueFor (n : ℕ) (g : Frame) : Option Owed :=
  if kind g.ctrl = .iFrame then g.payload.head?.map (⟨n, ·⟩) else none

/-- The log up to now: its length, and what the secondary owes. -/
structure Debt where
  now : ℕ := 0
  owed : List Owed := []

/-- What it owes after one event more.  A request that it accepts is queued behind the others, a
response is sent in its turn, and a SNRM makes it forget. -/
def owe (took : ℕ → Bool) (d : Debt) (e : WireEvent) : Debt :=
  { now := d.now + 1
    owed := match e with
      | .tx g | .txFault g => if took d.now then d.owed ++ (dueFor d.now g).toList else d.owed
      | .batch fs => d.owed.filter fun o => (responses fs).all fun r => r.sent < o.sent
      | .raw g _ => if g.ctrl = ctrlSnrm ||| pf then [] else d.owed
      | _ => d.owed }

/-- What it owes after the log, when these are the requests that it accepted. -/
def debt (took : ℕ → Bool) (L : List WireEvent) : Debt := L.foldl (owe took) {}

/-- What a read brings in of responses is owed, and comes in the order of the requests. -/
def answers (d : Debt) : WireEvent → Prop
  | .batch fs => (responses fs).Sublist d.owed
  | _ => True

instance (d : Debt) : ∀ e, Decidable (answers d e)
  | .batch fs => inferInstanceAs (Decidable ((responses fs).Sublist d.owed))
  | .tx _ | .txFault _ | .rx .. | .taken .. | .accepted .. | .fault | .raw .. => .isTrue trivial

/-- The secondary answers each request that it accepted once, and in order. -/
def Answers (took : ℕ → Bool) (L : List WireEvent) : Prop :=
  Always (fun past e => answers (debt took past) e) L

instance (took : ℕ → Bool) (L : List WireEvent) : Decidable (Answers took L) :=
  decidableFold (f := owe took) (Q := answers) {} L

section Secondary

variable {took : ℕ → Bool} {L M : List WireEvent} {d : Debt} {e : WireEvent} {o : Owed}

theorem debt_concat : debt took (L ++ [e]) = owe took (debt took L) e := List.foldl_concat ..

theorem debt_now (L : List WireEvent) : (debt took L).now = L.length := by
  induction L using List.reverseRecOn with
  | nil => rfl
  | append_singleton L e ih =>
      rw [debt_concat, List.length_append]
      exact congrArg (· + 1) ih

/-- Only a request makes it owe more, and no earlier one. -/
theorem mem_of_mem_owe (h : o ∈ (owe took d e).owed) (ho : o.sent < d.now) : o ∈ d.owed := by
  have hdue : ∀ g, o ∈ (if took d.now then d.owed ++ (dueFor d.now g).toList else d.owed) →
      o ∈ d.owed := by
    intro g h
    split_ifs at h
    · rcases List.mem_append.1 h with h | h
      · exact h
      · rw [Option.mem_toList, dueFor] at h
        split_ifs at h
        obtain ⟨c, -, rfl⟩ := Option.map_eq_some_iff.1 h
        exact absurd ho (Nat.lt_irrefl d.now)
    · exact h
  unfold owe at h
  cases e with
  | tx g => exact hdue g h
  | txFault g => exact hdue g h
  | batch fs => exact (List.mem_filter.1 h).1
  | raw g r =>
      simp only at h
      split_ifs at h
      · exact absurd h List.not_mem_nil
      · exact h
  | rx who f => exact h
  | taken who vr f => exact h
  | accepted m f => exact h
  | fault => exact h

/-- What it owes for an early request it has owed since. -/
theorem mem_debt_of_mem_append (h : o ∈ (debt took (L ++ M)).owed) (ho : o.sent < L.length) :
    o ∈ (debt took L).owed := by
  induction M using List.reverseRecOn with
  | nil => rwa [List.append_nil] at h
  | append_singleton M e ih =>
      rw [← List.append_assoc, debt_concat] at h
      refine ih (mem_of_mem_owe h ?_)
      rw [debt_now, List.length_append]
      omega

end Secondary

/-! ## The result -/

/-- When this request is written, the secondary owes no response to a request from position `lo`
to `hi` which the new request's router would take. -/
def clearAt (lo hi : ℕ) (d : Debt) : WireEvent → Prop
  | .tx g => hi ≤ d.now → kind g.ctrl = .iFrame → ∀ o ∈ d.owed,
      lo ≤ o.sent → o.sent < hi → retapRouter g.payload.head? [o.code] ≠ .accept
  | _ => True

instance (lo hi : ℕ) (d : Debt) : ∀ e, Decidable (clearAt lo hi d e)
  | .tx g => inferInstanceAs (Decidable (hi ≤ d.now → kind g.ctrl = .iFrame → ∀ o ∈ d.owed,
      lo ≤ o.sent → o.sent < hi → retapRouter g.payload.head? [o.code] ≠ .accept))
  | .txFault _ | .batch _ | .rx .. | .taken .. | .accepted .. | .fault | .raw .. => .isTrue trivial

/-- **The condition**: whenever a request is written after `b`, the secondary does not owe a
response to a request between `a` and `b` which the new request's router would take. -/
def Clear (took : ℕ → Bool) (a b u : St W) : Prop :=
  Always (fun past e => clearAt a.log.length b.log.length (debt took past) e) u.log

instance (took : ℕ → Bool) (a b u : St W) : Decidable (Clear took a b u) :=
  decidableFold (f := owe took) (Q := clearAt a.log.length b.log.length) {} u.log

/-- The event accepts a response to a request from position `lo` to `hi`. -/
def isLate (lo hi : ℕ) : WireEvent → Bool
  | .accepted _ f => f.tag.any fun k => lo ≤ k && k < hi
  | _ => false

/-- After `b` a request was completed with the response to a request between `a` and `b`. -/
def Misread (a b u : St W) : Prop :=
  ∃ e ∈ u.log.drop b.log.length, isLate a.log.length b.log.length e = true

instance (a b u : St W) : Decidable (Misread a b u) := inferInstanceAs (Decidable (∃ e ∈ _, _))

/-- A response that is accepted after `b` is to no request between `a` and `b`, under the
condition. -/
theorem Traced.notLate {took : ℕ → Bool} {a b u : St W} (h : Traced b.log u.log)
    (hclear : Clear took a b u) (hsec : Answers took u.log) {past later : List WireEvent}
    {m : Bytes} {f : Rx} (hlog : u.log = past ++ .accepted m f :: later)
    (hlen : b.log.length ≤ past.length) {k : ℕ} (hk : f.tag = some k) :
    ¬ (a.log.length ≤ k ∧ k < b.log.length) := by
  rintro ⟨hlo, hhi⟩
  obtain ⟨pre, g, mid, fs, rfl, hpre, hg, rfl, hb, hf, hr⟩ := h.2 past m f later hlog hlen
  obtain ⟨mid₁, mid₂, rfl⟩ := List.append_of_mem hb
  rcases hpl : f.payload with _ | ⟨c, rest⟩
  · rw [hpl] at hr
    cases hr
  -- the response was owed when it was read, and so when the request was written
  have hresp : (⟨k, c⟩ : Owed) ∈ responses fs :=
    List.mem_filterMap.2 ⟨f, hf, by rw [responseOf, hk, hpl]⟩
  have howed : (⟨k, c⟩ : Owed) ∈ (debt took (pre ++ .tx g :: mid₁)).owed :=
    (hsec (pre ++ .tx g :: mid₁) (.batch fs) (mid₂ ++ .accepted g.payload f :: later)
      (by rw [hlog]; simp)).subset hresp
  have hbefore := mem_debt_of_mem_append howed (Nat.lt_of_lt_of_le hhi hpre)
  -- but the router takes it
  refine hclear pre (.tx g) (mid₁ ++ .batch fs :: mid₂ ++ .accepted g.payload f :: later)
    (by rw [hlog]; simp) (by rwa [debt_now]) hg _ hbefore hlo hhi ?_
  rw [hpl] at hr
  exact hr

section Result

variable [Line W] [Clients W] {cfg : Config} {w : W} {took : ℕ → Bool} {a b u : St W}

/-- A command timed out in the pass from `a` to `b` although it was acknowledged, so that the
worker drains, and the run goes on to `u`.  Every request that is written then meets the
condition. -/
structure Quarantined (cfg : Config) (w : W) (took : ℕ → Bool) (a b u : St W) : Prop where
  head : Head cfg w a
  pass : Pass cfg a b
  draining : b.wk.state = .draining
  run : Relation.ReflTransGen (Pass cfg) b u
  secondary : Answers took u.log
  clear : Clear took a b u

/-- **No late response is misread** under the condition: the response to an abandoned command
completes no later one, whichever bus, secondary and other threads there are.  A read that is
not made in a call completes nothing, and of those that are, only the router can tell whose the
response is. -/
theorem late_response_discarded (h : Quarantined cfg w took a b u) : ¬ Misread a b u := by
  have htraced : Traced b.log u.log := (traces_closed).run h.run
  rintro ⟨e, he, hlate⟩
  obtain ⟨l, l', hl⟩ := List.append_of_mem he
  cases e with
  | accepted m f =>
      obtain ⟨k, hk, hkin⟩ := (Option.any_eq_true _ _).1 hlate
      have hlog : u.log = (u.log.take b.log.length ++ l) ++ .accepted m f :: l' := by
        rw [List.append_assoc, ← hl, List.take_append_drop]
      have hlen : b.log.length ≤ (u.log.take b.log.length ++ l).length := by
        have hgrown := htraced.1.length_le
        rw [List.length_append, List.length_take]
        omega
      exact htraced.notLate h.clear h.secondary hlog hlen hk (by simpa using hkin)
  | _ => cases hlate

end Result

/-! ## A response that is taken for the next one's -/

/-- A read that brings something in. -/
def speaks : WireEvent → Bool
  | .batch (_ :: _) => true
  | _ => false

/-- A frame with P=1 is written. -/
def polls : WireEvent → Bool
  | .tx g => g.ctrl &&& pf ≠ 0
  | _ => false

/-- Whether the secondary may speak: it has been polled since it last did. -/
def polled (L : List WireEvent) : Bool := L.foldl (fun may e => polls e || may && !speaks e) false

/-- Every read that brings something in answers a poll. -/
def SpeaksWhenPolled (L : List WireEvent) : Prop :=
  Always (fun past e => speaks e = true → polled past = true) L

instance (L : List WireEvent) : Decidable (SpeaksWhenPolled L) :=
  decidableFold (Q := fun may e => speaks e = true → may = true) false L

/-- A worker with room for the polls of a call. -/
def patient : Config := { monitor := .continuous, fuel := 100 }

/-- A device in Normal Response Mode.  It answers what the session asks at first, and to a GetTilt
and its polls with RR; the response, marked with the position of the request, answers the poll
bit of the second command.  `answer` is what it says to the next poll. -/
def slowTilt (second : CommandName) (answer : List Rx) : Bench ClientCall :=
  { plan :=
    { answer := fun i m => if i ≤ 14 then deviceAnswer [] m else none
      arrives := fun i => if 15 ≤ i ∧ i ≤ 75 then [fromDevice (rrCtrl 0 true)]
        else if i = 77 then
          [{ fromDevice (iCtrl 7 1) (okResponse Retap.getTilt [30, 0]) with tag := some 97 }]
        else if i = 78 then answer else []
      reply := fun _ => deviceReply
      calls := fun i => if i = 8 then
        [.submit .getTilt [] 5 0 (ms 20000), .submit second [] 5 0 (ms 20000)] else [] } }

/-- The device accepts both commands. -/
def tookBoth (n : ℕ) : Bool := n == 97 || n == 281

/-- After so many passes: the session is up after the first, the first command times out in the
second, the worker drains in the third and executes the second command in the fourth. -/
def slowTiltAt (second : CommandName) (answer : List Rx) : ℕ → St (Bench ClientCall)
  | 0 => St.init (slowTilt second answer)
  | n + 1 => runPasses patient 1 (slowTiltAt second answer n)

/-- Each of them is a head of the loop. -/
theorem head_slowTiltAt (second : CommandName) (answer : List Rx) (n : ℕ) :
    Head patient (slowTilt second answer) (slowTiltAt second answer n) := by
  induction n with
  | zero => exact .refl
  | succ n ih => exact ih.trans (reaches_runPasses patient 1 _)

/-- The answer to a GetAlarmStatus. -/
def statusAfter : List Rx :=
  [{ fromDevice (iCtrl 0 1) (okResponse getAlarmStatus []) with tag := some 281 }]

/-- A GetAlarmStatus does not take the response to a GetTilt. -/
theorem late_response_discarded_status :
    ¬ Misread (slowTiltAt .getAlarmStatus statusAfter 1)
      (slowTiltAt .getAlarmStatus statusAfter 2) (slowTiltAt .getAlarmStatus statusAfter 4) := by
  have hruns : (runPass patient (slowTiltAt .getAlarmStatus statusAfter 1)).1 = .ret true ∧
      (slowTiltAt .getAlarmStatus statusAfter 2).wk.state = .draining ∧
      Answers tookBoth (slowTiltAt .getAlarmStatus statusAfter 4).log ∧
      Clear tookBoth (slowTiltAt .getAlarmStatus statusAfter 1)
        (slowTiltAt .getAlarmStatus statusAfter 2) (slowTiltAt .getAlarmStatus statusAfter 4) := by
    decide +kernel
  obtain ⟨hpass, hst, hsec, hclear⟩ := hruns
  exact late_response_discarded ⟨head_slowTiltAt _ _ 1, pass_runPasses hpass, hst,
    (reaches_runPasses patient 1 _).trans (reaches_runPasses patient 1 _), hsec, hclear⟩

/-- **The quarantine ends with the response still owed.**  The first GetTilt times out acknowledged,
the worker drains and is CONNECTED again, and the second GetTilt returns the tilt of the first.
The secondary answers each request once and in order, and only when it is polled. -/
theorem late_response_misread :
    Head patient (slowTilt .getTilt []) (slowTiltAt .getTilt [] 4) ∧
      (slowTiltAt .getTilt [] 2).wk.state = .draining ∧
      ((slowTiltAt .getTilt [] 2).shared.futures 0).outcome =
        some (.error (.aisgTimeout 1 7 true 60)) ∧
      (slowTiltAt .getTilt [] 3).wk.state = .connected ∧
      ((slowTiltAt .getTilt [] 4).shared.futures 1).outcome = some (.ok (.tilt 3)) ∧
      Answers tookBoth (slowTiltAt .getTilt [] 4).log ∧
      SpeaksWhenPolled (slowTiltAt .getTilt [] 4).log ∧
      Misread (slowTiltAt .getTilt [] 1) (slowTiltAt .getTilt [] 2) (slowTiltAt .getTilt [] 4) :=
  ⟨head_slowTiltAt _ _ 4, by decide +kernel⟩

end OpenAisg.Session
