import OpenAisg.Link.Channel
import OpenAisg.Session.Requests

/-!
# Requests over a line that loses frames

The calls of the tests, one after the other, to the strict secondary behind a line on which any
frame may be lost and any may be late.  A call can fail here; what must not happen is that a
message is acted on twice, or that a response is taken for another's.

* `callEach` — the calls, up to the first that raises.
* `Scene` — the two stations and the frames between them, whatever the line is made of.
* `Level` — what relates the two stations between calls.  V(R) of the primary is not in it:
  a lost I-frame of the secondary leaves it behind.
* `Calling` — the same while a call runs.  The frames on their way fall into two parts: in the
  first no response is left to take up, in the second every N(R) is the current one.
* `Calling.sent_rr`, `Calling.sent_command`, `Calling.batch` — what the call does to the line,
  and `Calling.returned`, `Calling.failed` — how it ends.
* `Delivered` — what is to be said of whole lists of calls.
* `callEach_delivered` — the messages whose responses were returned were acted on once each, in
  order; of the others at most the one that failed was, and it was if the failure says
  "acknowledged".
-/

namespace OpenAisg.Session

open Hdlc Link Prog

/-! ## The calls -/

section

variable {W : Type} [Line W] [Channel W]

/-- The secondary is set up, and `exchange` is called. -/
def callOne (fuel : ℕ) (addr : Byte) (r : Request) : LinkProg W (List Bytes) Bytes := do
  modify fun s => { s with world := Medium.setSec r.setUp s.world }
  exchange fuel (r.call addr)

/-- The calls up to the first that raises: the payloads they returned, and the exception. -/
def callEach (fuel : ℕ) (addr : Byte) :
    List Request → LinkProg W (List Bytes) (List Bytes × Option Exn)
  | [] => pure ([], none)
  | r :: rs =>
      handle (do
          let payload ← callOne fuel addr r
          let rest ← callEach fuel addr rs
          pure (payload :: rest.1, rest.2))
        fun e => some (pure ([], some e))

end

/-- `isinstance(e, (AisgTimeout, LinkReset, OSError))`. -/
def Broken (e : Exn) : Prop := TimedOut e ∨ e.isReset = true ∨ ∃ msg, e = .osError msg

/-! ## The two stations and the frames between them -/

/-- What counts of a state. -/
structure Scene where
  sec : FakeSecondary
  inbox : List Rx
  executed : List Bytes
  /-- The sequence numbers of the primary. -/
  peer : PeerState
  /-- The indications that were reported. -/
  seen : List Bytes

/-- The scene that a state of the line and the link object shows. -/
def scene {W : Type} [Medium W] (addr : Byte) (t : LinkSt W (List Bytes)) : Scene where
  sec := Medium.sec t.world
  inbox := Medium.inbox t.world
  executed := Medium.executed t.world
  peer := t.link.peers addr
  seen := t.user

/-- The secondary hears the frame, and `gs` is what gets through of its answer. -/
def Scene.heard (c : Scene) (f : Frame) (gs : List Rx) : Scene :=
  { c with
    sec := (c.sec.hear f).2
    inbox := c.inbox ++ gs
    executed := if c.sec.takes f then c.executed ++ [f.payload] else c.executed }

/-- The secondary expects the next command, and nothing on the line can be taken for its
acknowledgement or its response. -/
structure Level (addr : Byte) (c : Scene) : Prop where
  station : c.sec.addr = addr
  strict : c.sec.strict = true
  rejects : ∀ what, c.sec.rejectWith = some what → kind (what ||| pf) = .uFrame
  idle : c.sec.pending = none
  vs : c.peer.vs = c.sec.vr
  source : ∀ f ∈ c.inbox, f.addr = addr
  old : ∀ f ∈ c.inbox, Old c.sec.vr f
  nothing : (reads c.peer.vr c.inbox).1 = []

/-- The indications that were reported from `s` to `c` are some of `reports`, in their order. -/
def SomeReported (reports : List Bytes) (s c : Scene) : Prop :=
  ∃ done, c.seen = s.seen ++ done ∧ done.Sublist reports

/-- The call of `r` returned `payload`. -/
structure CallReturned (addr : Byte) (r : Request) (s : Scene) (payload : Bytes) (c : Scene) :
    Prop where
  level : Level addr c
  payload : payload = r.reply
  executed : c.executed = s.executed ++ [r.message]
  seen : SomeReported r.reports s c

/-- However the call of `r` ended. -/
structure AtMostOnce (r : Request) (s c : Scene) : Prop where
  executed : c.executed = s.executed ∨ c.executed = s.executed ++ [r.message]
  seen : SomeReported r.reports s c

/-- The call of `r` raised. -/
structure CallFailed (r : Request) (s : Scene) (e : Exn) (c : Scene) : Prop
    extends AtMostOnce r s c where
  broken : Broken e
  acked : e.isAckedTimeout = true → c.executed = s.executed ++ [r.message]

/-! ## While a call runs -/

section Call

variable {r : Request} {addr : Byte} {s c : Scene} {fs : List Rx} {f : Rx} {taken acked : Bool}

/-- The frames `fs`, of a receiver that expects N(S) = `vr`, are some from before the secondary
acted on the message, with no response to take up, and some whose N(R) can only be `n`. -/
def Parted (taken : Bool) (n vr : Seq) (fs : List Rx) : Prop :=
  ∃ before after, fs = before ++ after ∧ (taken = false → before = []) ∧
    (∀ pl ∈ (reads vr before).1, isIndication pl = true) ∧ ∀ f ∈ after, Old n f

/-- After the first frame, whether it was taken up or not. -/
theorem Parted.tail {n vr vr' : Seq} (h : Parted taken n vr (f :: fs))
    (hvr : ∀ gs, ∀ pl ∈ (reads vr' gs).1, pl ∈ (reads vr (f :: gs)).1) :
    Parted taken n vr' fs := by
  obtain ⟨before, after, hq, hno, hind, hold⟩ := h
  cases before with
  | nil =>
      refine ⟨[], fs, rfl, fun _ => rfl, fun pl hp => absurd hp List.not_mem_nil, fun g hg => ?_⟩
      rw [List.nil_append] at hq
      exact hold g (hq ▸ List.mem_cons_of_mem _ hg)
  | cons b before =>
      rw [List.cons_append, List.cons.injEq] at hq
      obtain ⟨rfl, hq⟩ := hq
      exact ⟨before, after, hq, fun h0 => absurd (hno h0) (List.cons_ne_nil _ _),
        fun pl hp => hind pl (hvr before pl hp), hold⟩

/-- Behind a response. -/
theorem Parted.behind {n vr : Seq} (h : Parted taken n vr (f :: fs)) {rest : List Rx → List Bytes}
    (hvr : ∀ gs, (reads vr (f :: gs)).1 = f.payload :: rest gs)
    (hpl : isIndication f.payload = false) : ∀ g ∈ fs, Old n g := by
  obtain ⟨before, after, hq, -, hind, hold⟩ := h
  cases before with
  | nil =>
      intro g hg
      rw [List.nil_append] at hq
      exact hold g (hq ▸ List.mem_cons_of_mem _ hg)
  | cons b before =>
      rw [List.cons_append, List.cons.injEq] at hq
      obtain ⟨rfl, -⟩ := hq
      rw [hvr] at hind
      have := hind _ (List.mem_cons_self ..)
      rw [hpl] at this
      cases this

/-- The call of `r` that began in `s`, while the frames `fs` are being read.  `taken`: the
secondary has acted on the message. -/
structure Calling (r : Request) (addr : Byte) (s : Scene) (fs : List Rx) (taken acked : Bool)
    (c : Scene) : Prop where
  station : c.sec.addr = addr
  strict : c.sec.strict = true
  rejects : ∀ what, c.sec.rejectWith = some what → kind (what ||| pf) = .uFrame
  reply : c.sec.responseFor r.message = r.reply
  vr : c.sec.vr = if taken then s.sec.vr + 1 else s.sec.vr
  executed : c.executed = s.executed ++ if taken then [r.message] else []
  idle : taken = false → c.sec.pending = none
  vs : c.peer.vs = if acked then s.sec.vr + 1 else s.sec.vr
  acked : acked = true → taken = true
  source : ∀ f ∈ fs ++ c.inbox, f.addr = addr
  told : ∃ done, c.seen = s.seen ++ done ∧ (∀ pl ∈ done, isIndication pl = true) ∧
    (done ++ (reads c.peer.vr (fs ++ c.inbox)).1 ++ c.sec.coming).Sublist
      (r.reports ++ if taken then [r.reply] else [])
  queue : Parted taken c.sec.vr c.peer.vr (fs ++ c.inbox)

/-- A list that ends with `b`, which is the first element that is not among `xs`. -/
theorem last_of_sublist {α : Type} {l₁ l₂ xs : List α} {a b : α}
    (h : (l₁ ++ a :: l₂).Sublist (xs ++ [b])) (ha : a ∉ xs) : a = b ∧ l₂ = [] ∧ l₁.Sublist xs := by
  obtain ⟨u, v, huv, hu, hv⟩ := List.sublist_append_iff.1 h
  have hau : a ∉ u := fun hmem => ha (hu.subset hmem)
  rcases List.sublist_singleton.1 hv with rfl | rfl
  · rw [List.append_nil] at huv
    exact absurd (huv ▸ List.mem_append_right _ (List.mem_cons_self ..)) hau
  · have hrev := congrArg List.reverse huv
    simp only [List.reverse_append, List.reverse_cons, List.append_assoc, List.reverse_nil,
      List.nil_append, List.cons_append] at hrev
    rcases List.eq_nil_or_concat' l₂ with rfl | ⟨l, c, rfl⟩
    · simp only [List.reverse_nil, List.nil_append, List.cons.injEq, List.reverse_inj] at hrev
      exact ⟨hrev.1, rfl, hrev.2 ▸ hu⟩
    · rw [List.reverse_append, List.reverse_singleton, List.singleton_append, List.cons_append,
        List.cons.injEq] at hrev
      refine absurd ?_ hau
      rw [← List.mem_reverse, ← hrev.2]
      simp

namespace Calling

/-- The command is acknowledged. -/
theorem ack (h : Calling r addr s fs taken acked c) (ht : taken = true) :
    Calling r addr s fs taken true { c with peer := { c.peer with vs := s.sec.vr + 1 } } :=
  ⟨h.station, h.strict, h.rejects, h.reply, h.vr, h.executed, h.idle, rfl, fun _ => ht, h.source,
    h.told, h.queue⟩

/-- A frame that is not taken up. -/
theorem skip (h : Calling r addr s (f :: fs) taken acked c)
    (hf : ¬ (kind f.ctrl = .iFrame ∧ nsOf f.ctrl = c.peer.vr)) :
    Calling r addr s fs taken acked c := by
  have hreads : ∀ gs, reads c.peer.vr (f :: gs) = reads c.peer.vr gs := fun gs => if_neg hf
  have htold := h.told
  rw [List.cons_append, hreads] at htold
  refine ⟨h.station, h.strict, h.rejects, h.reply, h.vr, h.executed, h.idle, h.vs, h.acked,
    fun g hg => h.source g (List.mem_cons_of_mem _ hg), htold, ?_⟩
  exact Parted.tail h.queue fun gs pl hp => by rwa [hreads]

/-- An indication that is reported. -/
theorem reported (h : Calling r addr s (f :: fs) taken acked c) (hk : kind f.ctrl = .iFrame)
    (hns : nsOf f.ctrl = c.peer.vr) (hpl : isIndication f.payload = true) :
    Calling r addr s fs taken acked { c with
      peer := { c.peer with vr := nsOf f.ctrl + 1 }, seen := c.seen ++ [f.payload] } := by
  have hreads : ∀ gs, (reads c.peer.vr (f :: gs)).1 =
      f.payload :: (reads (nsOf f.ctrl + 1) gs).1 := fun gs => by
    rw [reads, if_pos ⟨hk, hns⟩, hns]
  refine ⟨h.station, h.strict, h.rejects, h.reply, h.vr, h.executed, h.idle, h.vs, h.acked,
    fun g hg => h.source g (List.mem_cons_of_mem _ hg), ?_, ?_⟩
  · obtain ⟨done, huser, hall, hsub⟩ := h.told
    refine ⟨done ++ [f.payload], by rw [huser, List.append_assoc], fun pl hmem => ?_, ?_⟩
    · rcases List.mem_append.1 hmem with hmem | hmem
      · exact hall pl hmem
      · rwa [List.mem_singleton.1 hmem]
    · rw [List.cons_append, hreads] at hsub
      simpa using hsub
  · refine Parted.tail h.queue fun gs pl hp => ?_
    rw [hreads]
    exact List.mem_cons_of_mem _ hp

/-- An I-frame that is taken up and then forgotten. -/
theorem forgotten (h : Calling r addr s (f :: fs) taken acked c) (hk : kind f.ctrl = .iFrame)
    (hns : nsOf f.ctrl = c.peer.vr) :
    Calling r addr s fs taken acked { c with peer := { c.peer with vr := nsOf f.ctrl + 1 } } := by
  have hreads : ∀ gs, (reads c.peer.vr (f :: gs)).1 =
      f.payload :: (reads (nsOf f.ctrl + 1) gs).1 := fun gs => by
    rw [reads, if_pos ⟨hk, hns⟩, hns]
  refine ⟨h.station, h.strict, h.rejects, h.reply, h.vr, h.executed, h.idle, h.vs, h.acked,
    fun g hg => h.source g (List.mem_cons_of_mem _ hg), ?_, ?_⟩
  · obtain ⟨done, huser, hall, hsub⟩ := h.told
    refine ⟨done, huser, hall, List.Sublist.trans ?_ hsub⟩
    rw [List.cons_append, hreads]
    exact ((List.Sublist.refl done).append (List.sublist_cons_self ..)).append (List.Sublist.refl _)
  · refine Parted.tail h.queue fun gs pl hp => ?_
    rw [hreads]
    exact List.mem_cons_of_mem _ hp

/-- The response: the secondary has acted, and nothing that is still on the line matters. -/
theorem last (h : Calling r addr s (f :: fs) taken acked c) (hk : kind f.ctrl = .iFrame)
    (hns : nsOf f.ctrl = c.peer.vr) (hr : r.Proper) (hpl : isIndication f.payload = false) :
    taken = true ∧ f.payload = r.reply ∧ SomeReported r.reports s c ∧ c.sec.pending = none ∧
      (reads (nsOf f.ctrl + 1) c.inbox).1 = [] ∧ ∀ g ∈ c.inbox, Old (s.sec.vr + 1) g := by
  have hreads : ∀ gs, (reads c.peer.vr (f :: gs)).1 =
      f.payload :: (reads (nsOf f.ctrl + 1) gs).1 := fun gs => by
    rw [reads, if_pos ⟨hk, hns⟩, hns]
  have hnot : f.payload ∉ r.reports := fun hmem => by
    have := hr.reports _ hmem
    rw [hpl] at this
    cases this
  obtain ⟨done, huser, -, hsub⟩ := h.told
  rw [List.cons_append, hreads, List.append_assoc, List.cons_append] at hsub
  have htaken : taken = true := by
    by_contra hno
    rw [if_neg hno, List.append_nil] at hsub
    exact hnot (hsub.subset (List.mem_append_right _ (List.mem_cons_self ..)))
  rw [if_pos htaken] at hsub
  obtain ⟨hreply, hrest, hdone⟩ := last_of_sublist hsub hnot
  obtain ⟨hnone, hcoming⟩ := List.append_eq_nil_iff.1 hrest
  rw [reads_append] at hnone
  obtain ⟨hfs, hinbox⟩ := List.append_eq_nil_iff.1 hnone
  rw [reads_snd_of_nil hfs] at hinbox
  refine ⟨htaken, hreply, ⟨done, huser, hdone⟩, ?_, hinbox, ?_⟩
  · unfold FakeSecondary.coming at hcoming
    have hp := (List.append_eq_nil_iff.1 hcoming).2
    cases hpend : c.sec.pending with
    | none => rfl
    | some p => rw [hpend] at hp; cases hp
  · have hbehind := Parted.behind h.queue hreads hpl
    rw [h.vr, if_pos htaken] at hbehind
    exact fun g hg => hbehind g (List.mem_append_right _ hg)

/-- What is to come are reports and the response. -/
theorem mem_coming (h : Calling r addr s fs taken acked c) {pl : Bytes} (hpl : pl ∈ c.sec.coming) :
    pl ∈ r.reply :: r.reports := by
  obtain ⟨done, -, -, htold⟩ := h.told
  rcases List.mem_append.1 (htold.subset (List.mem_append_right _ hpl)) with hmem | hmem
  · exact List.mem_cons_of_mem _ hmem
  · cases taken with
    | true => exact List.mem_singleton.1 hmem ▸ List.mem_cons_self ..
    | false => cases hmem

/-- An answer of the secondary, or what is left of it, is on the line. -/
theorem arriving (h : Calling r addr s fs taken acked c) {gs gs' : List Rx} {sec' : FakeSecondary}
    (ha : Arriving c.sec gs sec') (hsub : gs'.Sublist gs) :
    Calling r addr s fs taken acked { c with sec := sec', inbox := c.inbox ++ gs' } := by
  refine ⟨ha.addr.trans h.station, ha.strict.trans h.strict, fun what hw => ?_, ?_,
    ha.vr.trans h.vr, h.executed, fun h0 => ha.pending (h.idle h0), h.vs, h.acked,
    fun g hg => ?_, ?_, ?_⟩
  · rcases ha.rejectWith with hr | hr
    · exact h.rejects what (hr.symm.trans hw)
    · cases hr.symm.trans hw
  · have hreply := h.reply
    unfold FakeSecondary.responseFor at hreply ⊢
    rw [ha.response, ha.responses]
    exact hreply
  · rw [← List.append_assoc, List.mem_append] at hg
    rcases hg with hg | hg
    · exact h.source g hg
    · exact (ha.source g (hsub.subset hg)).trans h.station
  · obtain ⟨done, huser, hall, htold⟩ := h.told
    refine ⟨done, huser, hall, List.Sublist.trans ?_ htold⟩
    dsimp only
    rw [← List.append_assoc fs, reads_append, ← List.append_assoc done, List.append_assoc]
    exact List.Sublist.append (List.Sublist.refl _) (ha.coming _ _ hsub)
  · obtain ⟨before, after, hq, hno, hind, hold⟩ := h.queue
    refine ⟨before, after ++ gs', ?_, hno, hind, fun g hg => ?_⟩
    · dsimp only
      rw [← List.append_assoc, hq, List.append_assoc]
    · dsimp only
      rw [ha.vr]
      rcases List.mem_append.1 hg with hg | hg
      · exact hold g hg
      · exact ha.old g (hsub.subset hg)

/-- From here on the secondary has acted on the message. -/
theorem acts (h : Calling r addr s fs false acked c) (hr : r.Proper) (hns : s.sec.vr = c.sec.vr) :
    Calling r addr s fs true acked { c with
      sec := c.sec.took r.message, executed := c.executed ++ [r.message] } := by
  obtain ⟨done, huser, hall, htold⟩ := h.told
  rw [if_neg (by simp), List.append_nil] at htold
  refine ⟨h.station, h.strict, h.rejects, h.reply, ?_, ?_, fun h0 => (by cases h0), h.vs,
    fun _ => rfl, h.source, ⟨done, huser, hall, ?_⟩, ?_⟩
  · rw [if_pos rfl, hns]
    rfl
  · dsimp only
    rw [h.executed]
    simp
  · -- the response joins what is to come
    have hc := htold.append (List.Sublist.refl [r.reply])
    simp only [FakeSecondary.coming, h.idle rfl, Option.toList_none, List.append_nil] at hc
    simpa [FakeSecondary.coming, FakeSecondary.took, h.reply, List.append_assoc] using hc
  · refine ⟨fs ++ c.inbox, [], (List.append_nil _).symm, fun h0 => (by cases h0),
      fun pl hpl => hr.reports pl ?_, fun g hg => absurd hg List.not_mem_nil⟩
    exact htold.subset (List.mem_append_left _ (List.mem_append_right _ hpl))

/-- However the call ends. -/
theorem atMostOnce (h : Calling r addr s fs taken acked c) (hr : r.Proper) : AtMostOnce r s c := by
  obtain ⟨done, huser, hall, htold⟩ := h.told
  refine ⟨?_, done, huser, ?_⟩
  · cases taken with
    | true => exact Or.inr h.executed
    | false => exact Or.inl (h.executed.trans (List.append_nil _))
  · -- the indications of the sublist
    have hdone : done.Sublist (r.reports ++ if taken then [r.reply] else []) :=
      List.Sublist.trans (by rw [List.append_assoc]; exact List.sublist_append_left ..) htold
    have hfilter := hdone.filter isIndication
    have hreply : ((if taken then [r.reply] else []).filter isIndication) = [] := by
      cases taken with
      | true => simp [hr.isIndication_reply]
      | false => rfl
    rwa [List.filter_append, hreply, List.append_nil, List.filter_eq_self.2 hall,
      List.filter_eq_self.2 hr.reports] at hfilter

/-- It ends with an exception. -/
theorem failed (h : Calling r addr s fs taken acked c) (hr : r.Proper) {e : Exn} (he : Broken e)
    (ha : e.isAckedTimeout = true → acked = true) : CallFailed r s e c := by
  refine ⟨h.atMostOnce hr, he, fun hacked => ?_⟩
  rw [h.executed, if_pos (h.acked (ha hacked))]

/-- The port fails. -/
theorem osError (h : Calling r addr s fs taken acked c) (hr : r.Proper) (msg : String) :
    CallFailed r s (.osError msg) c :=
  h.failed hr (Or.inr (Or.inr ⟨msg, rfl⟩)) fun h0 => (by cases h0)

/-- The response ends the call. -/
theorem returned (h : Calling r addr s (f :: fs) taken acked c) (hr : r.Proper)
    (hk : kind f.ctrl = .iFrame) (hns : nsOf f.ctrl = c.peer.vr)
    (hpl : isIndication f.payload = false) {p : PeerState} (hvs : p.vs = s.sec.vr + 1)
    (hvr : p.vr = nsOf f.ctrl + 1) : CallReturned addr r s f.payload { c with peer := p } := by
  obtain ⟨htaken, hreply, ⟨done, huser, hdone⟩, hidle, hnothing, hold⟩ := h.last hk hns hr hpl
  have hsecvr := h.vr
  have hexecuted := h.executed
  rw [if_pos htaken] at hsecvr hexecuted
  refine ⟨⟨h.station, h.strict, h.rejects, hidle, ?_, ?_, ?_, ?_⟩, hreply, hexecuted, done, huser,
    hdone⟩
  · dsimp only
    rw [hvs, hsecvr]
  · exact fun g hg => h.source g (List.mem_cons_of_mem _ (List.mem_append_right _ hg))
  · dsimp only
    rw [hsecvr]
    exact hold
  · dsimp only
    rw [hvr]
    exact hnothing

end Calling

/-! ### A frame of the primary -/

/-- The frame was lost or heard. -/
def Scene.Sent (c : Scene) (f : Frame) (c' : Scene) : Prop :=
  c' = c ∨ ∃ gs, gs.Sublist (c.sec.hear f).1 ∧ c' = c.heard f gs

/-- Before a call begins, or once a report is made. -/
theorem Scene.Sent.seen {c c' : Scene} {f : Frame} (h : c.Sent f c') (pls : List Bytes) :
    Scene.Sent { c with seen := pls } f { c' with seen := pls } := by
  rcases h with rfl | ⟨gs, hsub, rfl⟩
  · exact Or.inl rfl
  · exact Or.inr ⟨gs, hsub, rfl⟩

/-- An RR without P leaves everything as it is. -/
theorem Scene.Sent.release {c c' : Scene} (vr : Seq)
    (h : c.Sent (rrFrame c.sec.addr vr false) c') : c' = c := by
  rcases h with h | ⟨gs, hsub, rfl⟩
  · exact h
  · rw [c.sec.hear_release] at hsub
    rw [Scene.heard, FakeSecondary.takes_rrFrame, c.sec.hear_release, List.sublist_nil.1 hsub,
      List.append_nil]
    rfl

namespace Calling

/-- The answer to an RR. -/
theorem arriving_rr (h : Calling r addr s fs taken acked c) (vr : Seq) (poll : Bool) :
    Arriving c.sec (c.sec.hear (rrFrame addr vr poll)).1 (c.sec.hear (rrFrame addr vr poll)).2 := by
  have ha := c.sec.arriving_rrFrame vr poll
  rwa [h.station] at ha

/-- An RR is sent. -/
theorem sent_rr (h : Calling r addr s fs taken acked c) {vr : Seq} {poll : Bool} {c' : Scene}
    (hc : c.Sent (rrFrame addr vr poll) c') : Calling r addr s fs taken acked c' := by
  rcases hc with rfl | ⟨gs, hsub, rfl⟩
  · exact h
  · rw [Scene.heard, FakeSecondary.takes_rrFrame]
    exact h.arriving (h.arriving_rr vr poll) hsub

/-- The command, as the secondary sees it. -/
theorem command (h : Calling r addr s fs taken acked c) (hvs : s.peer.vs = s.sec.vr) :
    commandFrame (r.call addr) s.peer = ⟨c.sec.addr, iCtrl s.sec.vr s.peer.vr, r.message⟩ := by
  rw [h.station, ← hvs]
  rfl

/-- What the secondary answers to the command: it acts on the message now and not before, or
it does not act on it. -/
theorem hear_command (h : Calling r addr s fs taken acked c) (hr : r.Proper)
    (hvs : s.peer.vs = s.sec.vr) :
    ∃ taken' u, Calling r addr s fs taken' acked { c with
        sec := u
        executed := if c.sec.takes (commandFrame (r.call addr) s.peer) then
          c.executed ++ [r.message] else c.executed } ∧
      Arriving u (c.sec.hear (commandFrame (r.call addr) s.peer)).1
        (c.sec.hear (commandFrame (r.call addr) s.peer)).2 := by
  rw [h.command hvs]
  by_cases htakes : c.sec.takes ⟨c.sec.addr, iCtrl s.sec.vr s.peer.vr, r.message⟩ = true
  · obtain ⟨hns, hhear⟩ := FakeSecondary.hear_command h.strict htakes
    rw [if_pos htakes, hhear]
    cases taken with
    | true =>
        have hnext : ∀ n : Seq, n ≠ n + 1 := by decide
        exact absurd (hns.trans h.vr) (hnext _)
    | false => exact ⟨true, _, h.acts hr hns, FakeSecondary.arriving_next _⟩
  · have ha := FakeSecondary.arriving_command h.rejects (Bool.eq_false_iff.2 htakes)
    rw [if_neg htakes]
    exact ⟨taken, c.sec, h, ha⟩

/-- The command is sent, for the first time or again. -/
theorem sent_command (h : Calling r addr s fs taken acked c) (hr : r.Proper)
    (hvs : s.peer.vs = s.sec.vr) {c' : Scene}
    (hc : c.Sent (commandFrame (r.call addr) s.peer) c') :
    ∃ taken', Calling r addr s fs taken' acked c' := by
  rcases hc with rfl | ⟨gs, hsub, rfl⟩
  · exact ⟨taken, h⟩
  · obtain ⟨taken', u, hu, ha⟩ := h.hear_command hr hvs
    exact ⟨taken', hu.arriving ha hsub⟩

/-- What the secondary may answer fits the line. -/
theorem fits_command (h : Calling r addr s fs taken acked c) (hr : r.Proper)
    (hvs : s.peer.vs = s.sec.vr) {P : Bytes → Prop} (hnil : P [])
    (hP : ∀ pl ∈ r.reply :: r.reports, P pl) :
    ∀ g ∈ (c.sec.hear (commandFrame (r.call addr) s.peer)).1, P g.payload := by
  obtain ⟨taken', u, hu, ha⟩ := h.hear_command hr hvs
  intro g hg
  rcases ha.carries g hg with hempty | hmem
  · rw [hempty]
    exact hnil
  · exact hP _ (hu.mem_coming hmem)

/-- What the secondary may answer to an RR fits the line. -/
theorem fits_rr (h : Calling r addr s fs taken acked c) {P : Bytes → Prop} (hnil : P [])
    (hP : ∀ pl ∈ r.reply :: r.reports, P pl) (vr : Seq) (poll : Bool) :
    ∀ g ∈ (c.sec.hear (rrFrame addr vr poll)).1, P g.payload := by
  intro g hg
  rcases (h.arriving_rr vr poll).carries g hg with hempty | hmem
  · rw [hempty]
    exact hnil
  · exact hP _ (h.mem_coming hmem)

/-- A read returns some of the frames that are there. -/
theorem batch (h : Calling r addr s [] taken acked c) {gs gs' : List Rx} (hin : gs ++ gs' = c.inbox) :
    Calling r addr s gs taken acked { c with inbox := gs' } := by
  have hall : gs ++ gs' = [] ++ c.inbox := by rw [hin, List.nil_append]
  refine ⟨h.station, h.strict, h.rejects, h.reply, h.vr, h.executed, h.idle, h.vs, h.acked, ?_, ?_,
    ?_⟩ <;> dsimp only <;> rw [hall]
  · exact h.source
  · exact h.told
  · exact h.queue

end Calling

/-- Before the command is written. -/
theorem Level.calling (h : Level addr c) (hsec : r.setUp c.sec = c.sec) :
    Calling r addr c [] false false c := by
  have hind : c.sec.indications = r.indications := (congrArg FakeSecondary.indications hsec).symm
  refine ⟨h.station, h.strict, h.rejects, ?_, rfl, (List.append_nil _).symm, fun _ => h.idle, h.vs,
    fun h0 => (by cases h0), h.source, ⟨[], (List.append_nil _).symm, fun _ h0 =>
      absurd h0 List.not_mem_nil, ?_⟩, [], c.inbox, rfl, fun _ => rfl,
    fun pl hp => absurd hp List.not_mem_nil, h.old⟩
  · rw [← hsec]
    rfl
  · rw [List.nil_append, List.nil_append, h.nothing, List.nil_append, FakeSecondary.coming, h.idle,
      hind]
    exact List.Sublist.refl _

end Call

/-! ## The parts of `exchange` -/

section Walk

variable {W : Type} [Line W] [Channel W] {r : Request} {addr : Byte} {s : Scene} {fs : List Rx}
  {f : Rx} {taken acked : Bool} {t : LinkSt W (List Bytes)}

/-- The line has room for the request, its response and its reports. -/
def Request.FitsIn (P : Bytes → Prop) (r : Request) : Prop :=
  ∀ pl ∈ r.message :: r.reply :: r.reports, P pl

theorem Request.FitsIn.answers {P : Bytes → Prop} (h : r.FitsIn P) :
    ∀ pl ∈ r.reply :: r.reports, P pl := fun pl hpl => h pl (List.mem_cons_of_mem _ hpl)

/-- What holds between two frames of a batch, and between two passes. -/
def InCall (r : Request) (addr : Byte) (s : Scene) (fs : List Rx) (x : Flight)
    (t : LinkSt W (List Bytes)) : Prop :=
  Medium.Sound t.world ∧ ∃ taken, Calling r addr s fs taken x.acked (scene addr t)

/-- However the call ended. -/
def CallEnded (r : Request) (addr : Byte) (s : Scene) (t : LinkSt W (List Bytes)) : Prop :=
  AtMostOnce r s (scene addr t)

/-- The call raised. -/
def CallRaised (r : Request) (addr : Byte) (s : Scene) (e : Exn) (t : LinkSt W (List Bytes)) : Prop :=
  CallFailed r s e (scene addr t)

/-- The call returned, and the parts of the line belong together. -/
def CallDone (r : Request) (addr : Byte) (s : Scene) (payload : Bytes) (t : LinkSt W (List Bytes)) :
    Prop :=
  Medium.Sound t.world ∧ CallReturned addr r s payload (scene addr t)

/-- Nothing happened on the line. -/
theorem scene_still {w : W} {log : List WireEvent} (h : Still t.world w) :
    scene addr { t with world := w, log := log } = scene addr t := by
  simp only [scene, h.sec, h.inbox, h.executed]

/-- The state of the peer is assigned to. -/
theorem scene_setPeer {g : PeerState → PeerState} :
    scene addr { t with link := { t.link with
      peers := fun a => if a = addr then g (t.link.peers a) else t.link.peers a } } =
        { scene addr t with peer := g (scene addr t).peer } := by
  simp only [scene, if_true]

/-- A frame is written.  The call may also end here. -/
theorem wp_write_scene {f : Frame} (hs : Medium.Sound t.world) (hr : r.Proper)
    (hf : Medium.Fits W f.payload)
    (hfits : ∀ g ∈ ((scene addr t).sec.hear f).1, Medium.Fits W g.payload)
    (hsent : ∀ c, (scene addr t).Sent f c → ∃ taken', Calling r addr s fs taken' acked c)
    {Q : Unit → LinkSt W (List Bytes) → Prop}
    (hQ : ∀ w log, Medium.Sound w →
      (scene addr t).Sent f (scene addr { t with world := w, log := log }) →
        Q () { t with world := w, log := log }) :
    wp (write f) Q (CallRaised r addr s) (CallEnded r addr s) t := by
  have hscene : ∀ w log, Sent t.world f w → Medium.Sound w ∧
      (scene addr t).Sent f (scene addr { t with world := w, log := log }) := by
    intro w log hw
    rcases hw with hw | ⟨gs, hw⟩
    · exact ⟨hw.sound, Or.inl (scene_still hw)⟩
    · refine ⟨hw.sound, Or.inr ⟨gs, hw.sublist, ?_⟩⟩
      simp only [scene, Scene.heard, hw.sec, hw.inbox, hw.executed]
      rfl
  refine wp_write_channel hs hf hfits (fun w log hw => ?_) (fun w log msg hw => ?_)
    fun w log hw => ?_
  · exact hQ w log (hscene w log hw).1 (hscene w log hw).2
  · obtain ⟨taken', hc⟩ := hsent _ (hscene w log hw).2
    exact hc.osError hr msg
  · obtain ⟨taken', hc⟩ := hsent _ (hscene w log hw).2
    exact hc.atMostOnce hr

/-- An RR is written. -/
theorem wp_write_rr (hs : Medium.Sound t.world)
    (h : Calling r addr s fs taken acked (scene addr t)) (hr : r.Proper)
    (hfit : r.FitsIn (Medium.Fits W)) {vr : Seq} {poll : Bool}
    {Q : Unit → LinkSt W (List Bytes) → Prop}
    (hQ : ∀ w log, Medium.Sound w → (scene addr t).Sent (rrFrame addr vr poll)
      (scene addr { t with world := w, log := log }) → Q () { t with world := w, log := log }) :
    wp (write (rrFrame addr vr poll)) Q (CallRaised r addr s) (CallEnded r addr s) t :=
  wp_write_scene hs hr Channel.fits_nil (h.fits_rr Channel.fits_nil hfit.answers vr poll)
    (fun _ hc => ⟨taken, h.sent_rr hc⟩) hQ

/-- The command is written. -/
theorem wp_write_command (hs : Medium.Sound t.world)
    (h : Calling r addr s fs taken acked (scene addr t)) (hr : r.Proper)
    (hfit : r.FitsIn (Medium.Fits W)) (hvs : s.peer.vs = s.sec.vr)
    {Q : Unit → LinkSt W (List Bytes) → Prop}
    (hQ : ∀ w log taken', Medium.Sound w →
      Calling r addr s fs taken' acked (scene addr { t with world := w, log := log }) →
        Q () { t with world := w, log := log }) :
    wp (write (commandFrame (r.call addr) s.peer)) Q (CallRaised r addr s)
      (CallEnded r addr s) t := by
  refine wp_write_scene hs hr (hfit _ (List.mem_cons_self ..))
    (h.fits_command hr hvs Channel.fits_nil hfit.answers) (fun _ hc => h.sent_command hr hvs hc)
    fun w log hw hc => ?_
  obtain ⟨taken', hc'⟩ := h.sent_command hr hvs hc
  exact hQ w log taken' hw hc'

/-- The V(S) of the command is the N(S) that the secondary expected. -/
theorem wp_ackedOr_calling (h : Calling r addr s (f :: fs) taken acked (scene addr t))
    (hk : kind f.ctrl ≠ .uFrame) {Q : Bool → LinkSt W (List Bytes) → Prop}
    {E : Exn → LinkSt W (List Bytes) → Prop} {S : LinkSt W (List Bytes) → Prop}
    (hQ : ∀ acked' u, u.world = t.world → Calling r addr s (f :: fs) taken acked' (scene addr u) →
      Q acked' u) :
    wp (ackedOr acked addr f.ctrl s.sec.vr) Q E S t := by
  unfold ackedOr
  rw [wp_ite]
  refine ⟨fun hacked => hQ true t rfl (hacked ▸ h), fun hacked => ?_⟩
  unfold applyAck
  rw [wp_ite]
  refine ⟨fun hnr => ?_, fun _ => hQ false t rfl ?_⟩
  · rw [wp_bind, wp_setPeer, wp_pure]
    -- before it acts, the secondary sends the old N(R) only
    have htaken : taken = true := by
      by_contra hno
      obtain ⟨before, after, hq, hnil, -, hold⟩ := h.queue
      rw [hnil (by simpa using hno), List.nil_append] at hq
      have hf : Old (scene addr t).sec.vr f := hold f (hq ▸ List.mem_cons_self ..)
      rw [h.vr, if_neg hno] at hf
      have hnext : ∀ n : Seq, n + 1 ≠ n := by decide
      rcases hf with hf | hf
      · exact hk hf
      · exact hnext _ (hnr.symm.trans hf)
    refine hQ true _ rfl ?_
    have hack := h.ack htaken
    simpa only [scene, if_true] using hack
  · rwa [Bool.eq_false_iff.2 hacked] at h

/-- The indication in hand is reported. -/
theorem wp_indication {x : Flight} {c : Scene} (hr : r.Proper) (hfit : r.FitsIn (Medium.Fits W))
    (hk : kind f.ctrl = .iFrame) (hns : nsOf f.ctrl = c.peer.vr)
    (hpl : isIndication f.payload = true) (h : Calling r addr s (f :: fs) taken x.acked c)
    (hs : Medium.Sound t.world)
    (ht : scene addr t = { c with peer := { c.peer with vr := nsOf f.ctrl + 1 } }) :
    wp (do
        write (rrFrame addr (nsOf f.ctrl + 1))
        callback ((r.call addr).onIndication f.payload)
        let now ← monotonic
        pure (.next { x with deadline := min (x.deadline + r.pollInterval * 4) (now + r.timeout) }))
      (Step.post (CallDone r addr s) (InCall r addr s fs)) (CallRaised r addr s)
        (CallEnded r addr s) t := by
  rw [wp_bind]
  apply wp_write_rr
  · exact hs
  · rw [ht]
    exact h.forgotten hk hns
  · exact hr
  · exact hfit
  intro w log hw hc
  rw [ht] at hc
  rw [wp_bind, wp_callback, wp_bind, wp_monotonic, wp_pure]
  have hstill := Channel.monotonic hw
  refine ⟨hstill.sound, taken, ?_⟩
  have hcall := (h.reported hk hns hpl).sent_rr (hc.seen (c.seen ++ [f.payload]))
  have hseen : t.user = c.seen := congrArg Scene.seen ht
  have hscene : scene addr { t with
      world := (Line.monotonic w).2, log := log, user := t.user ++ [f.payload] } =
      { scene addr { t with world := w, log := log } with seen := c.seen ++ [f.payload] } := by
    simp only [scene, hstill.sec, hstill.inbox, hstill.executed, hseen]
  rw [← hscene] at hcall
  exact hcall

/-- The response in hand ends the call. -/
theorem wp_response {x : Flight} {c : Scene} (hr : r.Proper) (hfit : r.FitsIn (Medium.Fits W))
    (hk : kind f.ctrl = .iFrame) (hns : nsOf f.ctrl = c.peer.vr)
    (hpl : isIndication f.payload = false) (h : Calling r addr s (f :: fs) taken x.acked c)
    (hs : Medium.Sound t.world)
    (ht : scene addr t = { c with peer := { c.peer with vr := nsOf f.ctrl + 1 } }) :
    wp (do
        write (rrFrame addr (nsOf f.ctrl + 1) false)
        onlyIf (!x.acked) (setPeer addr fun p => { p with vs := s.sec.vr + 1 })
        logEvent (.accepted r.message f)
        pure (.done f.payload) : LinkProg W (List Bytes) (Step Bytes Flight))
      (Step.post (CallDone r addr s) (InCall r addr s fs)) (CallRaised r addr s)
        (CallEnded r addr s) t := by
  rw [wp_bind]
  apply wp_write_rr
  · exact hs
  · rw [ht]
    exact h.forgotten hk hns
  · exact hr
  · exact hfit
  intro w log hw hc
  rw [ht] at hc
  have hsame : scene addr { t with world := w, log := log } =
      { c with peer := { c.peer with vr := nsOf f.ctrl + 1 } } := by
    refine Scene.Sent.release (nsOf f.ctrl + 1) ?_
    dsimp only
    rw [h.station]
    exact hc
  rw [wp_bind, wp_onlyIf]
  refine ⟨fun hacked => ?_, fun hacked => ?_⟩
  · rw [wp_setPeer, wp_bind, wp_logEvent, wp_pure]
    have hret := h.returned hr hk hns hpl (p := { c.peer with
      vr := nsOf f.ctrl + 1, vs := s.sec.vr + 1 }) rfl rfl
    refine ⟨hw, ?_⟩
    have hscene := @scene_setPeer W _ _ addr { t with world := w, log := log }
      fun p => { p with vs := s.sec.vr + 1 }
    rw [hsame] at hscene
    rw [← hscene] at hret
    exact hret
  · rw [wp_bind, wp_logEvent, wp_pure]
    refine ⟨hw, ?_⟩
    have hvs := h.vs
    rw [if_pos (by simpa using hacked)] at hvs
    have hret := h.returned hr hk hns hpl (p := { c.peer with vr := nsOf f.ctrl + 1 }) hvs rfl
    rw [← hsame] at hret
    exact hret

/-- The I-frame path. -/
theorem wp_onIFrame_calling {x : Flight} (hr : r.Proper) (hfit : r.FitsIn (Medium.Fits W))
    (hk : kind f.ctrl = .iFrame) (hs : Medium.Sound t.world)
    (h : Calling r addr s (f :: fs) taken x.acked (scene addr t)) :
    wp (onIFrame (r.call addr) s.sec.vr x f)
      (Step.post (CallDone r addr s) (InCall r addr s fs)) (CallRaised r addr s)
        (CallEnded r addr s) t := by
  unfold onIFrame
  rw [wp_bind, wp_peer, wp_ite]
  refine ⟨fun hns => ?_, fun hns => ?_⟩
  · rw [wp_bind, wp_bump, wp_bind]
    have hskip : Calling r addr s fs taken x.acked (scene addr t) := h.skip fun hf => hns hf.2
    apply wp_write_rr
    · exact hs
    · exact hskip
    · exact hr
    · exact hfit
    · intro w log hw hc
      exact ⟨hw, taken, hskip.sent_rr hc⟩
  have hns : nsOf f.ctrl = (scene addr t).peer.vr := not_not.1 hns
  have hmoved : ∀ log, scene addr { t with
      log := log
      link := { t.link with peers := fun a => if a = addr then
        { t.link.peers a with vr := nsOf f.ctrl + 1 } else t.link.peers a } } =
      { scene addr t with peer := { (scene addr t).peer with vr := nsOf f.ctrl + 1 } } := by
    intro log
    simp only [scene, if_true]
  rw [wp_bind, wp_logEvent, wp_bind, wp_setPeer]
  by_cases hpl : isIndication f.payload = true
  · have hroute : (r.call addr).router f.payload = .indication :=
      (retapRouter_indication_iff _ _).2 hpl
    rw [hroute]
    exact wp_indication hr hfit hk hns hpl h hs (hmoved _)
  · have hpl : isIndication f.payload = false := by simpa using hpl
    have hroute : (r.call addr).router f.payload = .accept := by
      obtain ⟨-, hreply, -⟩ := h.last hk hns hr hpl
      obtain ⟨code, hcode⟩ := Option.isSome_iff_exists.1 hr.code
      show retapRouter r.message.head? f.payload = .accept
      rw [hcode, retapRouter_accept_iff, hreply, hr.reply]
      exact ⟨hcode, hr.isIndication_reply⟩
    rw [hroute]
    exact wp_response hr hfit hk hns hpl h hs (hmoved _)

/-- The command once more. -/
theorem wp_resend {x : Flight} (hr : r.Proper) (hfit : r.FitsIn (Medium.Fits W))
    (hvs : s.peer.vs = s.sec.vr) (hs : Medium.Sound t.world)
    (h : Calling r addr s fs taken x.acked (scene addr t)) {y : Flight} (hy : y.acked = x.acked) :
    wp (do
        bump fun st => { st with retx := st.retx + 1 }
        write (commandFrame (r.call addr) s.peer)
        pure (.next y) : LinkProg W (List Bytes) (Step Bytes Flight))
      (Step.post (CallDone r addr s) (InCall r addr s fs)) (CallRaised r addr s)
        (CallEnded r addr s) t := by
  rw [wp_bind, wp_bump, wp_bind]
  apply wp_write_command
  · exact hs
  · exact h
  · exact hr
  · exact hfit
  · exact hvs
  · intro w log taken' hw hc
    exact ⟨hw, taken', hy ▸ hc⟩

/-- One frame of a batch. -/
theorem wp_onFrame_calling {x : Flight} (hr : r.Proper) (hfit : r.FitsIn (Medium.Fits W))
    (hvs : s.peer.vs = s.sec.vr) (h : InCall r addr s (f :: fs) x t) :
    wp (onFrame (r.call addr) (commandFrame (r.call addr) s.peer) s.sec.vr x f)
      (Step.post (CallDone r addr s) (InCall r addr s fs)) (CallRaised r addr s)
        (CallEnded r addr s) t := by
  obtain ⟨hs, taken, h⟩ := h
  have haddr : f.addr = addr := h.source f (List.mem_cons_self ..)
  unfold onFrame
  rw [wp_ite]
  refine ⟨fun hne => absurd haddr hne, fun _ => ?_⟩
  rw [wp_bind, wp_logEvent, wp_ite]
  refine ⟨fun hu => ?_, fun hu => ?_⟩
  · have hskip := h.skip fun hf => by rw [hu] at hf; cases hf.1
    unfold onUFrame
    rw [wp_ite]
    refine ⟨fun _ => ?_, fun _ => ⟨hs, taken, hskip⟩⟩
    -- the sequence numbers are reset, but what happened has happened
    rw [wp_bind, wp_setPeer, wp_bind, wp_bump, wp_raise]
    have hfailed := hskip.failed (e := .linkReset addr (resetWhy f.toFrame)) hr (Or.inr (Or.inl rfl))
      fun h0 => by cases h0
    exact ⟨⟨hfailed.executed, hfailed.seen⟩, hfailed.broken, hfailed.acked⟩
  have hlog : Calling r addr s (f :: fs) taken x.acked
      (scene addr { t with log := t.log ++ [.rx (.exchange r.message) f] }) := h
  rw [wp_bind]
  refine wp_ackedOr_calling hlog hu fun acked u hw hacked => ?_
  have hs : Medium.Sound u.world := hw ▸ hs
  have hskip : kind f.ctrl ≠ .iFrame → Calling r addr s fs taken acked (scene addr u) := fun hk =>
    hacked.skip fun hf => hk hf.1
  have hresend : kind f.ctrl ≠ .iFrame → ∀ y z : Flight, y.acked = acked → z.acked = acked →
      wp (if !y.acked ∧ y.retxLeft ≠ 0 then do
          bump fun st => { st with retx := st.retx + 1 }
          write (commandFrame (r.call addr) s.peer)
          pure (.next z)
        else pure (.next y) : LinkProg W (List Bytes) (Step Bytes Flight))
        (Step.post (CallDone r addr s) (InCall r addr s fs)) (CallRaised r addr s) (CallEnded r addr s)
        u := by
    rintro hk y z rfl hz
    rw [wp_ite]
    exact ⟨fun _ => wp_resend hr hfit hvs hs (hskip hk) hz, fun _ => ⟨hs, taken, hskip hk⟩⟩
  unfold onSequenced
  cases hk : kind f.ctrl with
  | rr => exact ⟨hs, taken, hskip (by simp [hk])⟩
  | rnr =>
      dsimp only
      rw [wp_bind, wp_bump, wp_pure]
      exact ⟨hs, taken, hskip (by simp [hk])⟩
  | rej => exact hresend (by simp [hk]) _ _ rfl rfl
  | srej => exact hresend (by simp [hk]) _ _ rfl rfl
  | iFrame => exact wp_onIFrame_calling hr hfit hk hs hacked
  | uFrame => exact absurd hk hu

/-- The clock is read. -/
theorem InCall.tick {x : Flight} (h : InCall r addr s fs x t) :
    InCall r addr s fs x { t with world := (Line.monotonic t.world).2 } := by
  obtain ⟨hs, taken, h⟩ := h
  have hstill := Channel.monotonic hs
  exact ⟨hstill.sound, taken, (@scene_still W _ _ addr t _ t.log hstill).symm ▸ h⟩

/-- The end of a pass: a resend, a timeout, or a poll. -/
theorem wp_passEnd_calling {x : Flight} (hr : r.Proper) (hfit : r.FitsIn (Medium.Fits W))
    (hvs : s.peer.vs = s.sec.vr) (h : InCall r addr s [] x t) :
    wp (passEnd (r.call addr) (commandFrame (r.call addr) s.peer) s.sec.vr x)
      (Step.post (CallDone r addr s) (InCall r addr s [])) (CallRaised r addr s)
        (CallEnded r addr s) t := by
  unfold passEnd
  rw [wp_bind, wp_monotonic]
  obtain ⟨hs, taken, h⟩ := h.tick
  generalize ({ t with world := (Line.monotonic t.world).2 } : LinkSt W (List Bytes)) = u at hs h
  rw [wp_ite]
  refine ⟨fun _ => wp_resend hr hfit hvs hs h rfl, fun _ => ?_⟩
  rw [wp_ite]
  refine ⟨fun _ => h.failed hr (Or.inl ⟨_, _, _, _, rfl⟩) fun hacked => hacked, fun _ => ?_⟩
  rw [wp_bind, wp_bump, wp_bind, wp_callback, wp_bind, wp_sleep, wp_bind, wp_peer, wp_bind]
  have hstill := Channel.sleep r.pollInterval hs
  have hslept : Calling r addr s [] taken x.acked
      (scene addr { u with world := Line.sleep r.pollInterval u.world }) :=
    (@scene_still W _ _ addr u _ u.log hstill).symm ▸ h
  apply wp_write_rr
  · exact hstill.sound
  · exact hslept
  · exact hr
  · exact hfit
  · intro w log hw hc
    exact ⟨hw, taken, hslept.sent_rr hc⟩

/-- A call that starts level. -/
theorem wp_exchange_level {fuel : ℕ} (hr : r.Proper) (hfit : r.FitsIn (Medium.Fits W))
    (hs : Medium.Sound t.world) (h : Level addr (scene addr t))
    (hsec : r.setUp (scene addr t).sec = (scene addr t).sec) :
    wp (exchange fuel (r.call addr)) (CallDone r addr (scene addr t)) (CallRaised r addr (scene addr t))
      (CallEnded r addr (scene addr t)) t := by
  have hvs : (t.link.peers (r.call addr).addr).vs = (scene addr t).sec.vr := h.vs
  refine wp_exchange (InCall r addr (scene addr t) []) (InCall r addr (scene addr t)) ?_ ?_ ?_ ?_ ?_
  · refine @wp_write_command W _ _ r addr (scene addr t) [] false false t hs (h.calling hsec) hr hfit
      hvs _ fun w log taken hw hc => ?_
    rw [wp_monotonic]
    exact InCall.tick (x := { deadline := _, retxAt := _ }) ⟨hw, taken, hc⟩
  · rintro x u ⟨-, taken, hc⟩
    exact hc.atMostOnce hr
  · rintro x u ⟨hu, taken, hc⟩
    refine wp_readFrames_channel hu (fun fs w log hw => ?_) (fun w log msg hw => ?_)
      fun w log hw => ?_
    · have hscene : scene addr { u with world := w, log := log } =
          { scene addr u with inbox := Medium.inbox w } := by
        simp only [scene, hw.sec, hw.executed]
      exact ⟨hw.sound, taken, hscene.symm ▸ hc.batch hw.inbox⟩
    · rw [CallRaised, scene_still hw]
      exact hc.osError hr msg
    · rw [CallEnded, scene_still hw]
      exact hc.atMostOnce hr
  · intro f fs x u hu
    rw [hvs]
    exact @wp_onFrame_calling W _ _ r addr (scene addr t) fs f u x hr hfit hvs hu
  · intro x u hu
    rw [hvs]
    exact @wp_passEnd_calling W _ _ r addr (scene addr t) u x hr hfit hvs hu

/-- The same, once the secondary is set up. -/
theorem wp_callOne {fuel : ℕ} (hr : r.Proper) (hfit : r.FitsIn (Medium.Fits W))
    (hs : Medium.Sound t.world) (h : Level addr (scene addr t)) :
    wp (callOne fuel addr r) (CallDone r addr (scene addr t)) (CallRaised r addr (scene addr t))
      (CallEnded r addr (scene addr t)) t := by
  obtain ⟨hsound, hsec, hinbox, hex⟩ := Channel.setSec_spec r.setUp hs
  have hscene : scene addr { t with world := Medium.setSec r.setUp t.world } =
      { scene addr t with sec := r.setUp (scene addr t).sec } := by
    simp only [scene, hsec, hinbox, hex]
  unfold callOne
  rw [wp_bind, wp_modify]
  have hcall := @wp_exchange_level W _ _ r addr
    { t with world := Medium.setSec r.setUp t.world } fuel hr hfit hsound
    (by
      rw [hscene]
      exact ⟨h.station, h.strict, h.rejects, h.idle, h.vs, h.source, h.old, h.nothing⟩)
    (by
      rw [hscene]
      rfl)
  rw [hscene] at hcall
  refine hcall.mono (fun payload u hu => ⟨hu.1, ?_⟩) (fun e u hu => ?_) fun u hu => ?_
  · exact ⟨hu.2.level, hu.2.payload, hu.2.executed, hu.2.seen⟩
  · exact ⟨⟨hu.executed, hu.seen⟩, hu.broken, hu.acked⟩
  · exact ⟨hu.executed, hu.seen⟩

end Walk

/-! ## Whole lists -/

/-- The messages of the first `k` calls were acted on, once each and in order. -/
def ActedOn (rs : List Request) (k : ℕ) (s c : Scene) : Prop :=
  c.executed = s.executed ++ (rs.take k).map Request.message

/-- What is to be said of the calls `rs` from `s` to `c`: `out` has the payloads that were
returned, and the exception that ended them. -/
structure Delivered (addr : Byte) (rs : List Request) (s : Scene) (out : List Bytes × Option Exn)
    (c : Scene) : Prop where
  /-- Each payload is the response to its own request. -/
  payloads : out.1 = (rs.take out.1.length).map Request.reply
  /-- Without an exception all calls returned. -/
  complete : out.2 = none → out.1.length = rs.length ∧ Level addr c ∧ ActedOn rs rs.length s c
  /-- The call that failed is the only one that may or may not have been acted on. -/
  failed : ∀ e, out.2 = some e → out.1.length < rs.length ∧ Broken e ∧
    (ActedOn rs out.1.length s c ∧ e.isAckedTimeout = false ∨ ActedOn rs (out.1.length + 1) s c)
  seen : SomeReported (rs.flatMap Request.reports) s c

section Lists

variable {r : Request} {rs : List Request} {addr : Byte} {s c c' : Scene}

/-- After a call that returned. -/
theorem ActedOn.cons {k : ℕ} {payload : Bytes} (hc : CallReturned addr r s payload c)
    (h : ActedOn rs k c c') : ActedOn (r :: rs) (k + 1) s c' := by
  unfold ActedOn at h ⊢
  rw [h, hc.executed, List.take_succ_cons, List.map_cons, List.append_assoc]
  rfl

/-- No calls. -/
theorem Delivered.nil (h : Level addr c) : Delivered addr [] c ([], none) c :=
  ⟨rfl, fun _ => ⟨rfl, h, (List.append_nil _).symm⟩, fun e he => (by cases he),
    [], (List.append_nil _).symm, List.Sublist.refl _⟩

/-- A call that returned, and those behind it. -/
theorem Delivered.cons {payload : Bytes} {out : List Bytes × Option Exn}
    (hc : CallReturned addr r s payload c) (h : Delivered addr rs c out c') :
    Delivered addr (r :: rs) s (payload :: out.1, out.2) c' := by
  refine ⟨?_, fun hnone => ?_, fun e he => ?_, ?_⟩
  · dsimp only
    rw [List.length_cons, List.take_succ_cons, List.map_cons, ← h.payloads, hc.payload]
  · obtain ⟨hlen, hlevel, hall⟩ := h.complete hnone
    exact ⟨congrArg (· + 1) hlen, hlevel, hall.cons hc⟩
  · obtain ⟨hlen, hbroken, hall⟩ := h.failed e he
    refine ⟨Nat.succ_lt_succ hlen, hbroken, ?_⟩
    rcases hall with ⟨hall, hacked⟩ | hall
    · exact Or.inl ⟨hall.cons hc, hacked⟩
    · exact Or.inr (hall.cons hc)
  · obtain ⟨d₁, hd₁, hsub₁⟩ := hc.seen
    obtain ⟨d₂, hd₂, hsub₂⟩ := h.seen
    exact ⟨d₁ ++ d₂, by rw [hd₂, hd₁, List.append_assoc], hsub₁.append hsub₂⟩

/-- A call that raised is the last. -/
theorem Delivered.raised {e : Exn} (h : CallFailed r s e c) :
    Delivered addr (r :: rs) s ([], some e) c := by
  refine ⟨rfl, fun h0 => (by cases h0), fun e' he => ?_, ?_⟩
  · cases he
    refine ⟨Nat.succ_pos _, h.broken, ?_⟩
    cases hacked : e.isAckedTimeout with
    | true => exact Or.inr (h.acked hacked)
    | false =>
        rcases h.executed with hex | hex
        · exact Or.inl ⟨by simpa [ActedOn] using hex, rfl⟩
        · exact Or.inr hex
  · obtain ⟨d, hd, hsub⟩ := h.seen
    exact ⟨d, hd, hsub.trans (List.sublist_append_left ..)⟩

end Lists

section

variable {W : Type} [Line W] [Channel W] {fuel : ℕ} {addr : Byte} {rs : List Request}

/-- Call after call. -/
theorem wp_callEach {s : LinkSt W (List Bytes)} (hw : Medium.Sound s.world)
    (hs : Level addr (scene addr s)) (hr : ∀ r ∈ rs, r.Proper)
    (hfit : ∀ r ∈ rs, r.FitsIn (Medium.Fits W)) :
    wp (callEach fuel addr rs) (fun out t => Delivered addr rs (scene addr s) out (scene addr t))
      (fun _ _ => False) (fun t => ∃ k, ActedOn rs k (scene addr s) (scene addr t)) s := by
  induction rs generalizing s with
  | nil => exact Delivered.nil hs
  | cons r rs ih =>
      unfold callEach
      rw [wp_handle, wp_bind]
      refine (wp_callOne (hr r (List.mem_cons_self ..)) (hfit r (List.mem_cons_self ..)) hw hs).mono
        (fun payload t ht => ?_) (fun e t ht => Delivered.raised ht) fun t ht => ?_
      · rw [wp_bind]
        refine (ih ht.1 ht.2.level (fun r' h => hr r' (List.mem_cons_of_mem _ h)) fun r' h =>
          hfit r' (List.mem_cons_of_mem _ h)).mono (fun rest u hu => ?_) (fun _ _ h => h.elim)
            fun u hu => ?_
        · exact hu.cons ht.2
        · obtain ⟨k, hk⟩ := hu
          exact ⟨k + 1, hk.cons ht.2⟩
      · rcases ht.executed with hex | hex
        · exact ⟨0, by simpa [ActedOn] using hex⟩
        · exact ⟨1, hex⟩

/-- **Exactly once over a line that loses frames.**  Whatever is lost or late, and wherever the
port fails: the messages whose responses were returned were acted on once each and in order, each
response is that of its own request, and of all other messages at most the one whose call failed
was acted on. -/
theorem callEach_delivered {s : LinkSt W (List Bytes)} (hw : Medium.Sound s.world)
    (hs : Level addr (scene addr s)) (hr : ∀ r ∈ rs, r.Proper)
    (hfit : ∀ r ∈ rs, r.FitsIn (Medium.Fits W)) :
    (∀ out t, callEach fuel addr rs s = (.ret out, t) →
        Delivered addr rs (scene addr s) out (scene addr t)) ∧
      (∀ e t, callEach fuel addr rs s ≠ (.raise e, t)) ∧
      ∀ t, callEach fuel addr rs s = (.stall, t) → ∃ k, ActedOn rs k (scene addr s) (scene addr t) :=
  wp_iff.1 (wp_callEach hw hs hr hfit)

end

/-- Both stations after `connect`.  The first frame is lost, a read returns one frame, and after
the command of the second call nothing gets through. -/
def lossyDesk : LinkSt Lossy (List Bytes) where
  world :=
    { sec := { connected := true }
      clock := fun n => ms 500 * n
      lost := fun n => n = 0 ∨ 15 < n
      ready := fun _ => 1 }
  link := {}
  log := []
  user := []

/-- Both ends start at zero, and nothing is on its way. -/
theorem level_lossyDesk : Level 1 (scene 1 lossyDesk) :=
  ⟨rfl, rfl, fun _ h => (by cases h), rfl, rfl, fun _ h => absurd h List.not_mem_nil,
    fun _ h => absurd h List.not_mem_nil, rfl⟩

/-- A response after an alarm that is sent twice, and one at once. -/
def twoRequests : List Request :=
  [{ message := [0x33, 2, 0, 30, 0], response := retapResponse 0x33
     indications := [([0x07, 1, 0, 2], true)] },
   { message := [0x34, 0, 0], responses := some [(0x34, retapResponse 0x34 [30, 0])] }]

/-- The second call fails unacknowledged, although its message was acted on. -/
theorem callEach_delivered_two : ∃ c, ActedOn twoRequests 2 (scene 1 lossyDesk) c ∧
    Delivered 1 twoRequests (scene 1 lossyDesk)
      ([retapResponse 0x33], some (.aisgTimeout 1 1 false 5)) c := by
  have hproper : ∀ r ∈ twoRequests, r.Proper := by decide +kernel
  have hret : (callEach 20 1 twoRequests lossyDesk).1 =
      .ret ([retapResponse 0x33], some (.aisgTimeout 1 1 false 5)) := by decide +kernel
  have hex : (callEach 20 1 twoRequests lossyDesk).2.world.executed =
      twoRequests.map Request.message := by decide +kernel
  have hdelivered := (@callEach_delivered Lossy _ _ 20 1 twoRequests lossyDesk trivial
    level_lossyDesk hproper fun _ _ _ _ => trivial).1
  rcases hrun : callEach 20 1 twoRequests lossyDesk with ⟨o, t⟩
  rw [hrun] at hret hex
  exact ⟨scene 1 t, hex, hdelivered _ t (by rw [hrun, ← hret])⟩

end OpenAisg.Session
