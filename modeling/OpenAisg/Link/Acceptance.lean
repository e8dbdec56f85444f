import OpenAisg.Link.Channel

/-!
# What a call may say of its message

A call that returns, or times out acknowledged, says that the device has its message.  Over a
line that loses frames this need not be so: after an unacknowledged timeout V(S) stays where it
was, although the secondary may have taken the command, and the next command goes out under a
used number.  Its rejection then looks like its acknowledgement, and a response that is still
owed like its own.

* `Strict`, `Strict.hear` — the secondary, and what a frame of a call makes it do: it acts on the
  message only if the command has the N(S) it expects.
* `Reaction` — the same seen from the line, with whatever part of the answer is lost.
* `Carries` — what a proof about a call over such a line is made of; `Carries.wp_exchange` is its
  rule.  Only one step of it is about what the call believes (`Persuades`).
* `Watched`, `Declined` — two invariants of a call: of one that nothing can mislead, and of one
  whose N(S) the secondary does not expect.
* `Ready` — the condition on the state before a call.
* `Ready.inStep` — how the stations get out of step: only by an unacknowledged timeout of a
  message that was acted on.
* `calls_truthful` — after any calls that kept the link, a call that starts ready says the truth.
* `tiltTo_not_truthful` — a SetTilt that returns OK although the secondary never acted on it.
-/

namespace OpenAisg.Link

open Hdlc Prog Medium

/-! ## The secondary -/

/-- A strict secondary at `addr` whose answers have room on the line: `P` tells which payloads do.
If it rejects a frame, then with a U-frame. -/
structure Strict (P : Bytes → Prop) (addr : Byte) (s : FakeSecondary) : Prop where
  station : s.addr = addr
  strict : s.strict = true
  rejects : ∀ what, s.rejectWith = some what → kind (what ||| pf) = .uFrame
  answers : ∀ m, P (s.responseFor m)
  coming : ∀ pl ∈ s.coming, P pl

section Secondary

variable {P : Bytes → Prop} {addr : Byte} {s s' : FakeSecondary} {fs gs : List Rx} {f : Rx}

/-- The payload of an I-frame was still to come. -/
theorem Arriving.mem_coming (h : Arriving s fs s') (hf : f ∈ fs) (hk : kind f.ctrl = .iFrame) :
    f.payload ∈ s.coming := by
  have hsub := h.coming (nsOf f.ctrl) [f] (List.singleton_sublist.2 hf)
  rw [reads, if_pos ⟨hk, rfl⟩, List.cons_append] at hsub
  exact hsub.subset (List.mem_cons_self ..)

/-- Nothing new is to come. -/
theorem Arriving.coming_subset (h : Arriving s fs s') {pl : Bytes} (hpl : pl ∈ s'.coming) :
    pl ∈ s.coming :=
  (h.coming 0 [] (List.nil_sublist _)).subset hpl

/-- The responses do not depend on what has been sent. -/
theorem Arriving.responseFor (h : Arriving s fs s') (m : Bytes) :
    s'.responseFor m = s.responseFor m := by
  unfold FakeSecondary.responseFor
  rw [h.response, h.responses]

/-- What an answer carries has room on the line. -/
theorem Strict.fits (h : Strict P addr s) (ha : Arriving s fs s') (hnil : P []) :
    ∀ f ∈ fs, P f.payload := by
  intro f hf
  rcases ha.carries f hf with hempty | hmem
  · rw [hempty]
    exact hnil
  · exact h.coming _ hmem

/-- The secondary has answered. -/
theorem Strict.arriving (h : Strict P addr s) (ha : Arriving s fs s') : Strict P addr s' where
  station := ha.addr.trans h.station
  strict := ha.strict.trans h.strict
  rejects what hw := by
    rcases ha.rejectWith with hr | hr
    · exact h.rejects what (hr.symm.trans hw)
    · cases hr.symm.trans hw
  answers m := by
    rw [ha.responseFor]
    exact h.answers m
  coming pl hpl := h.coming pl (ha.coming_subset hpl)

/-- The secondary has acted on a message. -/
theorem Strict.took (h : Strict P addr s) (m : Bytes) : Strict P addr (s.took m) where
  station := h.station
  strict := h.strict
  rejects := h.rejects
  answers := h.answers
  coming pl hpl := by
    simp only [FakeSecondary.coming, FakeSecondary.took, Option.toList_some, List.mem_append,
      List.mem_singleton] at hpl
    rcases hpl with hmem | rfl
    · exact h.coming pl (List.mem_append_left _ hmem)
    · exact h.answers m

/-- A frame that a call hands to the port: its command, or an RR. -/
def OfCall {υ : Type} (q : Call υ) (p : PeerState) (f : Frame) : Prop :=
  f = commandFrame q p ∨ ∃ vr poll, f = rrFrame q.addr vr poll

/-- The secondary acts on the message only if the command has the N(S) it expects, and then it
answers; any other frame of the call it just answers. -/
theorem Strict.hear {υ : Type} {q : Call υ} {p : PeerState} {f : Frame} (h : Strict P q.addr s)
    (hf : OfCall q p f) :
    (s.takes f = false ∧ Arriving s (s.hear f).1 (s.hear f).2) ∨
      (s.takes f = true ∧ f.payload = q.message ∧ p.vs = s.vr ∧
        Arriving (s.took q.message) (s.hear f).1 (s.hear f).2) := by
  rcases hf with rfl | ⟨vr, poll, rfl⟩
  · have hcmd : commandFrame q p = ⟨s.addr, iCtrl p.vs p.vr, q.message⟩ := by
      rw [commandFrame, h.station]
    rw [hcmd]
    cases htakes : s.takes ⟨s.addr, iCtrl p.vs p.vr, q.message⟩ with
    | false => exact Or.inl ⟨rfl, FakeSecondary.arriving_command h.rejects htakes⟩
    | true =>
        obtain ⟨hns, hhear⟩ := FakeSecondary.hear_command h.strict htakes
        rw [hhear]
        exact Or.inr ⟨rfl, rfl, hns, FakeSecondary.arriving_next _⟩
  · refine Or.inl ⟨s.takes_rrFrame .., ?_⟩
    rw [← h.station]
    exact s.arriving_rrFrame vr poll

end Secondary

/-! ## The line -/

section Line

variable {W υ : Type} [Medium W] {q : Call υ} {p : PeerState} {w w' : W} {f : Frame}

/-- What came of a frame of the call: it was answered or lost, or the secondary acted on the
message first.  Of the answer `gs` any part may be lost. -/
inductive Reaction (q : Call υ) (p : PeerState) (w w' : W) : Prop where
  | answered (gs gs' : List Rx) (arriving : Arriving (sec w) gs (sec w'))
      (sublist : gs'.Sublist gs) (inbox : inbox w' = inbox w ++ gs')
      (executed : executed w' = executed w)
  | acted (gs gs' : List Rx) (ns : p.vs = (sec w).vr)
      (arriving : Arriving ((sec w).took q.message) gs (sec w'))
      (sublist : gs'.Sublist gs) (inbox : inbox w' = inbox w ++ gs')
      (executed : executed w' = executed w ++ [q.message])

/-- Nothing is an answer, too. -/
theorem arriving_nil (s : FakeSecondary) : Arriving s [] s where
  toSteady := ⟨rfl, rfl, rfl, rfl, rfl, Or.inl rfl, fun h => h⟩
  source _ hf := absurd hf List.not_mem_nil
  old _ hf := absurd hf List.not_mem_nil
  carries _ hf := absurd hf List.not_mem_nil
  coming vr gs hgs := by
    rw [List.sublist_nil.1 hgs]
    exact List.Sublist.refl _

/-- Nothing happened. -/
theorem Still.reaction (h : Still w w') : Reaction q p w w' := by
  refine .answered [] [] ?_ (List.Sublist.refl _) ?_ h.executed
  · rw [h.sec]
    exact arriving_nil _
  · rw [h.inbox, List.append_nil]

/-- A frame of the call was lost or heard. -/
theorem Strict.reaction {P : Bytes → Prop} (h : Strict P q.addr (sec w)) (hf : OfCall q p f)
    (hs : Sent w f w') : Reaction q p w w' := by
  rcases hs with hs | ⟨gs, hs⟩
  · exact hs.reaction
  have hex := hs.executed
  have hsec := hs.sec
  rcases h.hear hf with ⟨htakes, ha⟩ | ⟨htakes, hpl, hns, ha⟩
  · rw [htakes] at hex
    rw [← hsec] at ha
    exact .answered _ _ ha hs.sublist hs.inbox hex
  · rw [htakes, hpl] at hex
    rw [← hsec] at ha
    exact .acted _ _ hns ha hs.sublist hs.inbox hex

/-- A strict secondary stays strict. -/
theorem Reaction.strict {P : Bytes → Prop} {addr : Byte} (h : Reaction q p w w')
    (hs : Strict P addr (sec w)) : Strict P addr (sec w') := by
  cases h with
  | answered gs gs' ha => exact hs.arriving ha
  | acted gs gs' hns ha => exact (hs.took q.message).arriving ha

end Line

/-! ## A call over the line -/

/-- What a call that kept the link says of its message: that the device has it, or that nothing is
known. -/
def believes : Outcome Exn Bytes → Option Bool
  | .ret _ => some true
  | .raise (.aisgTimeout _ _ acked _) => some acked
  | _ => none

section Walk

variable {W υ : Type}

/-- A frame that a call takes for the acknowledgement of the N(S) `ns`, or for its response. -/
def Persuades (q : Call υ) (ns : Seq) (f : Rx) : Prop :=
  f.addr = q.addr ∧ kind f.ctrl ≠ .uFrame ∧
    (nrOf f.ctrl = ns + 1 ∨ kind f.ctrl = .iFrame ∧ q.router f.payload = .accept)

instance (q : Call υ) (ns : Seq) (f : Rx) : Decidable (Persuades q ns f) :=
  inferInstanceAs (Decidable (_ ∧ _ ∧ _))

/-- What a proof about a call over the line is made of: an invariant `J`, of the frames of the
batch that are still to be read, of whether the call holds its message for acknowledged, and of
the line. -/
structure Carries [Medium W] (q : Call υ) (p : PeerState) (J : List Rx → Bool → W → Prop) :
    Prop where
  sound : ∀ {fs a w}, J fs a w → Sound w
  strict : ∀ {fs a w}, J fs a w → Strict (Fits W) q.addr (sec w)
  reaction : ∀ {fs a w w'}, J fs a w → Sound w' → Reaction q p w w' → J fs a w'
  came : ∀ {fs a w w'}, J [] a w → Came w fs w' → J fs a w'
  skip : ∀ {f fs a w}, J (f :: fs) a w → J fs a w
  persuaded : ∀ {f fs w}, J (f :: fs) false w → Persuades q p.vs f → J (f :: fs) true w

variable {q : Call υ} {p : PeerState} {J : List Rx → Bool → W → Prop} {f : Rx} {fs : List Rx}
  {x : Flight} {t : LinkSt W υ} {a : Bool}

/-- The call goes on: the invariant holds, and V(S) has moved exactly if the call holds its message
for acknowledged. -/
def Flying (J : List Rx → Bool → W → Prop) (q : Call υ) (p : PeerState) (fs : List Rx) (a : Bool)
    (t : LinkSt W υ) : Prop :=
  J fs a t.world ∧ (t.link.peers q.addr).vs = if a then p.vs + 1 else p.vs

/-- The call has ended, or its bound ran out.  What it believes, if anything, is what its variable
said, and V(S) goes with it. -/
def LeftBy (J : List Rx → Bool → W → Prop) (q : Call υ) (p : PeerState) (o : Option Bool)
    (t : LinkSt W υ) : Prop :=
  ∃ fs a, J fs a t.world ∧
    ∀ acked, o = some acked →
      a = acked ∧ (t.link.peers q.addr).vs = if acked then p.vs + 1 else p.vs

/-- It ends with what it believes. -/
theorem Flying.leftBy (h : Flying J q p fs a t) : LeftBy J q p (some a) t := by
  refine ⟨fs, a, h.1, fun acked ha => ?_⟩
  cases ha
  exact ⟨rfl, h.2⟩

/-- The log, the callbacks' variables and V(R) do not count. -/
theorem Flying.same {u : LinkSt W υ} (h : Flying J q p fs a t) (hw : u.world = t.world)
    (hvs : (u.link.peers q.addr).vs = (t.link.peers q.addr).vs) : Flying J q p fs a u :=
  ⟨hw ▸ h.1, hvs.trans h.2⟩

/-- It ends and says nothing. -/
theorem Flying.leftBy_none (h : Flying J q p fs a t) : LeftBy J q p none t :=
  ⟨fs, a, h.1, fun _ h0 => by cases h0⟩

namespace Carries

variable [Line W] [Channel W] (h : Carries q p J)

include h

/-- A wait. -/
theorem still {w w' : W} (hJ : J fs a w) (hs : Still w w') : J fs a w' :=
  h.reaction hJ hs.sound hs.reaction

/-- A frame of the call is written. -/
theorem wp_write {g : Frame} (hg : OfCall q p g) (hfit : Fits W q.message)
    (ht : Flying J q p fs a t) :
    wp (write g) (fun _ => Flying J q p fs a) (fun e => LeftBy J q p (believes (.raise e)))
      (LeftBy J q p none) t := by
  have hs := h.strict ht.1
  have hpayload : Fits W g.payload := by
    rcases hg with rfl | ⟨vr, poll, rfl⟩
    · exact hfit
    · exact Channel.fits_nil
  have hanswer : ∀ r ∈ ((sec t.world).hear g).1, Fits W r.payload := by
    rcases hs.hear hg with ⟨-, ha⟩ | ⟨-, -, -, ha⟩
    · exact hs.fits ha Channel.fits_nil
    · exact (hs.took _).fits ha Channel.fits_nil
  have hsent : ∀ w log, Sent t.world g w → Flying J q p fs a { t with world := w, log := log } := by
    intro w log hw
    refine ⟨h.reaction ht.1 ?_ (hs.reaction hg hw), ht.2⟩
    rcases hw with hw | ⟨gs, hw⟩
    · exact hw.sound
    · exact hw.sound
  exact wp_write_channel (h.sound ht.1) hpayload hanswer hsent
    (fun w log msg hw => (hsent w log hw).leftBy_none) fun w log hw => (hsent w log hw).leftBy_none

/-- An RR is written, and the call goes on. -/
theorem wp_write_rr {vr : Seq} {poll : Bool} (hfit : Fits W q.message)
    (ht : Flying J q p fs a t) {Q : Unit → LinkSt W υ → Prop}
    (hQ : ∀ v, Flying J q p fs a v → Q () v) :
    wp (write (rrFrame q.addr vr poll)) Q (fun e => LeftBy J q p (believes (.raise e)))
      (LeftBy J q p none) t :=
  (h.wp_write (Or.inr ⟨vr, poll, rfl⟩) hfit ht).mono (fun _ v hv => hQ v hv) (fun _ _ h => h)
    fun _ h => h

/-- A frame that ends neither the batch nor the call. -/
theorem flying_skip (ht : Flying J q p (f :: fs) a t) :
    Flying J q p fs a t :=
  ⟨h.skip ht.1, ht.2⟩

/-- A call that takes a frame for its acknowledgement. -/
theorem wp_ackedOr (haddr : f.addr = q.addr) (hk : kind f.ctrl ≠ .uFrame)
    {Q : Bool → LinkSt W υ → Prop} {E : Exn → LinkSt W υ → Prop} {S : LinkSt W υ → Prop}
    (ht : Flying J q p (f :: fs) a t) (hQ : ∀ b u, Flying J q p (f :: fs) b u → Q b u) :
    wp (ackedOr a q.addr f.ctrl p.vs) Q E S t := by
  unfold ackedOr
  rw [wp_ite]
  refine ⟨fun ha => hQ true t (ha ▸ ht), fun ha => ?_⟩
  rw [Bool.not_eq_true] at ha
  subst ha
  unfold applyAck
  rw [wp_ite]
  refine ⟨fun hnr => ?_, fun _ => hQ false t ht⟩
  rw [wp_bind, wp_setPeer, wp_pure]
  exact hQ true _ ⟨h.persuaded ht.1 ⟨haddr, hk, Or.inl hnr⟩, by simp⟩

/-- The I-frame path. -/
theorem wp_onIFrame (hfit : Fits W q.message) (haddr : f.addr = q.addr)
    (hk : kind f.ctrl = .iFrame) (ht : Flying J q p (f :: fs) x.acked t) :
    wp (onIFrame q p.vs x f)
      (Step.post (fun _ => LeftBy J q p (some true)) fun y => Flying J q p fs y.acked)
      (fun e => LeftBy J q p (believes (.raise e))) (LeftBy J q p none) t := by
  have hskip := h.flying_skip ht
  unfold onIFrame
  rw [wp_bind, wp_peer, wp_ite]
  refine ⟨fun _ => ?_, fun _ => ?_⟩
  · rw [wp_bind, wp_bump, wp_bind]
    refine h.wp_write_rr hfit (by exact hskip.same rfl rfl) fun v hv => ?_
    exact hv
  -- V(R) moves, and V(S) stays
  rw [wp_bind, wp_logEvent, wp_bind, wp_setPeer]
  cases hroute : q.router f.payload with
  | accept =>
      rw [wp_bind]
      refine h.wp_write_rr hfit (by exact ht.same rfl (by simp)) fun v hv => ?_
      rw [wp_bind, wp_onlyIf]
      refine ⟨fun hacked => ?_, fun hacked => ?_⟩
      · rw [wp_setPeer, wp_bind, wp_logEvent, wp_pure]
        rw [Bool.not_eq_true'] at hacked
        rw [hacked] at hv
        have hpers : Persuades q p.vs f := ⟨haddr, by simp [hk], Or.inr ⟨hk, hroute⟩⟩
        refine ⟨f :: fs, true, h.persuaded hv.1 hpers, fun acked ha => ?_⟩
        cases ha
        exact ⟨rfl, by simp⟩
      · rw [wp_bind, wp_logEvent, wp_pure]
        have hacked : x.acked = true := by simpa using hacked
        rw [hacked] at hv
        exact hv.leftBy
  | indication =>
      rw [wp_bind]
      refine h.wp_write_rr hfit (by exact hskip.same rfl (by simp)) fun v hv => ?_
      rw [wp_bind, wp_callback, wp_bind, wp_monotonic, wp_pure]
      exact ⟨h.still hv.1 (Channel.monotonic (h.sound hv.1)), hv.2⟩
  | unexpected =>
      rw [wp_bind]
      refine h.wp_write_rr hfit (by exact hskip.same rfl (by simp)) fun v hv => ?_
      rw [wp_bind, wp_bump, wp_pure]
      exact hv

/-- The command is written, for the first time or again. -/
theorem wp_write_command (hfit : Fits W q.message) (ht : Flying J q p fs a t)
    {Q : Unit → LinkSt W υ → Prop} (hQ : ∀ v, Flying J q p fs a v → Q () v) :
    wp (write (commandFrame q p)) Q (fun e => LeftBy J q p (believes (.raise e)))
      (LeftBy J q p none) t :=
  (h.wp_write (Or.inl rfl) hfit ht).mono (fun _ v hv => hQ v hv) (fun _ _ h => h) fun _ h => h

/-- One frame of a batch. -/
theorem wp_onFrame (hfit : Fits W q.message) (ht : Flying J q p (f :: fs) x.acked t) :
    wp (onFrame q (commandFrame q p) p.vs x f)
      (Step.post (fun _ => LeftBy J q p (some true)) fun y => Flying J q p fs y.acked)
      (fun e => LeftBy J q p (believes (.raise e))) (LeftBy J q p none) t := by
  unfold onFrame
  rw [wp_ite]
  refine ⟨fun _ => ?_, fun haddr => ?_⟩
  · rw [wp_bind, wp_bump, wp_pure]
    exact (h.flying_skip ht).same rfl rfl
  rw [not_not] at haddr
  rw [wp_bind, wp_logEvent, wp_ite]
  refine ⟨fun _ => ?_, fun hu => ?_⟩
  · unfold onUFrame
    rw [wp_ite]
    refine ⟨fun _ => ?_, fun _ => (h.flying_skip ht).same rfl rfl⟩
    -- the sequence numbers are reset, and the call says nothing
    rw [wp_bind, wp_setPeer, wp_bind, wp_bump, wp_raise]
    exact ⟨f :: fs, x.acked, ht.1, fun _ h0 => by cases h0⟩
  rw [wp_bind]
  refine h.wp_ackedOr haddr hu (by exact ht.same rfl rfl) fun acked u hacked => ?_
  have hskip := h.flying_skip hacked
  have hresend : ∀ y z : Flight, y.acked = acked → z.acked = acked →
      wp (if !y.acked ∧ y.retxLeft ≠ 0 then do
          bump fun st => { st with retx := st.retx + 1 }
          write (commandFrame q p)
          pure (.next z)
        else pure (.next y) : LinkProg W υ (Step Bytes Flight))
        (Step.post (fun _ => LeftBy J q p (some true)) fun y => Flying J q p fs y.acked)
        (fun e => LeftBy J q p (believes (.raise e))) (LeftBy J q p none) u := by
    rintro y z rfl hz
    rw [wp_ite]
    refine ⟨fun _ => ?_, fun _ => hskip⟩
    rw [wp_bind, wp_bump, wp_bind]
    refine h.wp_write_command hfit (by exact hskip.same rfl rfl) fun v hv => ?_
    rw [wp_pure, Step.post, hz]
    exact hv
  unfold onSequenced
  cases hk : kind f.ctrl with
  | rr => exact hskip
  | rnr =>
      dsimp only
      rw [wp_bind, wp_bump, wp_pure]
      exact hskip.same rfl rfl
  | rej => exact hresend _ _ rfl rfl
  | srej => exact hresend _ _ rfl rfl
  | iFrame => exact h.wp_onIFrame hfit haddr hk hacked
  | uFrame => exact absurd hk hu

/-- The end of a pass: a resend, a timeout, or a poll. -/
theorem wp_passEnd (hfit : Fits W q.message) (ht : Flying J q p [] x.acked t) :
    wp (passEnd q (commandFrame q p) p.vs x)
      (Step.post (fun _ => LeftBy J q p (some true)) fun y => Flying J q p [] y.acked)
      (fun e => LeftBy J q p (believes (.raise e))) (LeftBy J q p none) t := by
  unfold passEnd
  rw [wp_bind, wp_monotonic, wp_ite]
  have htick : Flying J q p [] x.acked { t with world := (Line.monotonic t.world).2 } :=
    ⟨h.still ht.1 (Channel.monotonic (h.sound ht.1)), ht.2⟩
  refine ⟨fun _ => ?_, fun _ => ?_⟩
  · rw [wp_bind, wp_bump, wp_bind]
    refine h.wp_write_command hfit (by exact htick.same rfl rfl) fun v hv => ?_
    exact hv
  rw [wp_ite]
  refine ⟨fun _ => htick.leftBy, fun _ => ?_⟩
  rw [wp_bind, wp_bump, wp_bind, wp_callback, wp_bind, wp_sleep, wp_bind, wp_peer, wp_bind]
  have hslept := h.still htick.1 (Channel.sleep q.pollInterval (h.sound htick.1))
  refine h.wp_write_rr hfit (by exact ⟨hslept, htick.2⟩) fun v hv => ?_
  exact hv

/-- A whole call. -/
theorem wp_exchange {n : ℕ} (hfit : Fits W q.message) (hp : t.link.peers q.addr = p)
    (ht : J [] false t.world) :
    wp (exchange n q) (fun _ => LeftBy J q p (some true))
      (fun e => LeftBy J q p (believes (.raise e))) (LeftBy J q p none) t := by
  have hstart : Flying J q p [] false t := ⟨ht, by simp [hp]⟩
  refine OpenAisg.Link.wp_exchange (fun x u => Flying J q p [] x.acked u)
    (fun fs x u => Flying J q p fs x.acked u) ?_ ?_ ?_ ?_ ?_
  · rw [hp]
    refine h.wp_write_command hfit hstart fun v hv => ?_
    rw [wp_monotonic]
    exact ⟨h.still hv.1 (Channel.monotonic (h.sound hv.1)), hv.2⟩
  · exact fun x u hu => hu.leftBy_none
  · intro x u hu
    refine wp_readFrames_channel (h.sound hu.1) (fun fs w log hw => ?_) (fun w log msg hw => ?_)
      fun w log hw => ?_
    · exact ⟨h.came hu.1 hw, hu.2⟩
    · exact ⟨[], x.acked, h.still hu.1 hw, fun _ h0 => by cases h0⟩
    · exact ⟨[], x.acked, h.still hu.1 hw, fun _ h0 => by cases h0⟩
  · rw [hp]
    exact fun f fs x u hu => h.wp_onFrame hfit hu
  · rw [hp]
    exact fun x u hu => h.wp_passEnd hfit hu

end Carries

end Walk

/-! ## Before the secondary has acted, and after -/

section Phases

variable {W υ : Type} [Medium W] {q : Call υ} {p : PeerState} {e : List Bytes} {v : Seq}
  {fs : List Rx} {f : Rx} {a : Bool} {w w' : W}

/-- The secondary has not acted on the message, and nothing that is on its way or still owed can
persuade the call that it has.  `e` are the messages acted on before the call, and `v` is the N(S)
that the secondary expects. -/
structure Unheard (q : Call υ) (ns : Seq) (e : List Bytes) (v : Seq) (fs : List Rx) (w : W) :
    Prop where
  executed : executed w = e
  vr : (sec w).vr = v
  frames : ∀ f ∈ fs ++ inbox w, ¬ Persuades q ns f
  owed : ∀ pl ∈ (sec w).coming, q.router pl ≠ .accept

/-- The secondary has acted on the message of the call, once. -/
structure ActedOnce (q : Call υ) (ns : Seq) (e : List Bytes) (w : W) : Prop where
  executed : executed w = e ++ [q.message]
  vr : (sec w).vr = ns + 1

/-- The answers of a secondary that has not acted persuade nobody. -/
theorem Unheard.answered {ns : Seq} (h : Unheard q ns e v fs w) (hv : v ≠ ns + 1) {gs gs' : List Rx}
    (ha : Arriving (sec w) gs (sec w')) (hsub : gs'.Sublist gs)
    (hin : inbox w' = inbox w ++ gs') (hex : Medium.executed w' = Medium.executed w) :
    Unheard q ns e v fs w' where
  executed := hex.trans h.executed
  vr := ha.vr.trans h.vr
  owed pl hpl := h.owed pl (ha.coming_subset hpl)
  frames f hf := by
    rw [hin, ← List.append_assoc, List.mem_append] at hf
    rcases hf with hf | hf
    · exact h.frames f hf
    have hf := hsub.subset hf
    rintro ⟨-, hk, hnr | ⟨hi, hroute⟩⟩
    · rcases ha.old f hf with hu | hold
      · exact hk hu
      · exact hv (h.vr.symm.trans (hold.symm.trans hnr))
    · exact h.owed _ (ha.mem_coming hf hi) hroute

/-- What holds while a call runs that began when nothing could mislead it. -/
def Watched (q : Call υ) (ns : Seq) (e : List Bytes) (v : Seq) (fs : List Rx) (a : Bool) (w : W) :
    Prop :=
  Sound w ∧ Strict (Fits W) q.addr (sec w) ∧
    (a = false ∧ Unheard q ns e v fs w ∨ ActedOnce q ns e w)

/-- No frame takes the call by surprise. -/
theorem carries_watched (hv : v ≠ p.vs + 1) :
    Carries q p (Watched (W := W) q p.vs e v) where
  sound h := h.1
  strict h := h.2.1
  reaction := by
    intro fs a w w' h hs hr
    refine ⟨hs, hr.strict h.2.1, ?_⟩
    have hnext : ∀ n : Seq, n ≠ n + 1 := by decide
    cases hr with
    | answered gs gs' ha hsub hin hex =>
        rcases h.2.2 with ⟨ha', hun⟩ | hact
        · exact Or.inl ⟨ha', hun.answered hv ha hsub hin hex⟩
        · exact Or.inr ⟨hex.trans hact.executed, ha.vr.trans hact.vr⟩
    | acted gs gs' hns ha hsub hin hex =>
        rcases h.2.2 with ⟨-, hun⟩ | hact
        · refine Or.inr ⟨by rw [hex, hun.executed], ?_⟩
          rw [ha.vr, hns]
          rfl
        · -- it expects another N(S) by now
          exact absurd (hns.trans hact.vr) (hnext _)
  came := by
    rintro fs a w w' ⟨hs, hst, h⟩ hc
    refine ⟨hc.sound, by rwa [hc.sec], h.imp (fun hun => ⟨hun.1, ?_⟩) fun hact => ?_⟩
    · have hall : fs ++ inbox w' = [] ++ inbox w := hc.inbox
      exact ⟨hc.executed.trans hun.2.executed, by rw [hc.sec, hun.2.vr],
        by rw [hall]; exact hun.2.frames, by rw [hc.sec]; exact hun.2.owed⟩
    · exact ⟨hc.executed.trans hact.executed, by rw [hc.sec, hact.vr]⟩
  skip := by
    rintro f fs a w ⟨hs, hst, h⟩
    refine ⟨hs, hst, h.imp_left fun hun => ⟨hun.1, hun.2.executed, hun.2.vr, ?_, hun.2.owed⟩⟩
    exact fun g hg => hun.2.frames g (List.mem_cons_of_mem _ hg)
  persuaded := by
    rintro f fs w ⟨hs, hst, h⟩ hf
    rcases h with ⟨-, hun⟩ | hact
    · exact absurd hf (hun.frames f (List.mem_cons_self ..))
    · exact ⟨hs, hst, Or.inr hact⟩

/-- What holds while a call runs whose N(S) the secondary does not expect. -/
def Declined (q : Call υ) (e : List Bytes) (v : Seq) (_ : List Rx) (_ : Bool) (w : W) : Prop :=
  Sound w ∧ Strict (Fits W) q.addr (sec w) ∧ executed w = e ∧ (sec w).vr = v

/-- The secondary does not come to expect it. -/
theorem carries_declined (hv : p.vs ≠ v) : Carries q p (Declined (W := W) q e v) where
  sound h := h.1
  strict h := h.2.1
  reaction := by
    intro fs a w w' h hs hr
    refine ⟨hs, hr.strict h.2.1, ?_⟩
    cases hr with
    | answered gs gs' ha hsub hin hex => exact ⟨hex.trans h.2.2.1, ha.vr.trans h.2.2.2⟩
    | acted gs gs' hns => exact absurd (hns.trans h.2.2.2) hv
  came := by
    rintro fs a w w' ⟨hs, hst, hex, hvr⟩ hc
    exact ⟨hc.sound, by rwa [hc.sec], hc.executed.trans hex, by rwa [hc.sec]⟩
  skip h := h
  persuaded h _ := h

/-- The secondary stays strict, whatever the call makes of its answers. -/
theorem carries_strict : Carries q p fun _ _ (w : W) =>
    Sound w ∧ Strict (Fits W) q.addr (sec w) where
  sound h := h.1
  strict h := h.2
  reaction h hs hr := ⟨hs, hr.strict h.2⟩
  came h hc := ⟨hc.sound, by rw [hc.sec]; exact h.2⟩
  skip h := h
  persuaded h _ := h

end Phases

/-! ## Calls one after the other -/

section Calls

variable {W υ : Type} [Line W] [Channel W] {addr : Byte} {q : Call υ} {s s₀ : LinkSt W υ} {n : ℕ}

/-- Behind the line is a strict secondary at `addr`. -/
def Facing (addr : Byte) (s : LinkSt W υ) : Prop :=
  Sound s.world ∧ Strict (Fits W) addr (sec s.world)

/-- **Nothing can mislead the call.**  The secondary has not taken a message under the number that
V(S) still shows, and no acknowledgement of that number is on its way, and no payload that the
router takes for the response is on its way or still owed. -/
structure Ready (q : Call υ) (s : LinkSt W υ) : Prop where
  number : (sec s.world).vr ≠ (s.link.peers q.addr).vs + 1
  frames : ∀ f ∈ inbox s.world, ¬ Persuades q (s.link.peers q.addr).vs f
  owed : ∀ pl ∈ (sec s.world).coming, q.router pl ≠ .accept

/-- If the call returns, or times out acknowledged, the secondary has acted on its message, and
once. -/
def Truthful (n : ℕ) (q : Call υ) (s : LinkSt W υ) : Prop :=
  believes (exchange n q s).1 = some true →
    executed (exchange n q s).2.world = executed s.world ++ [q.message]

/-- The states between calls at `addr`, all of which kept the link. -/
inductive Reached (addr : Byte) (s₀ : LinkSt W υ) : LinkSt W υ → Prop where
  | start : Reached addr s₀ s₀
  | call {s : LinkSt W υ} (n : ℕ) (q : Call υ) (station : q.addr = addr)
      (fits : Fits W q.message) (kept : (believes (exchange n q s).1).isSome) :
      Reached addr s₀ s → Reached addr s₀ (exchange n q s).2

/-- How a call leaves the line, whatever came of it. -/
theorem Carries.exchange {J : List Rx → Bool → W → Prop}
    (h : Carries q (s.link.peers q.addr) J) (hfit : Fits W q.message) (hJ : J [] false s.world)
    (n : ℕ) :
    LeftBy J q (s.link.peers q.addr) (believes (Link.exchange n q s).1)
      (Link.exchange n q s).2 := by
  have hwp := h.wp_exchange (n := n) hfit rfl hJ
  unfold wp at hwp
  rcases hrun : Link.exchange n q s with ⟨o, t⟩
  rw [hrun] at hwp
  cases o with
  | ret payload => exact hwp
  | raise e => exact hwp
  | stall => exact hwp

/-- A call keeps what the line is. -/
theorem Facing.exchange (h : Facing q.addr s) (hfit : Fits W q.message) (n : ℕ) :
    Facing q.addr (Link.exchange n q s).2 := by
  obtain ⟨-, -, hleft, -⟩ := carries_strict.exchange hfit h n
  exact hleft

/-- The secondary stays strict over all calls. -/
theorem Reached.facing (h : Reached addr s₀ s) (hs : Facing addr s₀) : Facing addr s := by
  induction h with
  | start => exact hs
  | call n q station fits _ _ ih =>
      subst station
      exact ih.exchange fits n

/-- What a call that nothing can mislead leaves. -/
theorem Ready.leftBy (h : Ready q s) (hs : Facing q.addr s) (hfit : Fits W q.message) (n : ℕ) :
    LeftBy (Watched q (s.link.peers q.addr).vs (executed s.world) (sec s.world).vr) q
      (s.link.peers q.addr) (believes (exchange n q s).1) (exchange n q s).2 :=
  (carries_watched h.number).exchange hfit
    ⟨hs.1, hs.2, Or.inl ⟨rfl, rfl, rfl, h.frames, h.owed⟩⟩ n

/-- **A call that starts in step leaves the two stations in step**, with one exception: it times out
unacknowledged although its message was acted on.  Then the secondary is one ahead of V(S). -/
theorem Ready.inStep (h : Ready q s) (hs : Facing q.addr s) (hfit : Fits W q.message)
    (hstep : (sec s.world).vr = (s.link.peers q.addr).vs)
    (hkept : (believes (exchange n q s).1).isSome) :
    (sec (exchange n q s).2.world).vr = ((exchange n q s).2.link.peers q.addr).vs ∨
      (believes (exchange n q s).1 = some false ∧
        executed (exchange n q s).2.world = executed s.world ++ [q.message] ∧
        (sec (exchange n q s).2.world).vr = ((exchange n q s).2.link.peers q.addr).vs + 1) := by
  obtain ⟨fs, a, ⟨-, -, hw⟩, hsays⟩ := h.leftBy hs hfit n
  obtain ⟨acked, hacked⟩ := Option.isSome_iff_exists.1 hkept
  obtain ⟨rfl, hvs⟩ := hsays acked hacked
  rcases hw with ⟨rfl, hun⟩ | hact
  · refine Or.inl ?_
    rw [hun.vr, hvs, hstep]
    rfl
  cases a with
  | true =>
      refine Or.inl ?_
      rw [hact.vr, hvs]
      rfl
  | false =>
      refine Or.inr ⟨hacked, hact.executed, ?_⟩
      rw [hact.vr, hvs]
      rfl

/-- **What a call says of its message is true when nothing can mislead it**, whichever calls came
before.  When the secondary does not expect V(S), it acts on nothing, so that a call which says
otherwise is wrong. -/
theorem calls_truthful (hs₀ : Facing addr s₀) (hs : Reached addr s₀ s) (haddr : q.addr = addr)
    (hfit : Fits W q.message) (n : ℕ) :
    (Ready q s → Truthful n q s) ∧
      ((s.link.peers addr).vs ≠ (sec s.world).vr →
        executed (exchange n q s).2.world = executed s.world) := by
  subst haddr
  have hfacing := hs.facing hs₀
  refine ⟨fun h htrue => ?_, fun hne => ?_⟩
  · obtain ⟨fs, a, ⟨-, -, hw⟩, hsays⟩ := h.leftBy hfacing hfit n
    obtain ⟨rfl, -⟩ := hsays true htrue
    rcases hw with ⟨hno, -⟩ | hact
    · cases hno
    · exact hact.executed
  · obtain ⟨fs, a, ⟨-, -, hex, -⟩, -⟩ := (carries_declined hne).exchange hfit
      ⟨hfacing.1, hfacing.2, rfl, rfl⟩ n
    exact hex

end Calls

/-! ## A message under a used number -/

/-- Both stations after `connect`.  The frames with these numbers are lost. -/
def connectedBehind (lost : ℕ → Bool) : LinkSt Lossy Unit where
  world :=
    { sec := { connected := true, rrBeforeResponse := 1
               responses := some [(0x33, retapResponse 0x33)] }
      clock := fun n => ms 1000 * n
      lost := lost
      ready := fun _ => 2 }
  link := {}
  log := []
  user := ()

/-- The secondary is strict. -/
theorem facing_connectedBehind (lost : ℕ → Bool) : Facing 1 (connectedBehind lost) :=
  ⟨trivial, rfl, rfl, fun _ h => (by cases h), fun _ => trivial, fun _ _ => trivial⟩

/-- A SetTilt to `n` tenths of a degree. -/
def tiltTo (n : Byte) : Call Unit := { addr := 1, message := [0x33, 2, 0, n, 0] }

/-- The command of the first call is lost, and all its polls: the next call can be believed. -/
theorem calls_truthful_afterLoss :
    executed (exchange 10 (tiltTo 50) (exchange 10 (tiltTo 30)
      (connectedBehind fun n => n ≤ 3)).2).2.world = [[0x33, 2, 0, 50, 0]] := by
  have hreached : Reached 1 (connectedBehind fun n => n ≤ 3) _ :=
    .call 10 (tiltTo 30) rfl trivial (by decide +kernel) .start
  have hready : Ready (tiltTo 50)
      (exchange 10 (tiltTo 30) (connectedBehind fun n => n ≤ 3)).2 :=
    ⟨by decide +kernel, by decide +kernel, by decide +kernel⟩
  have hbelieves : believes (exchange 10 (tiltTo 50) (exchange 10 (tiltTo 30)
      (connectedBehind fun n => n ≤ 3)).2).1 = some true := by decide +kernel
  have hnone :
      executed (exchange 10 (tiltTo 30) (connectedBehind fun n => n ≤ 3)).2.world = [] := by
    decide +kernel
  have htrue :=
    (calls_truthful (facing_connectedBehind _) hreached rfl trivial 10).1 hready hbelieves
  rw [hnone] at htrue
  exact htrue

/-- **The second SetTilt returns OK, and only the first was acted on.**  The first command arrived
and all answers to it were lost, so that it timed out unacknowledged; the second has the same N(S).
The secondary rejects it, with the N(R) that acknowledges the first, and then sends the response
that it still owes. -/
theorem tiltTo_not_truthful :
    Facing 1 (connectedBehind fun n => 1 ≤ n ∧ n ≤ 4) ∧
      ¬ ∀ s, Reached 1 (connectedBehind fun n => 1 ≤ n ∧ n ≤ 4) s → Truthful 10 (tiltTo 50) s := by
  refine ⟨facing_connectedBehind _, fun h => ?_⟩
  have hreached : Reached 1 (connectedBehind fun n => 1 ≤ n ∧ n ≤ 4) _ :=
    .call 10 (tiltTo 30) rfl trivial (by decide +kernel) .start
  have hfalse := h _ hreached (by decide +kernel)
  revert hfalse
  decide +kernel

end OpenAisg.Link
