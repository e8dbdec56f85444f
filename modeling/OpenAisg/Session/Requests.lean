import OpenAisg.Link.FakeSecondary
import OpenAisg.Session.Alarms

/-!
# Requests to the strict secondary

The link of the tests and the secondary of the tests, over whole lists of requests.  Here the
line loses nothing, so a call that does not time out must succeed, and leave the two stations
ready for the next.

* `Request` — one call of `exchange`, and how the secondary is set up to answer it.
* `serveAll` — the calls one after the other.
* `InStep` — what relates the two stations between calls: each expects what the other
  sends next, and nothing that is still on the line will be taken up.
* `Serving` — the same while a call runs, with what is on the line and still to come.
* `Reading`, `Waiting` — between two frames of a batch and between two passes, with a bound for
  the answers that are still needed.
* `serveAll_served` — unless a call times out, each returns the response to its own request
  and leaves the stations in step.
-/

namespace OpenAisg.Session

open Hdlc Link Prog

/-! ## The calls -/

/-- A request, its response, and what the secondary sends before it. -/
structure Request where
  message : Bytes
  timeout : Time := ms 3000
  pollInterval : Time := ms 50
  response : Bytes := []
  responses : Option (List (Byte × Bytes)) := none
  rrBeforeResponse : ℕ := 0
  indications : List (Bytes × Bool) := []
  duplicateResponse : Bool := false

namespace Request

/-- The attributes of the secondary that a test sets before the call. -/
def setUp (r : Request) (sec : FakeSecondary) : FakeSecondary :=
  { sec with
    response := r.response
    responses := r.responses
    rrBeforeResponse := r.rrBeforeResponse
    indications := r.indications
    duplicateResponse := r.duplicateResponse }

/-- The response to this request. -/
def reply (r : Request) : Bytes := (r.setUp {}).responseFor r.message

/-- The indications that come before it. -/
def reports (r : Request) : List Bytes := r.indications.map Prod.fst

/-- How many answers it takes. -/
def answers (r : Request) : ℕ := r.indications.length + r.rrBeforeResponse + 1

/-- The call; `on_indication` is `seen.append`. -/
def call (r : Request) (addr : Byte) : Call (List Bytes) :=
  { addr := addr, message := r.message, timeout := r.timeout, pollInterval := r.pollInterval
    router := retapRouter r.message.head?
    onIndication := fun payload seen => seen ++ [payload] }

/-- The request is none for an indication, the response starts with its code, and what is
reported are indications. -/
structure Proper (r : Request) : Prop where
  code : r.message.head?.isSome = true
  reply : r.reply.head? = r.message.head?
  noIndication : isIndication r.message = false
  reports : ∀ pl ∈ r.reports, isIndication pl = true

end Request

instance (r : Request) : Decidable r.Proper :=
  decidable_of_iff (r.message.head?.isSome = true ∧ r.reply.head? = r.message.head? ∧
      isIndication r.message = false ∧ ∀ pl ∈ r.reports, isIndication pl = true)
    ⟨fun ⟨h₁, h₂, h₃, h₄⟩ => ⟨h₁, h₂, h₃, h₄⟩, fun h => ⟨h.code, h.reply, h.noIndication, h.reports⟩⟩

/-- The response is no indication. -/
theorem Request.Proper.isIndication_reply {r : Request} (h : r.Proper) :
    isIndication r.reply = false := by
  have hreply := h.reply
  have hno := h.noIndication
  cases hm : r.message with
  | nil =>
      have := h.code
      simp [hm] at this
  | cons c cs =>
      cases hp : r.reply with
      | nil => rfl
      | cons c' cs' =>
          rw [hm, hp] at hreply
          rw [hm] at hno
          cases hreply
          exact hno

/-- A test that sets up the secondary, and then calls `exchange`. -/
def serve (fuel : ℕ) (addr : Byte) (r : Request) : LinkProg Desk (List Bytes) Bytes := do
  modify fun s => { s with world := { s.world with sec := r.setUp s.world.sec } }
  exchange fuel (r.call addr)

/-- One call after the other. -/
def serveAll (fuel : ℕ) (addr : Byte) : List Request → LinkProg Desk (List Bytes) (List Bytes)
  | [] => pure []
  | r :: rs => do
      let payload ← serve fuel addr r
      let payloads ← serveAll fuel addr rs
      pure (payload :: payloads)

/-- `isinstance(e, AisgTimeout)`. -/
def TimedOut (e : Exn) : Prop := ∃ addr ns acked polls, e = .aisgTimeout addr ns acked polls

/-! ## Between the calls -/

/-- The two stations are in step. -/
structure InStep (addr : Byte) (s : LinkSt Desk (List Bytes)) : Prop where
  station : s.world.sec.addr = addr
  strict : s.world.sec.strict = true
  rejectWith : s.world.sec.rejectWith = none
  swallowFirst : s.world.sec.swallowFirst = false
  /-- The primary's V(S) is the secondary's V(R). -/
  vs : (s.link.peers addr).vs = s.world.sec.vr
  /-- The primary's V(R) is the secondary's V(S). -/
  vr : (s.link.peers addr).vr = s.world.sec.vs
  answers : ∀ f ∈ s.world.inbox, Answers addr f
  nothing : (reads s.world.sec.vs s.world.inbox).1 = []

/-- The calls for `rs` went well from `s` to `t`. -/
structure Served (addr : Byte) (rs : List Request) (s : LinkSt Desk (List Bytes))
    (payloads : List Bytes) (t : LinkSt Desk (List Bytes)) : Prop where
  inStep : InStep addr t
  /-- Each call returned the response to its own request. -/
  payloads : payloads = rs.map Request.reply
  /-- The indications, each once and in their order. -/
  seen : t.user = s.user ++ rs.flatMap Request.reports
  /-- No wrong N(S) was seen. -/
  rejectedNs : t.world.sec.rejectedNs = s.world.sec.rejectedNs
  /-- One I-frame for each request, and none sent again. -/
  iFramesSeen : t.world.sec.iFramesSeen = s.world.sec.iFramesSeen + rs.length
  retx : t.link.stats.retx = s.link.stats.retx

/-! ## During a call -/

section Call

variable {r : Request} {addr : Byte} {s t t' : LinkSt Desk (List Bytes)} {fs : List Rx} {f : Rx}
  {acked : Bool}

/-- The same secondary, and the same frames on the line. -/
def Alike (w w' : Desk) : Prop := w'.sec = w.sec ∧ w'.inbox = w.inbox

/-- What comes behind the frames `fs` that are being read. -/
def behind (addr : Byte) (fs : List Rx) (t : LinkSt Desk (List Bytes)) : List Bytes :=
  (reads (reads (t.link.peers addr).vr fs).2 t.world.inbox).1 ++ t.world.sec.coming

/-- The call of `r` that began in `s`, while the frames `fs` are being read. -/
structure Serving (r : Request) (addr : Byte) (s : LinkSt Desk (List Bytes)) (fs : List Rx)
    (acked : Bool) (t : LinkSt Desk (List Bytes)) : Prop where
  sec : FakeSecondary.Kept { s.world.sec with
    addr := addr, vr := s.world.sec.vr + 1, iFramesSeen := s.world.sec.iFramesSeen + 1 } t.world.sec
  vs : (t.link.peers addr).vs = if acked then s.world.sec.vr + 1 else s.world.sec.vr
  retx : t.link.stats.retx = s.link.stats.retx
  answers : ∀ f ∈ fs ++ t.world.inbox, Answers addr f
  order : (reads (reads (t.link.peers addr).vr fs).2 t.world.inbox).2 = t.world.sec.vs
  told : ∃ done, t.user = s.user ++ done ∧ (∀ pl ∈ done, isIndication pl = true) ∧
    done ++ (reads (t.link.peers addr).vr fs).1 ++ behind addr fs t = r.reports ++ [r.reply]

/-- The command is acknowledged, or one of these frames acknowledges it. -/
def Acked (s : LinkSt Desk (List Bytes)) (fs : List Rx) (acked : Bool) : Prop :=
  acked = true ∨ ∃ f ∈ fs, nrOf f.ctrl = s.world.sec.vr + 1

namespace Serving

/-- Neither the secondary nor the line is concerned. -/
theorem same (h : Serving r addr s fs acked t) {acked' : Bool} (hw : Alike t.world t'.world)
    (hvs : (t'.link.peers addr).vs = if acked' then s.world.sec.vr + 1 else s.world.sec.vr)
    (hvr : (t'.link.peers addr).vr = (t.link.peers addr).vr)
    (hr : t'.link.stats.retx = t.link.stats.retx) (hu : t'.user = t.user) :
    Serving r addr s fs acked' t' ∧ behind addr fs t' = behind addr fs t := by
  obtain ⟨hsec, hin⟩ := hw
  have hbehind : behind addr fs t' = behind addr fs t := by
    unfold behind
    rw [hsec, hin, hvr]
  refine ⟨⟨?_, hvs, hr.trans h.retx, ?_, ?_, ?_⟩, hbehind⟩
  · rw [hsec]
    exact h.sec
  · rw [hin]
    exact h.answers
  · rw [hvr, hin, hsec]
    exact h.order
  · rw [hu, hvr, hbehind]
    exact h.told

/-- A poll moves what the secondary owes to the line. -/
theorem polled (h : Serving r addr s fs acked t) (vr : Seq)
    (hw : Alike (t.world.hear (rrFrame addr vr)) t'.world)
    (hp : t'.link.peers addr = t.link.peers addr)
    (hr : t'.link.stats.retx = t.link.stats.retx) (hu : t'.user = t.user) :
    Serving r addr s fs acked t' ∧ behind addr fs t' = behind addr fs t ∧
      t'.world.sec.left ≤ t.world.sec.left - 1 := by
  have haddr : t.world.sec.addr = addr := h.sec.addr
  obtain ⟨hsec, hin⟩ := hw
  unfold Desk.hear at hsec hin
  have hs := t.world.sec.serves_poll vr
  rw [haddr] at hs
  have hbehind : behind addr fs t' = behind addr fs t := by
    unfold behind
    rw [hsec, hin, hp, reads_append, h.order, List.append_assoc, hs.coming]
  refine ⟨⟨?_, ?_, hr.trans h.retx, ?_, ?_, ?_⟩, hbehind, ?_⟩
  · rw [hsec]
    exact ⟨hs.addr.trans h.sec.addr, hs.vr.trans h.sec.vr, hs.rejectWith.trans h.sec.rejectWith,
      hs.swallowFirst.trans h.sec.swallowFirst, hs.strict.trans h.sec.strict,
      hs.rejectedNs.trans h.sec.rejectedNs, hs.iFramesSeen.trans h.sec.iFramesSeen⟩
  · rw [hp]
    exact h.vs
  · rw [hin]
    intro g hg
    rcases List.mem_append.1 hg with hg | hg
    · exact h.answers g (List.mem_append_left _ hg)
    · rcases List.mem_append.1 hg with hg | hg
      · exact h.answers g (List.mem_append_right _ hg)
      · exact haddr ▸ (hs.answers g hg).1
  · rw [hin, hp, hsec, reads_append, h.order]
    exact hs.vs
  · rw [hu, hp, hbehind]
    exact h.told
  · rw [hsec]
    exact hs.left

/-- A frame that is not taken up. -/
theorem skip (h : Serving r addr s (f :: fs) acked t)
    (hf : ¬ (kind f.ctrl = .iFrame ∧ nsOf f.ctrl = (t.link.peers addr).vr)) :
    Serving r addr s fs acked t ∧ behind addr fs t = behind addr (f :: fs) t := by
  have hreads : reads (t.link.peers addr).vr (f :: fs) = reads (t.link.peers addr).vr fs := if_neg hf
  have horder := h.order
  have htold := h.told
  have hbehind : behind addr fs t = behind addr (f :: fs) t := by
    unfold behind
    rw [hreads]
  rw [hreads] at horder htold
  rw [← hbehind] at htold
  exact ⟨⟨h.sec, h.vs, h.retx, fun g hg => h.answers g (List.mem_cons_of_mem _ hg), horder, htold⟩,
    hbehind⟩

/-- An indication that is reported. -/
theorem reported (h : Serving r addr s (f :: fs) acked t) (hk : kind f.ctrl = .iFrame)
    (hns : nsOf f.ctrl = (t.link.peers addr).vr) (hpl : isIndication f.payload = true)
    (hw : Alike t.world t'.world) (hvs : (t'.link.peers addr).vs = (t.link.peers addr).vs)
    (hvr : (t'.link.peers addr).vr = nsOf f.ctrl + 1)
    (hr : t'.link.stats.retx = t.link.stats.retx) (hu : t'.user = t.user ++ [f.payload]) :
    Serving r addr s fs acked t' ∧ behind addr fs t' = behind addr (f :: fs) t := by
  obtain ⟨hsec, hin⟩ := hw
  obtain ⟨done, huser, hall, htold⟩ := h.told
  have hreads : reads (t.link.peers addr).vr (f :: fs) =
      (f.payload :: (reads (t'.link.peers addr).vr fs).1, (reads (t'.link.peers addr).vr fs).2) := by
    rw [hvr, hns]
    exact if_pos ⟨hk, hns⟩
  have hbehind : behind addr fs t' = behind addr (f :: fs) t := by
    unfold behind
    rw [hreads, hsec, hin]
  have horder := h.order
  rw [hreads] at horder htold
  refine ⟨⟨?_, hvs.trans h.vs, hr.trans h.retx, ?_, ?_, done ++ [f.payload], ?_, ?_, ?_⟩, hbehind⟩
  · rw [hsec]
    exact h.sec
  · rw [hin]
    exact fun g hg => h.answers g (List.mem_cons_of_mem _ hg)
  · rw [hin, hsec]
    exact horder
  · rw [hu, huser, List.append_assoc]
  · intro pl hmem
    rcases List.mem_append.1 hmem with hmem | hmem
    · exact hall pl hmem
    · rwa [List.mem_singleton.1 hmem]
  · rw [hbehind, ← htold]
    simp

/-- The response, and nothing behind it. -/
theorem last (h : Serving r addr s (f :: fs) acked t) (hr : r.Proper) (hk : kind f.ctrl = .iFrame)
    (hns : nsOf f.ctrl = (t.link.peers addr).vr) (hpl : isIndication f.payload = false) :
    f.payload = r.reply ∧ t.user = s.user ++ r.reports ∧ t.world.sec.vs = nsOf f.ctrl + 1 ∧
      (reads (nsOf f.ctrl + 1) t.world.inbox).1 = [] := by
  obtain ⟨done, huser, hall, htold⟩ := h.told
  have hreads : reads (t.link.peers addr).vr (f :: fs) =
      (f.payload :: (reads (nsOf f.ctrl + 1) fs).1, (reads (nsOf f.ctrl + 1) fs).2) := by
    rw [hns]
    exact if_pos ⟨hk, hns⟩
  have horder := h.order
  unfold behind at htold
  rw [hreads] at horder htold
  -- the response is the first payload that is no indication
  have hreply : isIndication r.reply = false := hr.isIndication_reply
  have hdone : done = r.reports := by
    have := congrArg (List.takeWhile isIndication) htold
    simpa [List.takeWhile_append_of_pos hall, List.takeWhile_append_of_pos hr.reports, hpl, hreply]
      using this
  rw [hdone, List.append_assoc, List.append_cancel_left_eq, List.cons_append, List.cons.injEq,
    List.append_eq_nil_iff, List.append_eq_nil_iff] at htold
  obtain ⟨hpayload, hfs, hinbox, -⟩ := htold
  rw [reads_snd_of_nil hfs] at hinbox horder
  rw [reads_snd_of_nil hinbox] at horder
  exact ⟨hpayload, by rw [huser, hdone], horder.symm, hinbox⟩

end Serving

/-- Between two frames of a batch.  `m` bounds the answers that are still needed; with none,
the response is among the frames. -/
structure Reading (r : Request) (addr : Byte) (s : LinkSt Desk (List Bytes)) (m : ℕ) (fs : List Rx)
    (x : Flight) (t : LinkSt Desk (List Bytes)) : Prop where
  serving : Serving r addr s fs x.acked t
  ack : Acked s fs x.acked
  nothing : m = 0 → behind addr fs t = []
  left : t.world.sec.left ≤ m

/-- A poll among the frames. -/
theorem Reading.polled {m : ℕ} {x x' : Flight} (h : Reading r addr s m fs x t)
    (hx : x'.acked = x.acked) (vr : Seq) (hw : Alike (t.world.hear (rrFrame addr vr)) t'.world)
    (hp : t'.link.peers addr = t.link.peers addr) (hr : t'.link.stats.retx = t.link.stats.retx)
    (hu : t'.user = t.user) : Reading r addr s m fs x' t' := by
  obtain ⟨hserving, hbehind, hleft⟩ := h.serving.polled vr hw hp hr hu
  refine ⟨hx ▸ hserving, hx ▸ h.ack, fun hm => ?_, ?_⟩
  · rw [hbehind]
    exact h.nothing hm
  · exact Nat.le_trans hleft (Nat.le_trans (Nat.sub_le _ _) h.left)

/-- An indication is reported, and polled for more. -/
theorem Reading.reported {m : ℕ} {x x' : Flight} (h : Serving r addr s (f :: fs) x.acked t)
    (ha : Acked s fs x.acked) (hm : m = 0 → behind addr (f :: fs) t = [])
    (hl : t.world.sec.left ≤ m) (hx : x'.acked = x.acked) (hk : kind f.ctrl = .iFrame)
    (hns : nsOf f.ctrl = (t.link.peers addr).vr) (hpl : isIndication f.payload = true) (vr : Seq)
    (hw : Alike (t.world.hear (rrFrame addr vr)) t'.world)
    (hvs : (t'.link.peers addr).vs = (t.link.peers addr).vs)
    (hvr : (t'.link.peers addr).vr = nsOf f.ctrl + 1)
    (hr : t'.link.stats.retx = t.link.stats.retx) (hu : t'.user = t.user ++ [f.payload]) :
    Reading r addr s m fs x' t' := by
  have hreported : Serving r addr s fs x.acked { t' with world := t.world } ∧
      behind addr fs { t' with world := t.world } = behind addr (f :: fs) t :=
    h.reported hk hns hpl ⟨rfl, rfl⟩ hvs hvr hr hu
  have hread : Reading r addr s m fs x { t' with world := t.world } :=
    ⟨hreported.1, ha, fun h0 => hreported.2.trans (hm h0), hl⟩
  exact hread.polled hx vr hw rfl rfl rfl

/-- The response ends the call. -/
theorem served_of_last {x : Flight} (hs : InStep addr s) (hr : r.Proper) (hk : kind f.ctrl = .iFrame)
    (h : Serving r addr s (f :: fs) x.acked t) (hns : nsOf f.ctrl = (t.link.peers addr).vr)
    (hpl : isIndication f.payload = false) (hw : Alike t.world t'.world)
    (hvs : (t'.link.peers addr).vs = s.world.sec.vr + 1)
    (hvr : (t'.link.peers addr).vr = nsOf f.ctrl + 1)
    (hretx : t'.link.stats.retx = t.link.stats.retx) (hu : t'.user = t.user) :
    Served addr [r] s [f.payload] t' := by
  obtain ⟨hreply, huser, hvs', hnothing⟩ := h.last hr hk hns hpl
  obtain ⟨hsec, hin⟩ := hw
  refine ⟨⟨?_, ?_, ?_, ?_, ?_, ?_, ?_, ?_⟩, ?_, ?_, ?_, ?_, hretx.trans h.retx⟩
  · rw [hsec]
    exact h.sec.addr
  · rw [hsec]
    exact h.sec.strict.trans hs.strict
  · rw [hsec]
    exact h.sec.rejectWith.trans hs.rejectWith
  · rw [hsec]
    exact h.sec.swallowFirst.trans hs.swallowFirst
  · rw [hvs, hsec]
    exact h.sec.vr.symm
  · rw [hvr, hsec, hvs']
  · rw [hin]
    exact fun g hg => h.answers g (List.mem_append_right _ hg)
  · rw [hin, hsec, hvs']
    exact hnothing
  · rw [hreply]
    rfl
  · rw [hu, huser]
    simp
  · rw [hsec]
    exact h.sec.rejectedNs
  · rw [hsec]
    exact h.sec.iFramesSeen

/-- The command is acknowledged when the secondary says so. -/
theorem wp_ackedOr_serving (h : Serving r addr s (f :: fs) acked t) (ha : Acked s (f :: fs) acked)
    {Q : Bool → LinkSt Desk (List Bytes) → Prop} {E : Exn → LinkSt Desk (List Bytes) → Prop}
    {S : LinkSt Desk (List Bytes) → Prop}
    (hQ : ∀ acked' u, Serving r addr s (f :: fs) acked' u ∧
      behind addr (f :: fs) u = behind addr (f :: fs) t → Acked s fs acked' → u.world = t.world →
      Q acked' u) :
    wp (ackedOr acked addr f.ctrl s.world.sec.vr) Q E S t := by
  unfold ackedOr
  rw [wp_ite]
  refine ⟨fun hacked => hQ true t ⟨hacked ▸ h, rfl⟩ (Or.inl rfl) rfl, fun hacked => ?_⟩
  unfold applyAck
  rw [wp_ite]
  refine ⟨fun hnr => ?_, fun hnr => ?_⟩
  · rw [wp_bind, wp_setPeer, wp_pure]
    exact hQ true _ (h.same ⟨rfl, rfl⟩ (by simp) (by simp) rfl rfl) (Or.inl rfl) rfl
  · refine hQ false t ⟨?_, rfl⟩ ?_ rfl
    · rwa [Bool.eq_false_iff.2 hacked] at h
    · rcases ha with ha | ⟨g, hg, hnr'⟩
      · exact absurd ha hacked
      · rcases List.mem_cons.1 hg with rfl | hg
        · exact absurd hnr' hnr
        · exact Or.inr ⟨g, hg, hnr'⟩

/-- The I-frame path. -/
theorem wp_onIFrame_serving {m : ℕ} {x : Flight} (hs : InStep addr s) (hr : r.Proper)
    (hk : kind f.ctrl = .iFrame) (h : Serving r addr s (f :: fs) x.acked t)
    (ha : Acked s fs x.acked) (hm : m = 0 → behind addr (f :: fs) t = [])
    (hl : t.world.sec.left ≤ m) :
    wp (onIFrame (r.call addr) s.world.sec.vr x f)
      (Step.post (fun payload => Served addr [r] s [payload]) (Reading r addr s m fs))
      (fun e _ => TimedOut e) (fun _ => False) t := by
  unfold onIFrame
  rw [wp_bind, wp_peer, wp_ite]
  refine ⟨fun hns => ?_, fun hns => ?_⟩
  · -- the second copy of an I-frame
    rw [wp_bind, wp_bump, wp_bind, wp_write_desk, wp_pure]
    obtain ⟨hskip, hbehind⟩ := h.skip fun hf => hns hf.2
    have hread : Reading r addr s m fs x t := ⟨hskip, ha, fun h0 => hbehind.trans (hm h0), hl⟩
    exact hread.polled rfl _ ⟨rfl, rfl⟩ rfl rfl rfl
  have hns : nsOf f.ctrl = (t.link.peers addr).vr := not_not.1 hns
  rw [wp_bind, wp_logEvent, wp_bind, wp_setPeer]
  have hverdict := retapRouter_indication_iff r.message.head? f.payload
  by_cases hpl : isIndication f.payload = true
  · have hroute : (r.call addr).router f.payload = .indication := hverdict.2 hpl
    rw [hroute]
    rw [wp_bind, wp_write_desk, wp_bind, wp_callback, wp_bind, wp_monotonic, wp_pure]
    exact Reading.reported h ha hm hl rfl hk hns hpl _ ⟨rfl, rfl⟩ (by simp [Request.call])
      (by simp [Request.call]) rfl rfl
  · have hpl : isIndication f.payload = false := by simpa using hpl
    have hroute : (r.call addr).router f.payload = .accept := by
      obtain ⟨hreply, -⟩ := h.last hr hk hns hpl
      obtain ⟨code, hcode⟩ := Option.isSome_iff_exists.1 hr.code
      show retapRouter r.message.head? f.payload = .accept
      rw [hcode, retapRouter_accept_iff, hreply, hr.reply]
      exact ⟨hcode, hr.isIndication_reply⟩
    rw [hroute]
    rw [wp_bind, wp_write_desk, wp_bind, wp_onlyIf]
    have hworld : Alike t.world (t.world.hear (rrFrame addr (nsOf f.ctrl + 1) false)) := by
      have haddr : t.world.sec.addr = addr := h.sec.addr
      unfold Desk.hear
      rw [← haddr, FakeSecondary.hear_release]
      exact ⟨rfl, List.append_nil _⟩
    refine ⟨fun hacked => ?_, fun hacked => ?_⟩
    · exact served_of_last hs hr hk h hns hpl hworld (by simp [Request.call])
        (by simp [Request.call]) rfl rfl
    · refine served_of_last hs hr hk h hns hpl hworld ?_ (by simp [Request.call]) rfl rfl
      have hvs := h.vs
      rw [if_pos (by simpa using hacked)] at hvs
      simpa [Request.call] using hvs

/-- One frame of a batch. -/
theorem wp_onFrame_serving {m : ℕ} {x : Flight} {frame : Frame} (hs : InStep addr s)
    (hr : r.Proper) (h : Reading r addr s m (f :: fs) x t) :
    wp (onFrame (r.call addr) frame s.world.sec.vr x f)
      (Step.post (fun payload => Served addr [r] s [payload]) (Reading r addr s m fs))
      (fun e _ => TimedOut e) (fun _ => False) t := by
  obtain ⟨haddr, hkind⟩ := h.serving.answers f (List.mem_cons_self ..)
  have hlog : Serving r addr s (f :: fs) x.acked
      { t with log := t.log ++ [.rx (.exchange r.message) f] } :=
    ⟨h.serving.sec, h.serving.vs, h.serving.retx, h.serving.answers, h.serving.order, h.serving.told⟩
  unfold onFrame
  rw [wp_ite]
  refine ⟨fun hne => absurd haddr hne, fun _ => ?_⟩
  rw [wp_bind, wp_logEvent, wp_ite]
  refine ⟨fun hu => ?_, fun _ => ?_⟩
  · rcases hkind with hk | hk <;> rw [hk] at hu <;> cases hu
  rw [wp_bind]
  refine wp_ackedOr_serving hlog h.ack fun acked u hu hacked hw => ?_
  have hnothing : m = 0 → behind addr (f :: fs) u = [] := fun h0 => hu.2.trans (h.nothing h0)
  have hleft : u.world.sec.left ≤ m := by
    rw [hw]
    exact h.left
  unfold onSequenced
  rcases hkind with hk | hk <;> rw [hk]
  · exact wp_onIFrame_serving hs hr hk hu.1 hacked hnothing hleft
  · obtain ⟨hskip, hbehind⟩ := hu.1.skip fun hf => by rw [hk] at hf; cases hf.1
    exact ⟨hskip, hacked, fun h0 => hbehind.trans (hnothing h0), hleft⟩

/-- Between two passes. -/
structure Waiting (r : Request) (addr : Byte) (s : LinkSt Desk (List Bytes)) (m : ℕ) (x : Flight)
    (t : LinkSt Desk (List Bytes)) : Prop where
  serving : Serving r addr s [] x.acked t
  ack : Acked s t.world.inbox x.acked
  left : t.world.sec.left = m

/-- A batch is everything that was sent so far. -/
theorem Waiting.batch {m : ℕ} {x : Flight} (h : Waiting r addr s m x t)
    (hw : t'.world = { t.world with inbox := [] }) (hl : t'.link = t.link) (hu : t'.user = t.user) :
    Reading r addr s m t.world.inbox x t' := by
  have hbehind : behind addr t.world.inbox t' = t.world.sec.coming := by
    unfold behind
    rw [hw]
    rfl
  have htold := h.serving.told
  have hall : behind addr [] t = (reads (t.link.peers addr).vr t.world.inbox).1 ++
      t.world.sec.coming := rfl
  rw [hall] at htold
  refine ⟨⟨?_, ?_, ?_, ?_, ?_, ?_⟩, h.ack, fun hm => ?_, ?_⟩
  · rw [hw]
    exact h.serving.sec
  · rw [hl]
    exact h.serving.vs
  · rw [hl]
    exact h.serving.retx
  · rw [hw, List.append_nil]
    exact h.serving.answers
  · rw [hw, hl]
    exact h.serving.order
  · rw [hbehind, hu, hl]
    simpa [reads] using htold
  · rw [hbehind]
    exact FakeSecondary.coming_of_left (h.left.trans hm)
  · rw [hw]
    exact Nat.le_of_eq h.left

/-- Every pass ends with a poll, and the secondary owes less. -/
theorem Reading.waiting {m : ℕ} {x x' : Flight} (h : Reading r addr s m [] x t) (hm : 0 < m)
    (hx : x'.acked = x.acked) (ha : x.acked = true) (vr : Seq)
    (hw : Alike (t.world.hear (rrFrame addr vr)) t'.world)
    (hp : t'.link.peers addr = t.link.peers addr) (hr : t'.link.stats.retx = t.link.stats.retx)
    (hu : t'.user = t.user) : ∃ m' < m, Waiting r addr s m' x' t' := by
  obtain ⟨hserving, -, hleft⟩ := h.serving.polled vr hw hp hr hu
  have := h.left
  exact ⟨t'.world.sec.left, by omega, hx ▸ hserving, Or.inl (hx.trans ha), rfl⟩

/-- The end of a pass that did not bring the response. -/
theorem wp_passEnd_serving {m : ℕ} {x : Flight} {frame : Frame} (hr : r.Proper)
    (h : Reading r addr s m [] x t) :
    wp (passEnd (r.call addr) frame s.world.sec.vr x)
      (Step.post (fun payload => Served addr [r] s [payload])
        fun x' t' => ∃ m' < m, Waiting r addr s m' x' t')
      (fun e _ => TimedOut e) (fun _ => False) t := by
  have hacked : x.acked = true := by
    rcases h.ack with ha | ⟨f, hf, -⟩
    · exact ha
    · exact absurd hf List.not_mem_nil
  -- the response is still to come
  have hpos : 0 < m := by
    by_contra h0
    obtain ⟨done, -, hall, htold⟩ := h.serving.told
    rw [h.nothing (by omega), reads, List.append_nil, List.append_nil] at htold
    have hmem : r.reply ∈ done := htold ▸ List.mem_append_right _ (List.mem_singleton_self _)
    have hind := hall _ hmem
    rw [hr.isIndication_reply] at hind
    cases hind
  unfold passEnd
  rw [wp_bind, wp_monotonic, wp_ite]
  refine ⟨fun hre => ?_, fun _ => ?_⟩
  · rw [hacked] at hre
    exact absurd hre.1 (by simp)
  rw [wp_ite]
  refine ⟨fun _ => ⟨_, _, _, _, rfl⟩, fun _ => ?_⟩
  rw [wp_bind, wp_bump, wp_bind, wp_callback, wp_bind, wp_sleep, wp_bind, wp_peer, wp_bind,
    wp_write_desk, wp_pure]
  exact h.waiting hpos rfl hacked _ ⟨rfl, rfl⟩ rfl rfl rfl

/-- A whole call, once the command is on the line. -/
theorem wp_loop_serving {m : ℕ} {x : Flight} {frame : Frame} {fuel : ℕ} (hs : InStep addr s)
    (hr : r.Proper) (hm : m < fuel) (h : Waiting r addr s m x t) :
    wp (loop (Link.pass (r.call addr) frame s.world.sec.vr) fuel x)
      (fun payload => Served addr [r] s [payload]) (fun e _ => TimedOut e) (fun _ => False) t := by
  refine wp_loop_measure (Waiting r addr s) (fun m x t h => ?_) fuel m x t hm h
  unfold Link.pass
  rw [wp_bind, wp_readFrames_desk, wp_bind]
  have hread : Reading r addr s m t.world.inbox x { t with
      world := { t.world with inbox := [] }, log := t.log ++ [.batch t.world.inbox] } :=
    h.batch rfl rfl rfl
  refine (wp_scan (Reading r addr s m) (fun f fs x t h => wp_onFrame_serving hs hr h) _ x _
    hread).mono (fun out u hu => ?_) (fun _ _ h => h) fun _ h => h
  cases out with
  | done payload => exact hu
  | next x' => exact wp_passEnd_serving hr hu

/-- The secondary hears the command: it then owes what the request is set up for, and answers
with the first of it. -/
theorem heard_command (hs : InStep addr s) (hsec : r.setUp s.world.sec = s.world.sec) :
    ∃ heard : FakeSecondary,
      s.world.hear (commandFrame (r.call addr) (s.link.peers addr)) = { s.world with
        sec := heard.next.2, inbox := s.world.inbox ++ heard.next.1 } ∧
      FakeSecondary.Kept { s.world.sec with
        addr := addr, vr := s.world.sec.vr + 1
        iFramesSeen := s.world.sec.iFramesSeen + 1 } heard ∧
      heard.vs = s.world.sec.vs ∧ heard.coming = r.reports ++ [r.reply] ∧
      heard.left ≤ r.answers := by
  have hframe : commandFrame (r.call addr) (s.link.peers addr) =
      ⟨s.world.sec.addr, iCtrl s.world.sec.vr (s.link.peers addr).vr, r.message⟩ := by
    rw [hs.station, ← hs.vs]
    rfl
  have hreply : s.world.sec.responseFor r.message = r.reply := by
    rw [← hsec]
    rfl
  have hind : s.world.sec.indications = r.indications :=
    congrArg FakeSecondary.indications hsec.symm
  have hrr : s.world.sec.rrBeforeResponse = r.rrBeforeResponse :=
    congrArg FakeSecondary.rrBeforeResponse hsec.symm
  refine ⟨{ s.world.sec with
    iFramesSeen := s.world.sec.iFramesSeen + 1
    vr := s.world.sec.vr + 1
    pending := some r.reply
    owedRr := s.world.sec.rrBeforeResponse }, ?_, ?_, rfl, ?_, ?_⟩
  · unfold Desk.hear
    rw [hframe, FakeSecondary.hear_request _ _ _ hs.rejectWith hs.swallowFirst, hreply]
  · exact ⟨hs.station, rfl, rfl, rfl, rfl, rfl, rfl⟩
  · rw [FakeSecondary.coming, hind]
    rfl
  · refine Nat.le_trans (FakeSecondary.left_le _) (Nat.le_of_eq ?_)
    rw [hind, hrr]
    rfl

/-- The secondary hears the command and answers it. -/
theorem waiting_start {x : Flight} (hs : InStep addr s) (hx : x.acked = false)
    (hsec : r.setUp s.world.sec = s.world.sec)
    (hw : Alike (s.world.hear (commandFrame (r.call addr) (s.link.peers addr))) t.world)
    (hl : t.link = s.link) (hu : t.user = s.user) :
    ∃ m < r.answers, Waiting r addr s m x t := by
  obtain ⟨heard, hhear, hkept, hvs, hcoming, hleft⟩ := heard_command hs hsec
  obtain ⟨hsec', hin⟩ := hw
  rw [hhear] at hsec' hin
  dsimp only at hsec' hin
  have hserves := heard.serves_next
  have haddr : heard.addr = addr := hkept.addr
  -- what is still on the line is not taken up
  have hreads : reads (t.link.peers addr).vr t.world.inbox = reads heard.vs heard.next.1 := by
    rw [hl, hs.vr, hin, reads_append, hs.nothing, reads_snd_of_nil hs.nothing, hvs]
    rfl
  refine ⟨t.world.sec.left, ?_, ⟨?_, ?_, ?_, ?_, ?_, ?_⟩, ?_, rfl⟩
  · have := hserves.left
    rw [← hsec'] at this
    have hpos : 0 < r.answers := Nat.succ_pos _
    omega
  · rw [hsec']
    exact ⟨hserves.addr.trans hkept.addr, hserves.vr.trans hkept.vr,
      hserves.rejectWith.trans hkept.rejectWith, hserves.swallowFirst.trans hkept.swallowFirst,
      hserves.strict.trans hkept.strict, hserves.rejectedNs.trans hkept.rejectedNs,
      hserves.iFramesSeen.trans hkept.iFramesSeen⟩
  · rw [hl, hx]
    exact hs.vs
  · rw [hl]
  · rw [hin, List.nil_append]
    intro f hf
    rcases List.mem_append.1 hf with hf | hf
    · exact hs.answers f hf
    · exact haddr ▸ (hserves.answers f hf).1
  · show (reads (t.link.peers addr).vr t.world.inbox).2 = t.world.sec.vs
    rw [hreads, hsec']
    exact hserves.vs
  · refine ⟨[], by rw [hu, List.append_nil], fun _ h => absurd h List.not_mem_nil, ?_⟩
    show (reads (t.link.peers addr).vr t.world.inbox).1 ++ t.world.sec.coming = _
    rw [hreads, hsec', hserves.coming, hcoming]
  · obtain ⟨f, hf⟩ := List.exists_mem_of_ne_nil _ hserves.some
    refine Or.inr ⟨f, ?_, ?_⟩
    · rw [hin]
      exact List.mem_append_right _ hf
    · rw [(hserves.answers f hf).2]
      exact hkept.vr

/-- A whole call, as soon as the command is written. -/
theorem wp_loop_started {x : Flight} {frame : Frame} {ns : Seq} {fuel : ℕ} (hs : InStep addr s)
    (hr : r.Proper) (hfuel : r.answers ≤ fuel) (hns : ns = s.world.sec.vr) (hx : x.acked = false)
    (hsec : r.setUp s.world.sec = s.world.sec)
    (hw : Alike (s.world.hear (commandFrame (r.call addr) (s.link.peers addr))) t.world)
    (hl : t.link = s.link) (hu : t.user = s.user) :
    wp (loop (Link.pass (r.call addr) frame ns) fuel x) (fun payload => Served addr [r] s [payload])
      (fun e _ => TimedOut e) (fun _ => False) t := by
  subst hns
  obtain ⟨m, hm, hwait⟩ := waiting_start hs hx hsec hw hl hu
  exact wp_loop_serving hs hr (Nat.lt_of_lt_of_le hm hfuel) hwait

end Call

/-! ## Whole lists -/

/-- One call that starts in step. -/
theorem wp_serve {fuel : ℕ} {addr : Byte} {r : Request} {s : LinkSt Desk (List Bytes)}
    (hs : InStep addr s) (hr : r.Proper) (hfuel : r.answers ≤ fuel) :
    wp (serve fuel addr r) (fun payload => Served addr [r] s [payload]) (fun e _ => TimedOut e)
      (fun _ => False) s := by
  have hs' : InStep addr { s with world := { s.world with sec := r.setUp s.world.sec } } :=
    ⟨hs.station, hs.strict, hs.rejectWith, hs.swallowFirst, hs.vs, hs.vr, hs.answers, hs.nothing⟩
  have hvs : (s.link.peers addr).vs = (r.setUp s.world.sec).vr := hs.vs
  unfold serve exchange
  rw [wp_bind, wp_modify, wp_bind, wp_peer, wp_bind, wp_write_desk, wp_bind, wp_monotonic]
  refine wp.mono (Q := fun payload => Served addr [r]
      { s with world := { s.world with sec := r.setUp s.world.sec } } [payload])
    ?_ (fun payload t ht => ?_) (fun _ _ h => h) fun _ h => h
  · exact wp_loop_started hs' hr hfuel hvs rfl rfl ⟨rfl, rfl⟩ rfl rfl
  exact ⟨ht.inStep, ht.payloads, ht.seen, ht.rejectedNs, ht.iFramesSeen, ht.retx⟩

/-- Call after call. -/
theorem wp_serveAll {fuel : ℕ} {addr : Byte} {rs : List Request} {s : LinkSt Desk (List Bytes)}
    (hs : InStep addr s) (hr : ∀ r ∈ rs, r.Proper) (hfuel : ∀ r ∈ rs, r.answers ≤ fuel) :
    wp (serveAll fuel addr rs) (Served addr rs s) (fun e _ => TimedOut e) (fun _ => False) s := by
  induction rs generalizing s with
  | nil => exact ⟨hs, rfl, by simp, rfl, rfl, rfl⟩
  | cons r rs ih =>
      unfold serveAll
      rw [wp_bind]
      refine (wp_serve hs (hr r (List.mem_cons_self ..)) (hfuel r (List.mem_cons_self ..))).mono
        (fun payload t ht => ?_) (fun _ _ h => h) fun _ h => h
      rw [wp_bind]
      refine (ih ht.inStep (fun r' h => hr r' (List.mem_cons_of_mem _ h)) fun r' h =>
        hfuel r' (List.mem_cons_of_mem _ h)).mono (fun payloads u hu => ?_) (fun _ _ h => h)
          fun _ h => h
      rw [wp_pure]
      refine ⟨hu.inStep, ?_, ?_, hu.rejectedNs.trans ht.rejectedNs, ?_, hu.retx.trans ht.retx⟩
      · have hone : payload = r.reply := by simpa using ht.payloads
        rw [hone, hu.payloads, List.map_cons]
      · rw [hu.seen, ht.seen]
        simp
      · rw [hu.iFramesSeen, ht.iFramesSeen, List.length_cons, List.length_cons, List.length_nil]
        omega

/-- **Requests to the strict secondary.**  Of any list of calls, each one ends, and unless one
times out each returns the response to its own request, with the stations in step again. -/
theorem serveAll_served {fuel : ℕ} {addr : Byte} {rs : List Request} {s : LinkSt Desk (List Bytes)}
    (hs : InStep addr s) (hr : ∀ r ∈ rs, r.Proper) (hfuel : ∀ r ∈ rs, r.answers ≤ fuel) :
    (∀ payloads t, serveAll fuel addr rs s = (.ret payloads, t) → Served addr rs s payloads t) ∧
      (∀ e t, serveAll fuel addr rs s = (.raise e, t) → TimedOut e) ∧
      ∀ t, serveAll fuel addr rs s ≠ (.stall, t) :=
  wp_iff.1 (wp_serveAll hs hr hfuel)

/-- Both stations after `connect`; the clock stands still. -/
def connectedDesk : LinkSt Desk (List Bytes) where
  world := { sec := { connected := true }, clock := fun _ => 0 }
  link := {}
  log := []
  user := []

/-- A response at once, one after two alarms and an RR, and one that is sent twice. -/
def threeRequests : List Request :=
  [{ message := [0x05, 0, 0], response := retapResponse 0x05 },
   { message := [0x33, 2, 0, 30, 0], response := retapResponse 0x33, rrBeforeResponse := 1
     indications := [([0x07, 1, 0, 2], true), ([0x85, 1, 0, 2], false)] },
   { message := [0x34, 0, 0], responses := some [(0x34, retapResponse 0x34 [30, 0])]
     duplicateResponse := true }]

/-- The stations after a connect. -/
theorem inStep_connectedDesk : InStep 1 connectedDesk :=
  ⟨rfl, rfl, rfl, rfl, rfl, rfl, fun _ h => absurd h List.not_mem_nil, rfl⟩

theorem serveAll_served_three :
    ∃ t, Served 1 threeRequests connectedDesk (threeRequests.map Request.reply) t := by
  have hproper : ∀ r ∈ threeRequests, r.Proper := by decide +kernel
  have hfuel : ∀ r ∈ threeRequests, r.answers ≤ 4 := by decide +kernel
  -- the clock stands still, so that no call times out
  have hret : (serveAll 4 1 threeRequests connectedDesk).1 =
      .ret (threeRequests.map Request.reply) := by decide +kernel
  have hserved := (serveAll_served inStep_connectedDesk hproper hfuel).1
  rcases hrun : serveAll 4 1 threeRequests connectedDesk with ⟨o, t⟩
  rw [hrun] at hret
  exact ⟨t, hserved _ t (by rw [hrun, ← hret])⟩

end OpenAisg.Session
