import OpenAisg.Link.Channel
import OpenAisg.Link.OneShot
import OpenAisg.Link.Reception

/-!
# The secondary behind a serial port

`FakeSerial` of the tests: a port that answers what is written to it through a secondary.  Both
ends speak octets, so that a frame passes through `build_frame` and a deframer in each direction
and the answers through `_read_frames`.

* `FakeSerial` — the port.  What a bus does to it is a parameter: which frames are lost, what
  is heard in the place of a lost answer, and how many octets have come in at each look.
* `Chunk` — octets that start a new piece of the stream and stand for some frames, or none.
* `Garbled` — what is heard in the place of a lost answer: a chunk that stands for none.
* `onTheWay` — the frames that the deframer of the link will find in what is still to be read.
* `InOrder` — what each deframer holds, and that what is still to be read are whole chunks.
* `InOrder.write`, `InOrder.came` — the two things that happen at the port, as the methods of
  the link see them.
* `channelBus` — read this way, the port is a `Channel`: what is known of the calls over any
  `Channel` holds of them with all the framing below.
-/

namespace OpenAisg.Link

open Hdlc Pieces Prog Pump

/-! ## The port -/

/-- The attributes of a `FakeSerial`, and what the bus does. -/
structure FakeSerial where
  /-- The responder. -/
  sec : FakeSecondary
  clock : ℕ → Time
  /-- Which frames are lost, by their number on the bus. -/
  lost : ℕ → Bool := fun _ => false
  /-- What is heard in the place of a lost answer. -/
  noise : ℕ → Bytes := fun _ => []
  /-- How many octets have come in at each look. -/
  arrived : ℕ → ℕ
  /-- A bound for the turns of `_read_frames`. -/
  fuel : ℕ
  rx : Bytes := []
  /-- `self._deframer`, which takes apart what the link writes. -/
  deframer : Deframer := {}
  ticks : ℕ := 0
  frames : ℕ := 0
  looks : ℕ := 0
  /-- The messages the secondary acted on, in order. -/
  executed : List Bytes := []

/-- The octets of an answer, whose first frame has the number `k`. -/
def answer (lost : ℕ → Bool) (noise : ℕ → Bytes) : ℕ → List Rx → Bytes
  | _, [] => []
  | k, f :: fs =>
      (if lost k then noise k else buildFrame f.toFrame) ++ answer lost noise (k + 1) fs

namespace FakeSerial

/-- `for frame in self.responder(addr, ctrl, pl): self.rx += frame`. -/
def respond (w : FakeSerial) (f : Frame) : FakeSerial :=
  { w with
    sec := (w.sec.hear f).2
    rx := w.rx ++ answer w.lost w.noise w.frames (w.sec.hear f).1
    frames := w.frames + (w.sec.hear f).1.length
    executed := if w.sec.takes f then w.executed ++ [f.payload] else w.executed }

/-- `write`. -/
def write (w : FakeSerial) (data : Bytes) : FakeSerial :=
  if w.lost w.frames then { w with frames := w.frames + 1 }
  else (w.deframer.feed data).1.foldl respond
    { w with deframer := (w.deframer.feed data).2, frames := w.frames + 1 }

/-- `in_waiting`, `read`, `reset_input_buffer`, `write` and `flush`. -/
instance : OneShot.Port FakeSerial where
  monotonic w := (w.clock w.ticks, { w with ticks := w.ticks + 1 })
  inWaiting := fun w =>
    (.ret (min (w.arrived w.looks) w.rx.length), { w with looks := w.looks + 1 })
  read n := fun w =>
    (.ret (w.rx.take (min n (w.arrived w.looks))),
      { w with rx := w.rx.drop (min n (w.arrived w.looks)), looks := w.looks + 1 })
  resetInputBuffer := modify fun w => { w with rx := [] }
  write data := modify fun w => w.write data
  flush := pure ()

end FakeSerial

/-- The port and the deframer of the link. -/
abbrev Bus : Type := St FakeSerial

/-- A frame as the link gets it. -/
def Rx.ofFrame (f : Frame) : Rx := { addr := f.addr, ctrl := f.ctrl, payload := f.payload }

instance : Line Bus where
  monotonic s := ((Serial.monotonic s.world).1,
    { s with world := (Serial.monotonic s.world).2 })
  sleep _ s := s
  serialOpen s := (.ok (), s)
  setDtr := pure ()
  readFrames budget := fun s =>
    (do
      let fs ← Pump.readFrames s.world.fuel budget
      pure (fs.map Rx.ofFrame) : PumpProg FakeSerial (List Rx)) s
  write f := do
    port (OneShot.Port.write (buildFrame f))
    port OneShot.Port.flush
  xfer f timeout := fun s => OneShot.xfer s.world.fuel (buildFrame f) timeout s
  serialClose := pure ()

/-! ## Whole chunks -/

/-- The octets `c` start a new piece of the stream; they stand for the frames `fs`, and what
they leave open is none. -/
def Chunk (c : Bytes) (fs : List Frame) : Prop :=
  c = [] ∧ fs = [] ∨ ∃ m, c = flag :: m ∧ framesOf (m.splitOn flag).dropLast = fs ∧
    framesOf [opened flag m] = [] ∧ ∀ p ∈ m.splitOn flag, p.length < 512

/-- A stream of whole chunks. -/
structure Whole (s : Bytes) : Prop where
  room : ∀ p ∈ (s.splitOn flag).drop 1, p.length < 512
  clean : flag ∈ s → framesOf [opened flag s] = []

/-- Nothing is a whole stream. -/
theorem whole_nil : Whole [] := ⟨by simp, fun _ => rfl⟩

/-- One more chunk. -/
theorem Whole.append {s c : Bytes} {fs : List Frame} (h : Whole s) (hc : Chunk c fs) :
    Whole (s ++ c) ∧ streamFrames (s ++ c) = streamFrames s ++ fs := by
  rcases hc with ⟨rfl, rfl⟩ | ⟨m, rfl, rfl, hopen, hroom⟩
  · rw [List.append_nil, List.append_nil]
    exact ⟨h, rfl⟩
  have hsplit : (s ++ flag :: m).splitOn flag = s.splitOn flag ++ m.splitOn flag :=
    List.splitOn_append_cons_self ..
  refine ⟨⟨fun p hp => ?_, ?_⟩, ?_⟩
  · rw [hsplit, List.drop_append_of_le_length (List.length_pos_iff.2 (List.splitOn_ne_nil _ _))] at hp
    rcases List.mem_append.1 hp with hp | hp
    · exact h.room p hp
    · exact hroom p hp
  · intro _
    rw [opened_append_cons]
    exact hopen
  · by_cases hs : flag ∈ s
    · -- the flag closes what was open, and that is no frame
      have hno : flag ∉ opened flag s := sep_notMem_opened s
      have hcut : (opened flag s ++ flag :: m).splitOn flag = opened flag s :: m.splitOn flag :=
        List.splitOn_append_cons_self_of_not_mem hno m
      rw [streamFrames, closed_append hs, hcut,
        List.dropLast_cons_of_ne_nil (List.splitOn_ne_nil _ _), framesOf_append,
        ← List.singleton_append (x := opened flag s), framesOf_append, h.clean hs, List.nil_append]
      rfl
    · rw [streamFrames, streamFrames, closed_append_cons hs, closed_of_notMem hs]
      rfl

/-- Stuffing at most doubles the octets. -/
theorem length_stuff_le (data : Bytes) : (stuff data).length ≤ 2 * data.length := by
  induction data with
  | nil => exact Nat.le_refl _
  | cons b bs ih =>
      rw [stuff_cons]
      split_ifs <;> simp only [List.length_cons] <;> omega

/-- A frame that fits: stuffed and with its checksum it is shorter than the room of the deframer.
-/
theorem chunk_buildFrame {f : Frame} (h : f.payload.length ≤ 251) : Chunk (buildFrame f) [f] := by
  obtain ⟨hlen, hfcs, hbody⟩ := unstuff_stuffed f
  have hno : flag ∉ stuffed f := flag_notMem_stuff _
  have hsplit : (stuffed f ++ [flag]).splitOn flag = [stuffed f, []] := by
    rw [List.splitOn_append_cons_self_of_not_mem hno]
    rfl
  refine Or.inr ⟨stuffed f ++ [flag], buildFrame_eq f, ?_, ?_, fun p hp => ?_⟩
  · rw [hsplit]
    simp [framesOf, hlen, hfcs, hbody]
  · rw [opened_append_cons]
    rfl
  · rw [hsplit] at hp
    have hle := length_stuff_le (f.addr :: f.ctrl :: f.payload ++
      fcsBytes (f.addr :: f.ctrl :: f.payload))
    have hstuffed : (stuffed f).length ≤ 2 * (f.payload.length + 4) := by
      simpa [fcsBytes, stuffed] using hle
    rcases List.mem_cons.1 hp with rfl | hp
    · omega
    · rw [List.mem_singleton.1 hp]
      exact Nat.succ_pos _

/-- What is heard in the place of a frame is none: a piece of its own with no frame in it. -/
def Garbled (noise : Bytes) : Prop := Chunk noise []

/-- Some of the frames get through, the others as noise. -/
theorem chunks_answer (lost : ℕ → Bool) {noise : ℕ → Bytes} (hn : ∀ k, Garbled (noise k))
    {fs : List Rx} (hf : ∀ f ∈ fs, f.payload.length ≤ 251) (k : ℕ) {s : Bytes} (h : Whole s) :
    ∃ gs : List Rx, gs.Sublist fs ∧ Whole (s ++ answer lost noise k fs) ∧
      streamFrames (s ++ answer lost noise k fs) = streamFrames s ++ gs.map Rx.toFrame := by
  induction fs generalizing k s with
  | nil =>
      rw [answer, List.append_nil]
      exact ⟨[], List.Sublist.refl _, h, (List.append_nil _).symm⟩
  | cons f fs ih =>
      have hrest : ∀ g ∈ fs, g.payload.length ≤ 251 := fun g hg => hf g (List.mem_cons_of_mem _ hg)
      rw [answer, ← List.append_assoc]
      split_ifs
      · obtain ⟨hwhole, hframes⟩ := h.append (hn k)
        obtain ⟨gs, hsub, hwhole', hframes'⟩ := ih hrest (k + 1) hwhole
        refine ⟨gs, hsub.cons f, hwhole', ?_⟩
        rw [hframes', hframes, List.append_nil]
      · obtain ⟨hwhole, hframes⟩ := h.append (chunk_buildFrame (hf f (List.mem_cons_self ..)))
        obtain ⟨gs, hsub, hwhole', hframes'⟩ := ih hrest (k + 1) hwhole
        refine ⟨f :: gs, hsub.cons_cons f, hwhole', ?_⟩
        rw [hframes', hframes, List.append_assoc]
        rfl

/-! ## What is on its way -/

/-- What the deframer of the link will find in the octets that are still to be read. -/
def onTheWay (s : Bus) : List Frame := (s.deframer.feed s.world.rx).1

/-- The deframer of the port holds nothing. -/
def Listens (d : Deframer) : Prop := ∃ w, Whole w ∧ opened flag w = [] ∧ Deframer.Fed {} w d

/-- What each deframer holds, and that what is still to be read are whole chunks. -/
structure InOrder (s : Bus) : Prop where
  /-- What was read since the deframer of the link was new, and what is still to be read. -/
  whole : ∃ h, Deframer.Fed {} h s.deframer ∧ Whole (h ++ s.world.rx)
  noise : ∀ k, Garbled (s.world.noise k)
  listens : Listens s.world.deframer

/-- What has been read and what is on its way are all the frames of the stream. -/
theorem onTheWay_spec {s : Bus} {h : Bytes} (hfed : Deframer.Fed {} h s.deframer)
    (hwhole : Whole (h ++ s.world.rx)) :
    streamFrames h ++ onTheWay s = streamFrames (h ++ s.world.rx) :=
  (hfed.feed s.world.rx fun hmem => by
    obtain ⟨p, hp, hle⟩ := opened_prefix hmem []
    rw [List.append_nil] at hp
    exact Nat.lt_of_le_of_lt hle.length_le (hwhole.room p hp)).2.symm

/-- Between two worlds of the port only octets were read. -/
structure Drained (w : FakeSerial) (c : Bytes) (w' : FakeSerial) : Prop where
  rx : c ++ w'.rx = w.rx
  sec : w'.sec = w.sec
  executed : w'.executed = w.executed
  noise : w'.noise = w.noise
  deframer : w'.deframer = w.deframer

/-- Reads in a row are one read. -/
theorem gives_drained : Gives Drained where
  refl _ := ⟨rfl, rfl, rfl, rfl, rfl⟩
  trans h h' := ⟨by rw [List.append_assoc, h'.rx, h.rx], h'.sec.trans h.sec,
    h'.executed.trans h.executed, h'.noise.trans h.noise, h'.deframer.trans h.deframer⟩
  monotonic _ := ⟨rfl, rfl, rfl, rfl, rfl⟩
  inWaiting _ := ⟨rfl, rfl, rfl, rfl, rfl⟩
  read _ _ := ⟨List.take_append_drop _ _, rfl, rfl, rfl, rfl⟩

/-- A part of a stream has no longer pieces. -/
theorem room_of_append {s t : Bytes} {n : ℕ}
    (h : ∀ p ∈ ((s ++ t).splitOn flag).drop 1, p.length < n) :
    ∀ p ∈ (s.splitOn flag).drop 1, p.length < n := by
  intro p hp
  by_cases hs : flag ∈ s
  · obtain ⟨pre, hpre⟩ := exists_opened hs
    have hno : flag ∉ opened flag s := sep_notMem_opened s
    have hne : pre.splitOn flag ≠ [] := List.splitOn_ne_nil _ _
    have hcut : ∀ u, (((pre ++ flag :: u)).splitOn flag).drop 1 =
        (pre.splitOn flag).drop 1 ++ u.splitOn flag := by
      intro u
      rw [List.splitOn_append_cons_self,
        List.drop_append_of_le_length (List.length_pos_iff.2 hne)]
    rw [hpre, hcut, List.splitOn_eq_singleton hno] at hp
    rcases List.mem_append.1 hp with hp | hp
    · refine h p ?_
      rw [hpre, List.append_assoc, List.cons_append, hcut]
      exact List.mem_append_left _ hp
    · obtain ⟨q, hq, hle⟩ := opened_prefix hs t
      rw [List.mem_singleton.1 hp]
      exact Nat.lt_of_le_of_lt hle.length_le (h q hq)
  · rw [List.splitOn_eq_singleton hs] at hp
    cases hp

/-- What a call of `_read_frames` takes from the way it hands on.  However its octets are cut into
reads, nothing is lost between the two. -/
theorem InOrder.handsOn {s t : Bus} (hs : InOrder s) {fs : List Frame} (hf : HandsOn Drained s fs t) :
    InOrder t ∧ fs ++ onTheWay t = onTheWay s := by
  obtain ⟨L, -, hfeed, hd⟩ := hf
  obtain ⟨h, hfed, hwhole⟩ := hs.whole
  have hall : h ++ octets L ++ t.world.rx = h ++ s.world.rx := by
    rw [List.append_assoc, hd.rx]
  obtain ⟨hfed', hframes⟩ := hfed.feedAll (Pump.chunks L) (by
    rw [flatten_chunks]
    refine room_of_append (t := t.world.rx) ?_
    rw [hall]
    exact hwhole.room)
  rw [flatten_chunks, hfeed] at hfed' hframes
  have hwhole' : Whole (h ++ octets L ++ t.world.rx) := hall ▸ hwhole
  refine ⟨⟨⟨_, hfed', hwhole'⟩, hd.noise ▸ hs.noise, hd.deframer ▸ hs.listens⟩, ?_⟩
  have ht := onTheWay_spec hfed' hwhole'
  rw [hall, hframes, ← onTheWay_spec hfed hwhole, List.append_assoc] at ht
  exact List.append_cancel_left ht

/-! ## A channel -/

/-- An unmarked frame is the frame the deframer finds. -/
theorem ofFrame_toFrame {r : Rx} (h : r.tag = none) : Rx.ofFrame r.toFrame = r := by
  obtain ⟨⟨addr, ctrl, payload⟩, tag⟩ := r
  cases h
  rfl

namespace FakeSecondary

theorem tag_send (s : FakeSecondary) (payload : Bytes) (twice : Bool) :
    ∀ r ∈ (s.send payload twice).1, r.tag = none := by
  cases twice with
  | false => simp [send, iFrame]
  | true => simp [send, iFrame]

theorem tag_next (s : FakeSecondary) : ∀ r ∈ s.next.1, r.tag = none := by
  unfold next
  rcases s.indications with _ | ⟨⟨payload, twice⟩, rest⟩
  · rcases s.pending with _ | payload
    · simp [rr]
    · dsimp only
      split_ifs
      · simp [rr]
      · exact tag_send _ _ _
  · exact tag_send _ _ _

/-- The answer to an I-frame has no marks either. -/
theorem tag_request (s : FakeSecondary) (f : Frame) : ∀ r ∈ (s.request f).1, r.tag = none := by
  unfold request
  dsimp only
  by_cases hswallow : s.swallowFirst = true ∧ s.iFramesSeen + 1 = 1
  · simp [hswallow]
  rw [if_neg hswallow]
  rcases s.rejectWith with _ | what
  · dsimp only
    split_ifs
    · simp [rr]
    · exact tag_next _
  · simp

/-- The secondary marks none of its frames. -/
theorem tag_hear (s : FakeSecondary) (f : Frame) : ∀ r ∈ (s.hear f).1, r.tag = none := by
  unfold hear
  split_ifs
  · simp
  · simp
  · simp
  · simp
  · exact tag_request s f
  · exact tag_next _
  · simp

end FakeSecondary

instance : Medium Bus where
  Fits pl := pl.length ≤ 251
  Sound := InOrder
  sec s := s.world.sec
  inbox s := (onTheWay s).map Rx.ofFrame
  executed s := s.world.executed
  setSec g s := { s with world := { s.world with sec := g s.world.sec } }

/-- The deframer of the port finds the frame that the link writes. -/
theorem Listens.feed {d : Deframer} (h : Listens d) {f : Frame} (hf : f.payload.length ≤ 251) :
    (d.feed (buildFrame f)).1 = [f] ∧ Listens (d.feed (buildFrame f)).2 := by
  obtain ⟨w, hwhole, hopen, hfed⟩ := h
  obtain ⟨hwhole', hframes⟩ := hwhole.append (chunk_buildFrame hf)
  have hopen' : opened flag (w ++ buildFrame f) = [] := by
    rw [buildFrame_eq, opened_append_cons, opened_append_cons]
    rfl
  obtain ⟨hfed', hfeed⟩ := hfed.feed (buildFrame f) fun _ => by
    rw [hopen']
    exact Nat.succ_pos _
  rw [hframes] at hfeed
  exact ⟨(List.append_cancel_left hfeed).symm, _, hwhole', hopen', hfed'⟩

/-- A frame is lost, or the secondary hears it and answers. -/
theorem FakeSerial.write_buildFrame {w : FakeSerial} (h : Listens w.deframer) {f : Frame}
    (hf : f.payload.length ≤ 251) : ∃ d, Listens d ∧ w.write (buildFrame f) =
      if w.lost w.frames then { w with deframer := d, frames := w.frames + 1 }
      else respond { w with deframer := d, frames := w.frames + 1 } f := by
  obtain ⟨hone, hd⟩ := h.feed hf
  unfold FakeSerial.write
  by_cases hlost : w.lost w.frames = true
  · rw [if_pos hlost]
    exact ⟨w.deframer, h, (if_pos hlost).symm⟩
  · rw [if_neg hlost]
    refine ⟨_, hd, ?_⟩
    rw [if_neg hlost, hone]
    rfl

/-- A frame that was heard: the deframer of the port finds it, and the answer is on the way. -/
theorem InOrder.write {s : Bus} (hs : InOrder s) {f : Frame} (hf : f.payload.length ≤ 251)
    (hr : ∀ r ∈ (s.world.sec.hear f).1, r.payload.length ≤ 251) :
    Sent s f { s with world := s.world.write (buildFrame f) } := by
  obtain ⟨d, hd, hwrite⟩ := FakeSerial.write_buildFrame hs.listens hf
  rw [hwrite]
  by_cases hlost : s.world.lost s.world.frames = true
  · rw [if_pos hlost]
    exact Or.inl ⟨⟨hs.whole, hs.noise, hd⟩, rfl, rfl, rfl⟩
  rw [if_neg hlost]
  obtain ⟨h, hfed, hwhole⟩ := hs.whole
  obtain ⟨gs, hsub, hwhole', hstream⟩ := chunks_answer s.world.lost hs.noise hr
    (s.world.frames + 1) hwhole
  rw [List.append_assoc] at hwhole' hstream
  refine Or.inr ⟨gs, ⟨⟨h, hfed, hwhole'⟩, hs.noise, hd⟩, rfl, ?_, rfl, hsub⟩
  have hgs : (gs.map Rx.toFrame).map Rx.ofFrame = gs := by
    have hsame : ∀ r ∈ gs, (Rx.ofFrame ∘ Rx.toFrame) r = id r := fun r hr' =>
      ofFrame_toFrame (s.world.sec.tag_hear f r (hsub.subset hr'))
    rw [List.map_map, List.map_congr_left hsame, List.map_id]
  have hway : ∀ t : Bus, t.deframer = s.deframer → t.world.rx = s.world.rx ++
      answer s.world.lost s.world.noise (s.world.frames + 1) (s.world.sec.hear f).1 →
        onTheWay t = onTheWay s ++ gs.map Rx.toFrame := by
    intro t hdef hrx
    have ht := onTheWay_spec (s := t) (hdef ▸ hfed) (hrx ▸ hwhole')
    rw [hrx, hstream, ← onTheWay_spec hfed hwhole, List.append_assoc] at ht
    exact List.append_cancel_left ht
  show (onTheWay _).map Rx.ofFrame = (onTheWay s).map Rx.ofFrame ++ gs
  refine (congrArg (List.map Rx.ofFrame) (hway _ ?_ ?_)).trans ?_
  · rfl
  · rfl
  · rw [List.map_append, hgs]

/-- A call of `_read_frames`, as the methods of the link see it. -/
theorem InOrder.came {s t : Bus} (h : InOrder s) {fs : List Frame} (hf : HandsOn Drained s fs t) :
    Came s (fs.map Rx.ofFrame) t := by
  obtain ⟨ht, hway⟩ := h.handsOn hf
  obtain ⟨L, -, -, hd⟩ := hf
  refine ⟨ht, hd.sec, ?_, hd.executed⟩
  show fs.map Rx.ofFrame ++ (onTheWay t).map Rx.ofFrame = (onTheWay s).map Rx.ofFrame
  rw [← List.map_append, hway]

/-- Nothing was handed on. -/
theorem InOrder.still {s t : Bus} (h : InOrder s) (hf : HandsOn Drained s [] t) : Still s t := by
  have hc := h.came hf
  exact ⟨hc.sound, hc.sec, hc.inbox, hc.executed⟩

instance channelBus : Channel Bus where
  fits_nil := Nat.zero_le _
  monotonic h := h.still ((HandsOn.refl gives_drained _).world gives_drained
    (gives_drained.monotonic _))
  sleep _ h := h.still (HandsOn.refl gives_drained _)
  write := by
    intro s f hs hf hr
    exact hs.write hf hr
  readFrames := by
    intro s b hs
    show wp (do let fs ← Pump.readFrames s.world.fuel b; pure (fs.map Rx.ofFrame)) _ _ _ s
    rw [wp_bind]
    exact (Pump.wp_readFrames gives_drained s.world.fuel b (ms 50) (ms 3000) s).mono
      (fun fs t ht => hs.came ht) (fun _ t ht => hs.still ht) fun t ht => hs.still ht
  setSec_spec _ h := ⟨⟨h.whole, h.noise, h.listens⟩, rfl, rfl, rfl⟩

end OpenAisg.Link
