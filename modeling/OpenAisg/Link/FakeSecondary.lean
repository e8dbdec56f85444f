import OpenAisg.Link.Exchange

/-!
# The strict secondary of the tests

`FakeSecondary` is the class `Secondary` of `tests/fake_secondary.py`: it enforces N(S), never
speaks first, and answers each poll with what it owes, indications before the response.

* `FakeSecondary.next`, `FakeSecondary.hear` — `_next` and `__call__`.
* `Desk` — the secondary on a line that loses nothing: each read returns every frame sent
  so far.  Nothing is assumed of the clock.
* `reads` — what a receiver makes of the frames on the line: the payloads it takes up, and
  the N(S) it expects then.
* `coming`, `left` — what the secondary owes, and how many answers that takes.
* `FakeSecondary.serves_next` — what an answer adds to the line is what the secondary owed.
* `FakeSecondary.hear_request` — what it does with the request that it expects.

Duplicates are taken up once because they repeat an N(S), and so `reads` and `coming` add up
to the same payloads before and after each answer.  That sum is what the results about whole
calls carry along.
-/

namespace OpenAisg.Link

open Hdlc Prog

/-! ## The secondary -/

/-- `retap_response`. -/
def retapResponse (code : Byte) (data : Bytes := []) (rc : Byte := 0x00) : Bytes :=
  [code, BitVec.ofNat 8 (data.length + 1), BitVec.ofNat 8 ((data.length + 1) / 256), rc] ++ data

/-- The attributes of a `Secondary`.  The tests make it send every indication twice, or
none; here each has a mark of its own. -/
structure FakeSecondary where
  addr : Byte := 0x01
  response : Bytes := []
  responses : Option (List (Byte × Bytes)) := none
  rrBeforeResponse : ℕ := 0
  /-- The payloads to report, and whether each is sent twice. -/
  indications : List (Bytes × Bool) := []
  duplicateResponse : Bool := false
  rejectWith : Option Byte := none
  swallowFirst : Bool := false
  strict : Bool := true
  owedRr : ℕ := 0
  vs : Seq := 0
  vr : Seq := 0
  connected : Bool := false
  pending : Option Bytes := none
  pollsSeen : ℕ := 0
  rejectedNs : List Seq := []
  iFramesSeen : ℕ := 0

namespace FakeSecondary

/-- `_response_for`. -/
def responseFor (s : FakeSecondary) (request : Bytes) : Bytes :=
  match s.responses, request with
  | some table, code :: _ => (table.lookup code).getD (retapResponse code [] 0x19)
  | _, _ => s.response

/-- `_i`: an I-frame, which moves V(S). -/
def iFrame (s : FakeSecondary) (payload : Bytes) : Rx × FakeSecondary :=
  ({ addr := s.addr, ctrl := iCtrl s.vs s.vr, payload := payload }, { s with vs := s.vs + 1 })

/-- `_rr`. -/
def rr (s : FakeSecondary) : Rx := { addr := s.addr, ctrl := rrCtrl s.vr true, payload := [] }

/-- An I-frame, or the same one twice. -/
def send (s : FakeSecondary) (payload : Bytes) (twice : Bool) : List Rx × FakeSecondary :=
  let once := s.iFrame payload
  if twice then
    let again := { once.2 with vs := once.2.vs - 1 }.iFrame payload
    ([once.1, again.1], again.2)
  else ([once.1], once.2)

/-- `_next`, with `_deliver`: what is owed, in priority order. -/
def next (s : FakeSecondary) : List Rx × FakeSecondary :=
  match s.indications with
  | (payload, twice) :: rest => { s with indications := rest }.send payload twice
  | [] =>
      match s.pending with
      | some payload =>
          if 0 < s.owedRr then ([s.rr], { s with owedRr := s.owedRr - 1 })
          else { s with pending := none }.send payload s.duplicateResponse
      | none => ([s.rr], s)

/-- The I-frames of `__call__`. -/
def request (s : FakeSecondary) (f : Frame) : List Rx × FakeSecondary :=
  let s := { s with iFramesSeen := s.iFramesSeen + 1 }
  if s.swallowFirst ∧ s.iFramesSeen = 1 then ([], s)
  else
    match s.rejectWith with
    | some what => ([{ addr := s.addr, ctrl := what ||| pf, payload := [] }],
        { s with rejectWith := none })
    | none =>
        if s.strict ∧ nsOf f.ctrl ≠ s.vr then
          ([s.rr], { s with rejectedNs := s.rejectedNs ++ [nsOf f.ctrl] })
        else
          { s with
            vr := nsOf f.ctrl + 1
            pending := some (s.responseFor f.payload)
            owedRr := s.rrBeforeResponse }.next

/-- `__call__`. -/
def hear (s : FakeSecondary) (f : Frame) : List Rx × FakeSecondary :=
  if f.addr ≠ s.addr ∧ f.addr ≠ addrBroadcast then ([], s)
  else if kind f.ctrl = .uFrame then
    let ua : Rx := { addr := s.addr, ctrl := ctrlUa ||| pf, payload := [] }
    if f.ctrl &&& ~~~pf = ctrlSnrm then
      ([ua], { s with connected := true, vs := 0, vr := 0, pending := none })
    else if f.ctrl &&& ~~~pf = ctrlDisc then ([ua], { s with connected := false })
    else ([], s)
  else if kind f.ctrl = .iFrame then s.request f
  else if polls f.ctrl then { s with pollsSeen := s.pollsSeen + 1 }.next
  else ([], s)

end FakeSecondary

/-! ## The line -/

/-- A secondary on a line that loses nothing, and the readings of the clock. -/
structure Desk where
  sec : FakeSecondary
  clock : ℕ → Time
  inbox : List Rx := []
  ticks : ℕ := 0

namespace Desk

/-- The secondary hears a frame; its answer is on the line at once. -/
def hear (w : Desk) (f : Frame) : Desk :=
  { w with sec := (w.sec.hear f).2, inbox := w.inbox ++ (w.sec.hear f).1 }

instance : Line Desk where
  monotonic w := (w.clock w.ticks, { w with ticks := w.ticks + 1 })
  sleep _ w := w
  serialOpen w := (.ok (), w)
  setDtr := pure ()
  readFrames _ := fun w => (.ret w.inbox, { w with inbox := [] })
  write f := modify fun w => w.hear f
  xfer f _ := fun w =>
    (.ret ((w.sec.hear f).1.flatMap fun r => buildFrame r.toFrame),
      { w with sec := (w.sec.hear f).2, inbox := [] })
  serialClose := pure ()

end Desk

/-! ## What is on the line -/

/-- The payloads that a receiver which expects N(S) = `vr` takes up, and the N(S) it expects
after them. -/
def reads (vr : Seq) : List Rx → List Bytes × Seq
  | [] => ([], vr)
  | f :: fs =>
      if kind f.ctrl = .iFrame ∧ nsOf f.ctrl = vr then
        (f.payload :: (reads (vr + 1) fs).1, (reads (vr + 1) fs).2)
      else reads vr fs

/-- A receiver goes on where it stood. -/
theorem reads_append (vr : Seq) (fs gs : List Rx) :
    reads vr (fs ++ gs) =
      ((reads vr fs).1 ++ (reads (reads vr fs).2 gs).1, (reads (reads vr fs).2 gs).2) := by
  induction fs generalizing vr with
  | nil => rfl
  | cons f fs ih =>
      simp only [List.cons_append, reads]
      split_ifs
      · rw [ih]
        rfl
      · exact ih vr

/-- Nothing to take up, and N(S) stays. -/
theorem reads_snd_of_nil {vr : Seq} {fs : List Rx} (h : (reads vr fs).1 = []) :
    (reads vr fs).2 = vr := by
  induction fs with
  | nil => rfl
  | cons f fs ih =>
      simp only [reads] at h ⊢
      split_ifs at h ⊢
      exact ih h

/-- A frame of the secondary: an I-frame or an RR. -/
def Answers (addr : Byte) (f : Rx) : Prop :=
  f.addr = addr ∧ (kind f.ctrl = .iFrame ∨ kind f.ctrl = .rr)

namespace FakeSecondary

/-- The payloads the secondary still has to send. -/
def coming (s : FakeSecondary) : List Bytes := s.indications.map Prod.fst ++ s.pending.toList

/-- How many answers it takes until all of them are sent. -/
def left (s : FakeSecondary) : ℕ := if s.coming = [] then 0 else s.indications.length + s.owedRr + 1

/-- Each answer sends an indication, pays an RR, or sends the response. -/
theorem left_le (s : FakeSecondary) : s.left ≤ s.indications.length + s.owedRr + 1 := by
  unfold left
  split_ifs <;> omega

theorem left_of_coming {s : FakeSecondary} (h : s.coming ≠ []) :
    s.left = s.indications.length + s.owedRr + 1 := if_neg h

/-- When no answer is left, nothing is coming. -/
theorem coming_of_left {s : FakeSecondary} (h : s.left = 0) : s.coming = [] := by
  by_contra hne
  rw [left_of_coming hne] at h
  omega

/-- What an answer keeps. -/
structure Kept (s s' : FakeSecondary) : Prop where
  addr : s'.addr = s.addr
  vr : s'.vr = s.vr
  rejectWith : s'.rejectWith = s.rejectWith
  swallowFirst : s'.swallowFirst = s.swallowFirst
  strict : s'.strict = s.strict
  rejectedNs : s'.rejectedNs = s.rejectedNs
  iFramesSeen : s'.iFramesSeen = s.iFramesSeen

/-- An answer, with the frames `fs` that it adds to the line. -/
structure Serves (s : FakeSecondary) (fs : List Rx) (s' : FakeSecondary) : Prop extends Kept s s' where
  answers : ∀ f ∈ fs, Answers s.addr f ∧ nrOf f.ctrl = s.vr
  some : fs ≠ []
  coming : (reads s.vs fs).1 ++ s'.coming = s.coming
  vs : (reads s.vs fs).2 = s'.vs
  left : s'.left ≤ s.left - 1

/-- An I-frame, sent once or twice, is taken up once. -/
theorem send_reads (s : FakeSecondary) (payload : Bytes) (twice : Bool) :
    reads s.vs (s.send payload twice).1 = ([payload], s.vs + 1) ∧
      (s.send payload twice).2 = { s with vs := s.vs + 1 } ∧
      (s.send payload twice).1 ≠ [] ∧
      ∀ f ∈ (s.send payload twice).1, Answers s.addr f ∧ nrOf f.ctrl = s.vr := by
  have hback : ∀ n : Seq, n + 1 - 1 = n ∧ n ≠ n + 1 := by decide
  obtain ⟨hsub, hne⟩ := hback s.vs
  cases twice with
  | false => simp [send, iFrame, reads, Answers]
  | true => simp [send, iFrame, reads, Answers, hsub, hne]

/-- The answer is a payload that was owed. -/
theorem serves_send {s u : FakeSecondary} (h : Kept s u) (hvs : u.vs = s.vs) {payload : Bytes}
    {twice : Bool} (hc : payload :: u.coming = s.coming) (hl : u.left ≤ s.left - 1) :
    Serves s (u.send payload twice).1 (u.send payload twice).2 := by
  obtain ⟨hreads, hstate, hne, hall⟩ := u.send_reads payload twice
  rw [h.addr, h.vr] at hall
  rw [hvs] at hreads
  rw [hstate]
  exact ⟨⟨h.addr, h.vr, h.rejectWith, h.swallowFirst, h.strict, h.rejectedNs, h.iFramesSeen⟩, hall,
    hne, by rw [hreads]; exact hc, by rw [hreads, hvs], hl⟩

/-- The answer is an RR. -/
theorem serves_rr {s u : FakeSecondary} (h : Kept s u) (hvs : u.vs = s.vs)
    (hc : u.coming = s.coming) (hl : u.left ≤ s.left - 1) : Serves s [s.rr] u := by
  have hreads : reads s.vs [s.rr] = ([], s.vs) := by simp [rr, reads]
  refine ⟨h, by simp [rr, Answers], List.cons_ne_nil _ _, ?_, ?_, hl⟩
  · rw [hreads]
    exact hc
  · rw [hreads, hvs]

/-- The answer to a poll: the indications in order, then the RRs that are owed before the response,
then the response, and an RR when nothing is left. -/
theorem serves_next (s : FakeSecondary) : Serves s s.next.1 s.next.2 := by
  unfold next
  cases hi : s.indications with
  | cons i rest =>
      obtain ⟨payload, twice⟩ := i
      have hleft := left_of_coming (s := s) (by simp [coming, hi])
      rw [hi, List.length_cons] at hleft
      dsimp only
      refine serves_send ?_ ?_ ?_ ?_
      · exact ⟨rfl, rfl, rfl, rfl, rfl, rfl, rfl⟩
      · rfl
      · simp [coming, hi]
      · refine Nat.le_trans (left_le _) ?_
        dsimp only
        omega
  | nil =>
      cases hp : s.pending with
      | none =>
          have hleft : s.left = 0 := by simp [left, coming, hi, hp]
          refine serves_rr ⟨rfl, rfl, rfl, rfl, rfl, rfl, rfl⟩ rfl rfl ?_
          exact Nat.le_of_eq (by rw [hleft])
      | some payload =>
          have hleft := left_of_coming (s := s) (by simp [coming, hp])
          rw [hi, List.length_nil] at hleft
          dsimp only
          split_ifs with howed
          · refine serves_rr ⟨rfl, rfl, rfl, rfl, rfl, rfl, rfl⟩ rfl (by simp [coming, hi, hp]) ?_
            refine Nat.le_trans (left_le _) ?_
            dsimp only [List.length_nil]
            omega
          · refine serves_send ?_ ?_ ?_ ?_
            · exact ⟨rfl, rfl, rfl, rfl, rfl, rfl, rfl⟩
            · rfl
            · simp [coming, hi, hp]
            · simp [left, coming, hi]

/-- An RR with P is a poll. -/
theorem serves_poll (s : FakeSecondary) (vr : Seq) :
    Serves s (s.hear (rrFrame s.addr vr)).1 (s.hear (rrFrame s.addr vr)).2 := by
  have h := serves_next { s with pollsSeen := s.pollsSeen + 1 }
  have hear : s.hear (rrFrame s.addr vr) = { s with pollsSeen := s.pollsSeen + 1 }.next := by
    simp [hear, rrFrame]
  rw [hear]
  exact ⟨⟨h.addr, h.vr, h.rejectWith, h.swallowFirst, h.strict, h.rejectedNs, h.iFramesSeen⟩,
    h.answers, h.some, h.coming, h.vs, h.left⟩

/-- An RR without P is not answered. -/
theorem hear_release (s : FakeSecondary) (vr : Seq) : s.hear (rrFrame s.addr vr false) = ([], s) := by
  simp [hear, rrFrame]

/-- The request that is expected. -/
theorem hear_request (s : FakeSecondary) (vr : Seq) (message : Bytes) (hr : s.rejectWith = none)
    (hs : s.swallowFirst = false) :
    s.hear ⟨s.addr, iCtrl s.vr vr, message⟩ =
      { s with
        iFramesSeen := s.iFramesSeen + 1
        vr := s.vr + 1
        pending := some (s.responseFor message)
        owedRr := s.rrBeforeResponse }.next := by
  simp [hear, request, hr, hs, responseFor]

end FakeSecondary

section Wp

variable {υ : Type} {E : Exn → LinkSt Desk υ → Prop} {S : LinkSt Desk υ → Prop} {s : LinkSt Desk υ}

/-- On the desk a frame is always taken, and heard. -/
theorem wp_write_desk {f : Frame} {Q : Unit → LinkSt Desk υ → Prop} :
    wp (write f) Q E S s ↔ Q () { s with world := s.world.hear f, log := s.log ++ [.tx f] } := by
  rw [wp_write]
  rfl

/-- A read empties the line. -/
theorem wp_readFrames_desk {b : Time} {Q : List Rx → LinkSt Desk υ → Prop} :
    wp (readFrames b) Q E S s ↔ Q s.world.inbox { s with
      world := { s.world with inbox := [] }, log := s.log ++ [.batch s.world.inbox] } := by
  rw [wp_readFrames]
  rfl

end Wp

end OpenAisg.Link
