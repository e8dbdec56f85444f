import OpenAisg.Hdlc.Stream
import OpenAisg.Link.Commands
import OpenAisg.Link.Pump

/-!
# Collecting a one-shot reply (`AisgLink._xfer`)

The reply to an XID or U-frame is read until two flags have come and no octet is waiting.  So
it matters where the reply is cut into reads: a reply that starts with a flag more than it
needs, cut behind the second one in a moment when nothing waits, is taken for complete.

* `Port`, `turn`, `xfer` — the port, one turn of the loop, and the method.
* `Turn`, `Script` — what the reads of a transfer bring; nothing is assumed of it.
* `gather` — the octets that the loop collects from a script in time.
* `reply`, `needed` — the octets of a reply, and how many of them hold the whole frame.
* `Unbroken` — no read ends inside the frame with two flags received and no octet waiting.
* `command_reply_iff` — when `_command` returns the frame of a reply.

`wp_xfer` takes the loop and the clock out of the question: in time, the method returns what
the script gathers.  What remains is about octets, and `gather_cases` and
`parseFrames_incomplete` settle the two directions.
-/

namespace OpenAisg.OneShot

open Hdlc Link Prog Pump

/-! ## The method -/

/-- The port, as the one-shot path uses it. -/
class Port (W : Type) extends Serial W where
  /-- `ser.reset_input_buffer()`. -/
  resetInputBuffer : Prog W String Unit
  /-- `ser.write(data)`. -/
  write : Bytes → Prog W String Unit
  /-- `ser.flush()`. -/
  flush : Prog W String Unit

section

variable {W : Type} [Port W]

/-- One turn of `while time.monotonic() < deadline`. -/
def turn (deadline : Time) (buf : Bytes) : PumpProg W (Step Bytes Bytes) := do
  let now ← Pump.monotonic
  if now < deadline then
    let chunk ← port (Serial.read 256)
    if chunk ≠ [] then
      -- frame complete when we have an opening and a closing flag
      if 2 ≤ (buf ++ chunk).count flag then
        let waiting ← port Serial.inWaiting
        if waiting = 0 then pure (.done (buf ++ chunk)) else pure (.next (buf ++ chunk))
      else pure (.next (buf ++ chunk))
    else pure (.next buf)
  else pure (.done buf)

/-- `_xfer`; `fuel` bounds the turns of its loop. -/
def xfer (fuel : ℕ) (frame : Bytes) (timeout : Time) : PumpProg W Bytes := do
  modify fun s => { s with deframer := {} }
  port Port.resetInputBuffer
  port (Port.write frame)
  port Port.flush
  let start ← Pump.monotonic
  loop (turn (start + timeout)) fuel []

end

/-! ## Scripts -/

/-- What a read brought, how many octets were waiting after it, and the clock then. -/
structure Turn where
  chunk : Bytes
  waiting : ℕ
  now : Time
  /-- A read asks for 256 octets. -/
  fits : chunk.length ≤ 256

/-- The reads to come; after the last one every read waits for 50 ms in vain. -/
structure Script where
  turns : List Turn
  now : Time
  waiting : ℕ := 0

instance : Port Script where
  monotonic w := (w.now, w)
  inWaiting := fun w => (.ret w.waiting, w)
  read _ := fun w =>
    match w.turns with
    | [] => (.ret [], { w with now := w.now + ms 50, waiting := 0 })
    | t :: ts => (.ret t.chunk, { turns := ts, now := t.now, waiting := t.waiting })
  resetInputBuffer := pure ()
  write _ := pure ()
  flush := pure ()

/-- Every read of the script begins before the deadline.  The script says what the clock reads
after each of them. -/
def InTime (deadline : Time) : Time → List Turn → Prop
  | _, [] => True
  | now, t :: ts => now < deadline ∧ InTime deadline t.now ts

/-- A bound for the turns until the deadline has passed. -/
def due (deadline : Time) : Time → List Turn → ℕ
  | now, [] => (deadline - now).toNat + 1
  | _, t :: ts => due deadline t.now ts + 1

/-- A line on which only the scripted reply arrives. -/
abbrev Wire : Type := St Script

instance : Line Wire where
  monotonic s := (s.world.now, s)
  sleep d s := { s with world := { s.world with now := s.world.now + d } }
  serialOpen s := (.ok (), s)
  setDtr := pure ()
  readFrames _ := pure []
  write _ := pure ()
  xfer f timeout := fun s =>
    xfer (due (s.world.now + timeout) s.world.now s.world.turns + 1) (buildFrame f) timeout s
  serialClose := pure ()

/-! ## What the loop collects -/

/-- The octets of some reads. -/
def octets (ts : List Turn) : Bytes := (ts.map Turn.chunk).flatten

/-- The loop breaks after this read, with `buf` collected by then. -/
def Turn.Stops (t : Turn) (buf : Bytes) : Prop :=
  t.chunk ≠ [] ∧ 2 ≤ buf.count flag ∧ t.waiting = 0

instance (t : Turn) (buf : Bytes) : Decidable (t.Stops buf) :=
  inferInstanceAs (Decidable (_ ∧ _))

/-- What the loop returns if all reads are in time. -/
def gather : List Turn → Bytes → Bytes
  | [], buf => buf
  | t :: ts, buf =>
      if t.Stops (buf ++ t.chunk) then buf ++ t.chunk else gather ts (buf ++ t.chunk)

section

variable (turns ts : List Turn) (t : Turn) (now : Time) (waiting : ℕ) (d : Deframer)
  (log : List Read)

@[simp] theorem monotonic_wire : Pump.monotonic (⟨⟨turns, now, waiting⟩, d, log⟩ : Wire) =
    (.ret now, ⟨⟨turns, now, waiting⟩, d, log⟩) := rfl

@[simp] theorem inWaiting_wire :
    port Serial.inWaiting (⟨⟨turns, now, waiting⟩, d, log⟩ : Wire) =
      (.ret waiting, ⟨⟨turns, now, waiting⟩, d, log⟩) := rfl

@[simp] theorem read_nil_wire (n : ℕ) :
    port (Serial.read n) (⟨⟨[], now, waiting⟩, d, log⟩ : Wire) =
      (.ret [], ⟨⟨[], now + ms 50, 0⟩, d, log⟩) := rfl

@[simp] theorem read_cons_wire (n : ℕ) :
    port (Serial.read n) (⟨⟨t :: ts, now, waiting⟩, d, log⟩ : Wire) =
      (.ret t.chunk, ⟨⟨ts, t.now, t.waiting⟩, d, log⟩) := rfl

/-- A turn when everything has been read. -/
theorem turn_nil (deadline : Time) (buf : Bytes) :
    turn deadline buf (⟨⟨[], now, waiting⟩, d, log⟩ : Wire) =
      if now < deadline then (.ret (.next buf), ⟨⟨[], now + ms 50, 0⟩, d, log⟩)
      else (.ret (.done buf), ⟨⟨[], now, waiting⟩, d, log⟩) := by
  by_cases h : now < deadline <;> simp [turn, bind_run, h]

/-- A turn before the deadline, with a read of the script. -/
theorem turn_cons {deadline now : Time} (h : now < deadline) (buf : Bytes) :
    turn deadline buf (⟨⟨t :: ts, now, waiting⟩, d, log⟩ : Wire) =
      (.ret (if t.Stops (buf ++ t.chunk) then .done (buf ++ t.chunk)
        else .next (buf ++ t.chunk)), ⟨⟨ts, t.now, t.waiting⟩, d, log⟩) := by
  simp only [turn, bind_run, monotonic_wire, if_pos h, read_cons_wire]
  by_cases hchunk : t.chunk = []
  · simp [hchunk, Turn.Stops]
  · by_cases hcount : 2 ≤ (buf ++ t.chunk).count flag
    · by_cases hwait : t.waiting = 0 <;>
        simp [-List.count_append, bind_run, hchunk, hcount, hwait, Turn.Stops]
    · simp [-List.count_append, hchunk, hcount, Turn.Stops]

end

/-- A wait of 50 ms brings the deadline nearer. -/
theorem toNat_sub_lt {a b : ℤ} (h : a < b) : (b - (a + 1000 * 50)).toNat < (b - a).toNat := by
  omega

/-- The loop ends, and returns what the script gathers.  The induction is on the bound: a turn
takes a read off the script, and behind its end the clock takes over. -/
theorem wp_turns {deadline : Time} {n m : ℕ} {buf : Bytes} {s : Wire} {raw : Bytes}
    (hm : m < n) (htime : InTime deadline s.world.now s.world.turns)
    (hdue : due deadline s.world.now s.world.turns ≤ m) (hraw : gather s.world.turns buf = raw) :
    wp (loop (turn deadline) n buf : PumpProg Script Bytes) (fun r _ => r = raw)
      (fun _ _ => False) (fun _ => False) s := by
  refine wp_loop_measure (fun m buf s => InTime deadline s.world.now s.world.turns ∧
    due deadline s.world.now s.world.turns ≤ m ∧ gather s.world.turns buf = raw)
    (D := fun r _ => r = raw) (fun m buf s h => ?_) n m buf s hm ⟨htime, hdue, hraw⟩
  obtain ⟨htime, hdue, hraw⟩ := h
  obtain ⟨⟨turns, now, waiting⟩, d, log⟩ := s
  dsimp only at htime hdue hraw
  unfold wp
  cases turns with
  | nil =>
      rw [turn_nil]
      by_cases hnow : now < deadline
      · rw [if_pos hnow]
        refine ⟨due deadline (now + ms 50) [], ?_, trivial, Nat.le_refl _, hraw⟩
        simp only [due, ms] at hdue ⊢
        have := toNat_sub_lt hnow
        omega
      · rw [if_neg hnow]
        exact hraw
  | cons t ts =>
      rw [turn_cons ts t waiting d log htime.1]
      rw [gather] at hraw
      by_cases hstop : t.Stops (buf ++ t.chunk)
      · rw [if_pos hstop]
        rwa [if_pos hstop] at hraw
      · rw [if_neg hstop]
        rw [if_neg hstop] at hraw
        exact ⟨due deadline t.now ts, hdue, htime.2, Nat.le_refl _, hraw⟩

/-- The method returns what the script gathers, if every read begins in time. -/
theorem wp_xfer {f : Frame} {timeout : Time} {s : Wire}
    (htime : InTime (s.world.now + timeout) s.world.now s.world.turns) :
    wp (Line.xfer f timeout : Prog Wire String Bytes)
      (fun r _ => r = gather s.world.turns []) (fun _ _ => False) (fun _ => False) s :=
  wp_turns (m := due (s.world.now + timeout) s.world.now s.world.turns)
    (s := ⟨s.world, {}, s.log⟩) (Nat.lt_succ_self _) htime (Nat.le_refl _) rfl

variable {υ : Type}

/-- The time that a transfer has: `timeout or self.timeout`. -/
def budget (own : Time) : Option Time → Time
  | some t => if t = 0 then own else t
  | none => own

/-- The program returns frames with `f` among them. -/
def Receives (f : Frame) (c : LinkProg Wire υ (List Frame)) (s : LinkSt Wire υ) : Prop :=
  wp c (fun fs _ => f ∈ fs) (fun _ _ => False) (fun _ => False) s

/-- To receive a frame is to return a list with it. -/
theorem receives_iff {f : Frame} {c : LinkProg Wire υ (List Frame)} {s : LinkSt Wire υ} :
    Receives f c s ↔ ∃ fs, (c s).1 = .ret fs ∧ f ∈ fs := by
  unfold Receives wp
  rcases c s with ⟨o, t⟩
  cases o <;> simp

/-- `_command` receives what is in the octets that the script gathers. -/
theorem receives_command_iff (addr ctrl : Byte) (pl : Bytes) (timeout : Option Time) (f : Frame)
    {s : LinkSt Wire υ} (htime : InTime (s.world.world.now + budget s.link.timeout timeout)
      s.world.world.now s.world.world.turns) :
    Receives f (command addr ctrl pl timeout) s ↔
      ∃ fs, parseFrames (gather s.world.world.turns []) = .ok fs ∧ f ∈ fs := by
  have hxfer := wp_xfer (f := ⟨addr, ctrl, pl⟩) htime
  have hcommand : Receives f (command addr ctrl pl timeout) s ↔
      wp (Line.xfer ⟨addr, ctrl, pl⟩ (budget s.link.timeout timeout) : Prog Wire String Bytes)
        (fun raw _ => ∃ fs, parseFrames raw = .ok fs ∧ f ∈ fs) (fun _ _ => False)
        (fun _ => False) s.world := by
    unfold Receives command Link.xfer
    rw [wp_bind, wp_bind, wp_read, wp_bind, wp_portOp]
    refine wp_congr fun raw w => ?_
    rw [wp_bind, wp_logEvent, wp_pure, wp_ofExcept]
    cases parseFrames raw with
    | ok fs => simp
    | error e => simp
  rw [hcommand]
  unfold wp at hxfer ⊢
  split at hxfer
  · dsimp only at hxfer ⊢
    rw [hxfer]
  · exact hxfer.elim
  · exact hxfer.elim

/-! ## Replies cut short -/

/-- A reply: more flags than needed, and a frame. -/
def reply (extra : ℕ) (f : Frame) : Bytes := List.replicate extra flag ++ buildFrame f

/-- Each flag in front is an empty piece. -/
theorem splitOn_flags (n : ℕ) (s : Bytes) :
    (List.replicate n flag ++ s).splitOn flag = List.replicate n [] ++ s.splitOn flag := by
  induction n with
  | zero => rfl
  | succ n ih =>
      rw [List.replicate_succ, List.cons_append, ← List.nil_append (flag :: _),
        List.splitOn_append_cons_self_of_not_mem List.not_mem_nil, ih]
      rfl

/-- Empty pieces are neither frames nor errors. -/
theorem framesOf_flags (n : ℕ) (ps : List Bytes) :
    framesOf (List.replicate n [] ++ ps) = framesOf ps ∧
      errorsOf (List.replicate n [] ++ ps) = errorsOf ps := by
  induction n with
  | zero => exact ⟨rfl, rfl⟩
  | succ n ih => exact ih

/-- The reply up to the last octet of the frame's body: all that is needed. -/
def needed (extra : ℕ) (f : Frame) : ℕ := extra + 1 + (stuffed f).length

/-- The pieces of a reply that is cut behind its opening flag. -/
theorem splitOn_cut (extra j : ℕ) (f : Frame) :
    ((reply extra f).take (extra + 1 + j)).splitOn flag =
      List.replicate (extra + 1) [] ++ ((stuffed f ++ [flag]).take j).splitOn flag := by
  have hflags : reply extra f = List.replicate (extra + 1) flag ++ (stuffed f ++ [flag]) := by
    rw [reply, buildFrame_eq, List.replicate_succ', List.append_assoc]
    rfl
  have hcut : (List.replicate (extra + 1) flag ++ (stuffed f ++ [flag])).take
      ((List.replicate (extra + 1) flag).length + j) = _ := List.take_length_add_append j
  rw [List.length_replicate] at hcut
  rw [hflags, hcut, splitOn_flags]

/-- The closing flag is not needed. -/
theorem parseFrames_complete {extra n : ℕ} {f : Frame} (h : needed extra f ≤ n) :
    parseFrames ((reply extra f).take n) = .ok [f] := by
  obtain ⟨j, rfl⟩ := Nat.exists_eq_add_of_le h
  have hflag : flag ∉ stuffed f := flag_notMem_stuff _
  have hbody : framesOf [stuffed f] = [f] ∧ errorsOf [stuffed f] = 0 := pieces_stuffed [f]
  have hpieces : framesOf (((stuffed f ++ [flag]).take ((stuffed f).length + j)).splitOn flag) = [f] ∧
      errorsOf (((stuffed f ++ [flag]).take ((stuffed f).length + j)).splitOn flag) = 0 := by
    rw [List.take_length_add_append]
    cases j with
    | zero =>
        rw [List.take_zero, List.append_nil, List.splitOn_eq_singleton hflag]
        exact hbody
    | succ j =>
        rw [List.take_of_length_le (by simp), List.splitOn_append_cons_self_of_not_mem hflag,
          List.splitOn_nil, ← List.singleton_append, framesOf_append, errorsOf_append, hbody.1,
          hbody.2]
        exact ⟨rfl, rfl⟩
  rw [needed, Nat.add_assoc, parseFrames, splitOn_cut, parsePieces_eq_ok, (framesOf_flags _ _).1,
    hpieces.1]
  rw [(framesOf_flags _ _).2, hpieces.2]

/-- A body that is cut short is not the frame's. -/
theorem notMem_framesOf_take {f : Frame} {j : ℕ} (h : j < (stuffed f).length) :
    f ∉ framesOf [(stuffed f).take j] := by
  intro hmem
  obtain ⟨body, hbody, hf⟩ := List.mem_map.1 hmem
  obtain ⟨hpiece, hgood⟩ := List.mem_filter.1 hbody
  have hshort := length_unstuff_take h
  rw [List.map_singleton, List.mem_singleton] at hpiece
  rw [← stuffed, ← hpiece] at hshort
  have hlong : 4 ≤ body.length := of_decide_eq_true (Bool.and_eq_true_iff.1 hgood).1
  have hpayload := congrArg (fun g : Frame => g.payload.length) hf
  simp [bodyFrame, fcsBytes] at hpayload hshort
  omega

/-- What is cut short does not hold the frame. -/
theorem parseFrames_incomplete {extra n : ℕ} {f : Frame} {fs : List Frame}
    (h : n < needed extra f) (hfs : parseFrames ((reply extra f).take n) = .ok fs) : f ∉ fs := by
  rw [framesOf_of_parsePieces hfs]
  by_cases hn : n ≤ extra
  · have hflags : (reply extra f).take n = List.replicate n flag ++ [] := by
      rw [reply, List.take_append_of_le_length (by simpa using hn), List.take_replicate,
        Nat.min_eq_left hn, List.append_nil]
    rw [hflags, splitOn_flags, (framesOf_flags _ _).1]
    exact List.not_mem_nil
  · obtain ⟨j, rfl⟩ := Nat.exists_eq_add_of_le (Nat.lt_of_not_le hn)
    have hj : j < (stuffed f).length := by
      unfold needed at h
      omega
    have hflag : flag ∉ (stuffed f).take j := fun hm =>
      flag_notMem_stuff _ (List.mem_of_mem_take hm)
    rw [splitOn_cut, (framesOf_flags _ _).1, List.take_append_of_le_length (Nat.le_of_lt hj),
      List.splitOn_eq_singleton hflag]
    exact notMem_framesOf_take hj

/-! ## Where a reply may be cut -/

/-- Whenever a read ends with two flags received and octets of the frame missing, octets are
waiting. -/
def Unbroken (extra : ℕ) (f : Frame) (ts : List Turn) : Prop :=
  ∀ k (hk : k < ts.length), ts[k].chunk ≠ [] → 2 ≤ (octets (ts.take (k + 1))).count flag →
    (octets (ts.take (k + 1))).length < needed extra f → ts[k].waiting ≠ 0

instance (extra : ℕ) (f : Frame) (ts : List Turn) : Decidable (Unbroken extra f ts) :=
  inferInstanceAs (Decidable (∀ _ _, _))

@[simp] theorem octets_nil : octets [] = [] := rfl

@[simp] theorem octets_cons (t : Turn) (ts : List Turn) :
    octets (t :: ts) = t.chunk ++ octets ts := rfl

/-- The octets of some reads and of some more. -/
theorem octets_append (ts us : List Turn) : octets (ts ++ us) = octets ts ++ octets us := by
  simp [octets]

/-- What is gathered is everything, or what has been read when the loop breaks.  In the second case
the read after which it breaks is named. -/
theorem gather_cases (ts : List Turn) (buf : Bytes) :
    gather ts buf = buf ++ octets ts ∨
      ∃ k, ∃ hk : k < ts.length, ts[k].Stops (buf ++ octets (ts.take (k + 1))) ∧
        gather ts buf = buf ++ octets (ts.take (k + 1)) := by
  induction ts generalizing buf with
  | nil => exact Or.inl (List.append_nil _).symm
  | cons t ts ih =>
      rw [gather]
      by_cases hstop : t.Stops (buf ++ t.chunk)
      · rw [if_pos hstop]
        exact Or.inr ⟨0, Nat.succ_pos _, by simpa using hstop, by simp⟩
      · rw [if_neg hstop]
        rcases ih (buf ++ t.chunk) with h | ⟨k, hk, hu, h⟩
        · exact Or.inl (by rw [h, octets_cons, List.append_assoc])
        · refine Or.inr ⟨k + 1, Nat.succ_lt_succ hk, ?_, ?_⟩
          · simpa using hu
          · rw [h, List.take_succ_cons, octets_cons, List.append_assoc]

/-- The loop does not get past a read after which it breaks. -/
theorem gather_prefix {ts : List Turn} {k : ℕ} (hk : k < ts.length) {buf : Bytes}
    (h : ts[k].Stops (buf ++ octets (ts.take (k + 1)))) :
    gather ts buf <+: buf ++ octets (ts.take (k + 1)) := by
  induction ts generalizing k buf with
  | nil => exact absurd hk (Nat.not_lt_zero k)
  | cons t ts ih =>
      rw [List.take_succ_cons, octets_cons, ← List.append_assoc] at h ⊢
      rw [gather]
      by_cases hstop : t.Stops (buf ++ t.chunk)
      · rw [if_pos hstop]
        exact List.prefix_append _ _
      · rw [if_neg hstop]
        cases k with
        | zero => exact absurd (by simpa using h) hstop
        | succ k => exact ih (Nat.lt_of_succ_lt_succ hk) h

/-- What the first reads bring is the first part of the reply. -/
theorem octets_take {ts : List Turn} {extra : ℕ} {f : Frame} (h : octets ts = reply extra f)
    (n : ℕ) : octets (ts.take n) = (reply extra f).take (octets (ts.take n)).length := by
  rw [← h]
  conv_rhs => rw [← List.take_append_drop n ts, octets_append]
  simp

/-- **Where a reply may be cut.**  Whatever a reply's frame is and however many flags come before
it, however its octets are cut into reads, if they are read in time: `_command` returns a list with
the frame exactly when no read ends inside it with two flags received and no octet waiting. -/
theorem command_reply_iff (addr ctrl : Byte) (pl : Bytes) (timeout : Option Time) (extra : ℕ)
    (f : Frame) (s : LinkSt Wire υ) (hreply : octets s.world.world.turns = reply extra f)
    (htime : InTime (s.world.world.now + budget s.link.timeout timeout) s.world.world.now
      s.world.world.turns) :
    Receives f (command addr ctrl pl timeout) s ↔ Unbroken extra f s.world.world.turns := by
  rw [receives_command_iff addr ctrl pl timeout f htime]
  generalize s.world.world.turns = ts at hreply
  constructor
  · rintro ⟨fs, hfs, hmem⟩ k hk hchunk hcount hlen hwait
    have hpre : gather ts [] <+: [] ++ octets (ts.take (k + 1)) :=
      gather_prefix hk ⟨hchunk, hcount, hwait⟩
    rw [List.nil_append] at hpre
    have hshort := Nat.lt_of_le_of_lt hpre.length_le hlen
    rw [octets_take hreply] at hpre
    rw [List.prefix_iff_eq_take.1 (hpre.trans (List.take_prefix _ _))] at hfs
    exact parseFrames_incomplete hshort hfs hmem
  · intro hunbroken
    rcases gather_cases ts [] with h | ⟨k, hk, hstop, h⟩
    · have hall : needed extra f ≤ (reply extra f).length := by
        simp only [needed, reply, buildFrame_eq, List.length_append, List.length_replicate,
          List.length_cons, List.length_nil]
        omega
      rw [h, List.nil_append, hreply, ← List.take_length (l := reply extra f)]
      exact ⟨_, parseFrames_complete hall, List.mem_singleton_self f⟩
    · rw [List.nil_append] at hstop h
      have henough : needed extra f ≤ (octets (ts.take (k + 1))).length := by
        by_contra hlen
        exact hunbroken k hk hstop.1 hstop.2.1 (by omega) hstop.2.2
      rw [h, octets_take hreply]
      exact ⟨_, parseFrames_complete henough, List.mem_singleton_self f⟩

/-! ## A reply in two reads -/

/-- A frame after one flag more, in two reads: `n` octets first, with `waiting` octets waiting
then. -/
def twoReads (f : Frame) (h : (reply 1 f).length ≤ 256) (n waiting : ℕ) : LinkSt Wire Unit where
  world := { deframer := {}, world :=
    { now := 0, turns :=
      [{ chunk := (reply 1 f).take n, waiting := waiting, now := ms 10
         fits := by rw [List.length_take]; exact Nat.le_trans (Nat.min_le_right _ _) h },
       { chunk := (reply 1 f).drop n, waiting := 0, now := ms 20
         fits := by rw [List.length_drop]; exact Nat.le_trans (Nat.sub_le _ _) h }] } }
  link := {}
  log := []
  user := ()

/-- The UA of the device at address 1, cut behind the two flags, with octets waiting. -/
theorem command_reply_waiting :
    Receives ⟨1, ctrlUa ||| pf, []⟩ (command 1 (ctrlSnrm ||| pf))
      (twoReads ⟨1, ctrlUa ||| pf, []⟩ (by decide) 2 5) :=
  (command_reply_iff 1 (ctrlSnrm ||| pf) [] none 1 ⟨1, ctrlUa ||| pf, []⟩
    (twoReads ⟨1, ctrlUa ||| pf, []⟩ (by decide) 2 5) (by decide)
    ⟨by decide, by decide, trivial⟩).2 (by decide)

/-- Cut there with no octet waiting it is taken for silence, and a longer reply that is cut
inside the frame for a collision. -/
theorem command_reply_cut :
    ¬ Receives ⟨1, ctrlUa ||| pf, []⟩ (command 1 (ctrlSnrm ||| pf))
        (twoReads ⟨1, ctrlUa ||| pf, []⟩ (by decide) 2 0) ∧
      (command 1 (ctrlSnrm ||| pf) [] none
        (twoReads ⟨1, ctrlUa ||| pf, []⟩ (by decide) 2 0)).1 = .ret [] ∧
      (command 1 (ctrlXid ||| pf) [] none
        (twoReads ⟨1, ctrlXid ||| pf, [1, 2, 3]⟩ (by decide) 6 0)).1 =
          .raise (.frameError "bad FCS in frame: 01 bf 01 02") := by
  have hsilence : (command 1 (ctrlSnrm ||| pf) [] none
      (twoReads ⟨1, ctrlUa ||| pf, []⟩ (by decide) 2 0)).1 = .ret [] := by
    decide +kernel
  refine ⟨?_, hsilence, by decide +kernel⟩
  rw [receives_iff, hsilence]
  rintro ⟨fs, hfs, hmem⟩
  cases hfs
  cases hmem

end OpenAisg.OneShot
