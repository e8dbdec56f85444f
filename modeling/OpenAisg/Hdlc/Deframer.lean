import OpenAisg.Hdlc
import OpenAisg.Lib.Pieces

/-!
# The incremental deframer (`hdlc.Deframer`)

`parseFrames` needs a whole reply; a session reads a stream that arrives in
chunks, cut wherever the operating system happened to cut it.  `Deframer` keeps
what has not been framed yet and skips a frame with a bad checksum.

* `Deframer.feed` — consume a chunk; `Deframer.isPartial` — a frame is part-way
  through arriving.
* `streamFrames`, `streamErrors` — what a whole stream comes to, by splitting it
  at FLAG.  This is the meaning of a stream, with no buffer and no chunks in it.
* `Fed` — the invariant: the deframer holds the open piece of the stream so far,
  and has counted its bad checksums.
* `feedAll_stream` — however a stream is cut, feeding its chunks gives just what
  the whole stream comes to.

The one proviso is room: a piece behind a flag that outgrows the buffer loses its
opening flag (`cap`), and what is left of it is no frame.  What precedes the
first flag needs no room.  One chunk is treated in three lemmas, by where its
flags are: `Fed.feed_framed` behind a flag of the stream, `Fed.feed_first` when
it brings the first one, and `Fed.feed_noise` when there is none yet.
-/

namespace OpenAisg.Hdlc

open Pieces

/-! ## The deframer -/

/-- The attributes of a `Deframer`. -/
structure Deframer where
  buf : Bytes := []
  /-- `max_frame`. -/
  max : ℕ := 512
  fcsErrors : ℕ := 0
  overruns : ℕ := 0
  deriving DecidableEq, Repr

/-- `buf.find(FLAG, start)`. -/
def findFlag (buf : Bytes) (start : ℕ) : Option ℕ :=
  ((buf.drop start).findIdx? (· = flag)).map (· + start)

namespace Deframer

/-- `partial`: there is something behind the leading flags. -/
def isPartial (d : Deframer) : Bool := d.buf.dropWhile (· = flag) ≠ []

/-- `if len(buf) > max: …`, where the deletion leaves `rest`.  Noise is cut down to its last octet,
an open piece only loses its flag. -/
def cap (d : Deframer) (rest : Bytes) : Deframer :=
  if d.max < d.buf.length then { d with buf := rest, overruns := d.overruns + 1 } else d

/-- Count a piece with a wrong checksum, or put out its frame. -/
def judge (d : Deframer) (out : List Frame) : Piece → List Frame × Deframer
  | .skip => (out, d)
  | .good f => (out ++ [f], d)
  | .bad _ => (out, { d with fcsErrors := d.fcsErrors + 1 })

/-- The loop of `feed`, for at most `n` passes. -/
def feedLoop : ℕ → Deframer → List Frame → List Frame × Deframer
  | 0, d, out => (out, d)
  | n + 1, d, out =>
      match findFlag d.buf 0 with
      | none => (out, d.cap (d.buf.drop (d.buf.length - 1)))
      | some i =>
          match findFlag d.buf (i + 1) with
          | none =>
              let d := { d with buf := d.buf.drop i }
              (out, d.cap (d.buf.drop 1))
          | some j =>
              let chunk := (d.buf.take j).drop (i + 1)
              -- the closing flag stays: back-to-back frames may share it
              let d := { d with buf := d.buf.drop j }
              if chunk = [] then feedLoop n d out
              else
                let r := d.judge out (readPiece chunk)
                feedLoop n r.2 r.1

/-- `feed`.  Every pass but the last deletes an octet at least. -/
def feed (d : Deframer) (data : Bytes) : List Frame × Deframer :=
  feedLoop (d.buf.length + data.length + 1) { d with buf := d.buf ++ data } []

/-- The frames of successive calls of `feed`, one list after the other. -/
def feedAll (d : Deframer) : List Bytes → List Frame × Deframer
  | [] => ([], d)
  | c :: cs =>
      let r := d.feed c
      let t := r.2.feedAll cs
      (r.1 ++ t.1, t.2)

end Deframer

/-! ## What a whole stream comes to -/

/-- The body is long enough for an address, a control octet and a checksum. -/
def longEnough (body : Bytes) : Bool := 4 ≤ body.length

/-- The checksum at the end of the body is the one of what stands before it. -/
def fcsMatches (body : Bytes) : Bool := fcs16 (body.take (body.length - 2)) = trailer body

/-- `(body[0], body[1], body[2:-2])`. -/
def bodyFrame (body : Bytes) : Frame :=
  ⟨body.getD 0 0, body.getD 1 0, (body.drop 2).take (body.length - 4)⟩

/-- The frames among the pieces between flags. -/
def framesOf (pieces : List Bytes) : List Frame :=
  ((pieces.map unstuff).filter fun b => longEnough b && fcsMatches b).map bodyFrame

/-- How many of the pieces are long enough and have a wrong checksum. -/
def errorsOf (pieces : List Bytes) : ℕ :=
  (pieces.map unstuff).countP fun b => longEnough b && !fcsMatches b

/-- The frames of a stream: of its pieces with a flag on both sides. -/
def streamFrames (s : Bytes) : List Frame := framesOf (closed flag s)

/-- Its bad checksums. -/
def streamErrors (s : Bytes) : ℕ := errorsOf (closed flag s)

/-- What one piece comes to, by the two tests. -/
theorem readPiece_eq (chunk : Bytes) :
    readPiece chunk = if longEnough (unstuff chunk) then
      if fcsMatches (unstuff chunk) then .good (bodyFrame (unstuff chunk))
      else .bad (unstuff chunk)
    else .skip := by
  unfold readPiece
  rcases unstuff chunk with _ | ⟨addr, _ | ⟨ctrl, rest⟩⟩
  · rfl
  · rfl
  dsimp only
  by_cases hlen : 4 ≤ (addr :: ctrl :: rest).length
  · rw [if_neg (show ¬ (addr :: ctrl :: rest).length < 4 by omega),
      if_pos (show longEnough (addr :: ctrl :: rest) = true from decide_eq_true hlen)]
    by_cases hfcs : fcs16 ((addr :: ctrl :: rest).take ((addr :: ctrl :: rest).length - 2)) =
        trailer (addr :: ctrl :: rest)
    · rw [if_neg (not_not.2 hfcs),
        if_pos (show fcsMatches (addr :: ctrl :: rest) = true from decide_eq_true hfcs)]
      rfl
    · rw [if_pos hfcs,
        if_neg (show ¬ fcsMatches (addr :: ctrl :: rest) = true from
          fun h => hfcs (of_decide_eq_true h))]
  · rw [if_pos (show (addr :: ctrl :: rest).length < 4 by omega),
      if_neg (show ¬ longEnough (addr :: ctrl :: rest) = true from
        fun h => hlen (of_decide_eq_true h))]

/-- The frames of pieces come one after the other. -/
theorem framesOf_append (ps qs : List Bytes) : framesOf (ps ++ qs) = framesOf ps ++ framesOf qs := by
  simp [framesOf]

/-- So do their errors. -/
theorem errorsOf_append (ps qs : List Bytes) : errorsOf (ps ++ qs) = errorsOf ps + errorsOf qs := by
  simp [errorsOf]

namespace Deframer

/-- Judging a piece puts out its frame, or counts its error. -/
theorem judge_eq (d : Deframer) (out : List Frame) (c : Bytes) :
    d.judge out (readPiece c) =
      (out ++ framesOf [c], { d with fcsErrors := d.fcsErrors + errorsOf [c] }) := by
  rw [readPiece_eq]
  by_cases hlen : longEnough (unstuff c) = true
  · by_cases hfcs : fcsMatches (unstuff c) = true
    · simp [judge, framesOf, errorsOf, hlen, hfcs]
    · simp [judge, framesOf, errorsOf, hlen, hfcs]
  · simp [judge, framesOf, errorsOf, hlen]

/-! ## One call of `feed` -/

/-- Nothing is found where there is no flag. -/
theorem findFlag_of_notMem {b : Bytes} (h : flag ∉ b) : findFlag b 0 = none := by
  have hb : b.findIdx? (· = flag) = none := by
    rw [List.findIdx?_eq_none_iff]
    intro x hx
    simpa using fun he : x = flag => h (he ▸ hx)
  simp [findFlag, hb]

/-- The first flag is found behind the octets before it. -/
theorem findFlag_append {junk rest : Bytes} (h : flag ∉ junk) :
    findFlag (junk ++ flag :: rest) 0 = some junk.length := by
  have hj : junk.findIdx? (· = flag) = none := by
    rw [List.findIdx?_eq_none_iff]
    intro x hx
    simpa using fun he : x = flag => h (he ▸ hx)
  simp [findFlag, List.findIdx?_append, List.findIdx?_cons, hj]

/-- The search for the closing flag starts behind the opening one. -/
theorem findFlag_next (junk rest : Bytes) :
    findFlag (junk ++ flag :: rest) (junk.length + 1) =
      (findFlag rest 0).map (· + (junk.length + 1)) := by
  have hdrop : (junk ++ flag :: rest).drop (junk.length + 1) = rest := by simp
  rw [findFlag, findFlag, hdrop]
  simp

/-- The passes over a buffer that has a flag: its closed pieces are judged, and what
follows the last flag stays, with that flag.  The induction is on the bound of the passes; each
pass takes one closed piece off the buffer. -/
theorem feedLoop_flag : ∀ (n : ℕ) (rest junk : Bytes) (d : Deframer) (out : List Frame),
    flag ∉ junk → rest.length < n →
    feedLoop n { d with buf := junk ++ flag :: rest } out =
      (out ++ framesOf (rest.splitOn flag).dropLast,
        cap { d with
          buf := flag :: opened flag rest
          fcsErrors := d.fcsErrors + errorsOf (rest.splitOn flag).dropLast }
            (opened flag rest)) := by
  intro n
  induction n with
  | zero => intro rest junk d out _ hn; exact absurd hn (Nat.not_lt_zero _)
  | succ n ih =>
      intro rest junk d out hjunk hn
      rw [feedLoop, findFlag_append hjunk]
      dsimp only
      rw [findFlag_next]
      by_cases hmem : flag ∈ rest
      · obtain ⟨q, rest', rfl, hq⟩ := List.eq_append_cons_of_mem hmem
        have hchunk : ((junk ++ flag :: (q ++ flag :: rest')).take
            (q.length + (junk.length + 1))).drop (junk.length + 1) = q := by
          rw [show junk ++ flag :: (q ++ flag :: rest') = (junk ++ flag :: q) ++ flag :: rest' by simp,
            List.take_left' (by simp; omega)]
          simp
        have hbuf : (junk ++ flag :: (q ++ flag :: rest')).drop (q.length + (junk.length + 1)) =
            flag :: rest' := by
          rw [show junk ++ flag :: (q ++ flag :: rest') = (junk ++ flag :: q) ++ flag :: rest' by simp,
            List.drop_left' (by simp; omega)]
        have hlen : rest'.length < n := by
          simp only [List.length_append, List.length_cons] at hn
          omega
        have hnext := ih rest' [] { d with fcsErrors := d.fcsErrors + errorsOf [q] }
          (out ++ framesOf [q]) List.not_mem_nil hlen
        have hpieces : ((q ++ flag :: rest').splitOn flag).dropLast =
            [q] ++ (rest'.splitOn flag).dropLast := by
          rw [List.splitOn_append_cons_self_of_not_mem hq,
            List.dropLast_cons_of_ne_nil (List.splitOn_ne_nil _ _), List.singleton_append]
        rw [findFlag_append hq, Option.map_some]
        dsimp only
        rw [hchunk, hbuf, hpieces, framesOf_append, errorsOf_append, opened_append_cons,
          ← List.append_assoc, ← Nat.add_assoc, judge_eq]
        rw [List.nil_append] at hnext
        by_cases hempty : q = []
        · rw [if_pos hempty]
          subst hempty
          simpa [framesOf, errorsOf, unstuff, unstuffFrom, longEnough] using hnext
        · rw [if_neg hempty]
          exact hnext
      · rw [findFlag_of_notMem hmem, Option.map_none]
        have hdrop : (junk ++ flag :: rest).drop junk.length = flag :: rest := by simp
        simp [hdrop, List.splitOn_eq_singleton hmem, opened_of_notMem hmem, framesOf, errorsOf]

/-- The only pass over a buffer without a flag. -/
theorem feedLoop_noise (n : ℕ) (d : Deframer) (out : List Frame) (h : flag ∉ d.buf) :
    feedLoop (n + 1) d out = (out, d.cap (d.buf.drop (d.buf.length - 1))) := by
  rw [feedLoop, findFlag_of_notMem h]

/-! ## A stream in chunks -/

/-- What a deframer that was fed the stream `s` holds: the open piece behind its flag, or
noise that stands for a stream without a flag. -/
structure Holds (s : Bytes) (d : Deframer) : Prop where
  framed : flag ∈ s → d.buf = flag :: opened flag s
  noise : flag ∉ s → flag ∉ d.buf ∧ (d.buf = [] ↔ s = [])

/-- `d` is `d₀` after the stream `s`. -/
structure Fed (d₀ : Deframer) (s : Bytes) (d : Deframer) : Prop extends Holds s d where
  max : d.max = d₀.max
  fcsErrors : d.fcsErrors = d₀.fcsErrors + streamErrors s
  overruns : (∀ a ∈ s.head?, a = flag) → d.overruns = d₀.overruns

/-- An empty buffer stands for an empty stream. -/
theorem holds_nil {d : Deframer} (h : d.buf = []) : Holds [] d where
  framed hf := absurd hf List.not_mem_nil
  noise _ := ⟨h ▸ List.not_mem_nil, iff_of_true h rfl⟩

/-- A new deframer has been fed nothing. -/
theorem fed_nil {d : Deframer} (h : d.buf = []) : Fed d [] d where
  toHolds := holds_nil h
  max := rfl
  fcsErrors := rfl
  overruns _ := rfl

/-- A buffer without flags is part of a frame, if there is anything in it. -/
theorem isPartial_of_notMem {d : Deframer} (h : flag ∉ d.buf) :
    d.isPartial = true ↔ d.buf ≠ [] := by
  rw [isPartial, decide_eq_true_iff]
  cases hb : d.buf with
  | nil => simp
  | cons a u =>
      have ha : a ≠ flag := fun he => h (by rw [hb, he]; exact List.mem_cons_self)
      simp [ha]

/-- A leading flag does not count. -/
theorem isPartial_flag {d : Deframer} {u : Bytes} (hb : d.buf = flag :: u) (h : flag ∉ u) :
    d.isPartial = true ↔ u ≠ [] := by
  have hu := isPartial_of_notMem (d := { d with buf := u }) h
  rw [isPartial, decide_eq_true_iff] at hu ⊢
  rw [hb, List.dropWhile_cons_of_pos (by simp)]
  exact hu

/-- A frame is part-way through arriving exactly when something follows the last flag. -/
theorem Holds.isPartial_iff {s : Bytes} {d : Deframer} (h : Holds s d) :
    d.isPartial = true ↔ opened flag s ≠ [] := by
  by_cases hs : flag ∈ s
  · exact isPartial_flag (h.framed hs) (sep_notMem_opened s)
  · obtain ⟨hnot, hnil⟩ := h.noise hs
    rw [isPartial_of_notMem hnot, opened_of_notMem hs, ne_eq, ne_eq, hnil]

/-- The buffer is not trimmed below its bound. -/
theorem cap_of_le {d : Deframer} (h : d.buf.length ≤ d.max) (rest : Bytes) : d.cap rest = d :=
  if_neg (by omega)

/-- Trimming the buffer changes neither its bound nor the count of bad checksums. -/
@[simp] theorem cap_max (d : Deframer) (rest : Bytes) : (d.cap rest).max = d.max := by
  unfold cap
  split_ifs <;> rfl

@[simp] theorem cap_fcsErrors (d : Deframer) (rest : Bytes) :
    (d.cap rest).fcsErrors = d.fcsErrors := by
  unfold cap
  split_ifs <;> rfl

/-- Whatever a deframer held, after a chunk a frame is part-way through arriving exactly
when the last octet is no flag. -/
theorem feed_isPartial (d : Deframer) {c : Bytes} (hc : c ≠ []) :
    (d.feed c).2.isPartial = true ↔ c.getLastD flag ≠ flag := by
  have hlast : c.getLastD flag = (d.buf ++ c).getLastD flag := by
    rw [List.getLastD_eq_getLast?, List.getLastD_eq_getLast?, List.getLast?_append_of_ne_nil _ hc]
  rw [hlast, ne_eq, ← opened_eq_nil_iff, Deframer.feed]
  by_cases hmem : flag ∈ d.buf ++ c
  · obtain ⟨junk, rest, hb, hjunk⟩ := List.eq_append_cons_of_mem hmem
    have hrun := feedLoop_flag (d.buf.length + c.length + 1) rest junk d [] hjunk (by
      have := congrArg List.length hb
      simp only [List.length_append, List.length_cons] at this
      omega)
    have hnot : flag ∉ opened flag rest := sep_notMem_opened rest
    rw [hb, hrun, opened_append_cons, cap]
    split_ifs
    · exact isPartial_of_notMem hnot
    · exact isPartial_flag rfl hnot
  · have hne : d.buf ++ c ≠ [] := fun hn => hc (List.append_eq_nil_iff.1 hn).2
    rw [feedLoop_noise _ _ _ hmem, opened_of_notMem hmem, cap]
    split_ifs
    · have hnot : flag ∉ (d.buf ++ c).drop ((d.buf ++ c).length - 1) :=
        fun hm => hmem (List.mem_of_mem_drop hm)
      have hpos := List.length_pos_iff.2 hne
      refine (isPartial_of_notMem hnot).trans (iff_of_true ?_ hne)
      rw [ne_eq, List.drop_eq_nil_iff]
      omega
    · exact isPartial_of_notMem hmem

/-- An open piece that has room in the buffer is not deleted. -/
theorem Fed.cap_open {d₀ d : Deframer} {s u : Bytes} (h : Fed d₀ s d) (hu : u.length < d₀.max)
    (e : ℕ) :
    cap { d with buf := flag :: u, fcsErrors := e } u =
      { d with buf := flag :: u, fcsErrors := e } := by
  refine cap_of_le ?_ u
  simp only [List.length_cons, h.max]
  omega

/-- A stream that starts with a flag does so from its first octet on. -/
theorem head_of_append {s c : Bytes} (h : ∀ a ∈ (s ++ c).head?, a = flag) :
    ∀ a ∈ s.head?, a = flag := by
  intro a ha
  cases s with
  | nil => cases ha
  | cons b u => exact h a ha

/-- A chunk behind a flag: the buffer starts with the last flag of the stream, and the chunk
continues the open piece. -/
theorem Fed.feed_framed {d₀ d : Deframer} {s : Bytes} (h : Fed d₀ s d) (hs : flag ∈ s) (c : Bytes)
    (hfit : (opened flag (s ++ c)).length < d₀.max) :
    Fed d₀ (s ++ c) (d.feed c).2 ∧ streamFrames (s ++ c) = streamFrames s ++ (d.feed c).1 := by
  have hsc : flag ∈ s ++ c := List.mem_append_left _ hs
  have hbuf : d.buf ++ c = [] ++ flag :: (opened flag s ++ c) := by
    rw [h.framed hs, List.cons_append, List.nil_append]
  have hrun := feedLoop_flag (d.buf.length + c.length + 1) (opened flag s ++ c) [] d []
    List.not_mem_nil (by
      rw [h.framed hs]
      simp only [List.length_append, List.length_cons]
      omega)
  rw [← opened_append, h.cap_open hfit, ← hbuf] at hrun
  rw [Deframer.feed, hrun]
  refine ⟨⟨⟨fun _ => rfl, fun hn => absurd hsc hn⟩, h.max, ?_,
    fun hh => h.overruns (head_of_append hh)⟩, ?_⟩
  · simp only [h.fcsErrors, streamErrors, closed_append hs, errorsOf_append, Nat.add_assoc]
  · simp only [streamFrames, closed_append hs, framesOf_append, List.nil_append]

/-- The chunk with the first flag of the stream: what stands before it is noise. -/
theorem Fed.feed_first {d₀ d : Deframer} {s a rest : Bytes} (h : Fed d₀ s d) (hs : flag ∉ s)
    (ha : flag ∉ a) (hfit : (opened flag (s ++ (a ++ flag :: rest))).length < d₀.max) :
    Fed d₀ (s ++ (a ++ flag :: rest)) (d.feed (a ++ flag :: rest)).2 ∧
      streamFrames (s ++ (a ++ flag :: rest)) =
        streamFrames s ++ (d.feed (a ++ flag :: rest)).1 := by
  have hjunk : flag ∉ d.buf ++ a := by simpa using ⟨(h.noise hs).1, ha⟩
  have hjunk' : flag ∉ s ++ a := by simpa using ⟨hs, ha⟩
  have hrun := feedLoop_flag (d.buf.length + (a ++ flag :: rest).length + 1) rest (d.buf ++ a) d []
    hjunk (by simp; omega)
  have hstream : s ++ (a ++ flag :: rest) = (s ++ a) ++ flag :: rest := by simp
  rw [hstream, opened_append_cons] at hfit
  rw [h.cap_open hfit, List.append_assoc] at hrun
  rw [Deframer.feed, hrun]
  refine ⟨⟨⟨fun _ => ?_, fun hn => absurd (by simp) hn⟩, h.max, ?_,
    fun hh => h.overruns (head_of_append hh)⟩, ?_⟩
  · rw [hstream, opened_append_cons]
  · rw [hstream]
    simp only [h.fcsErrors, streamErrors, closed_append_cons hjunk', closed_of_notMem hs]
    simp [errorsOf]
  · rw [hstream]
    simp only [streamFrames, closed_append_cons hjunk', closed_of_notMem hs, List.nil_append]
    simp [framesOf]

/-- A chunk while the stream has no flag yet: at most one octet of the noise stays. -/
theorem Fed.feed_noise {d₀ d : Deframer} {s c : Bytes} (h : Fed d₀ s d) (hs : flag ∉ s)
    (hc : flag ∉ c) :
    Fed d₀ (s ++ c) (d.feed c).2 ∧ streamFrames (s ++ c) = streamFrames s ++ (d.feed c).1 := by
  obtain ⟨hnot, hnil⟩ := h.noise hs
  have hsc : flag ∉ s ++ c := by simpa using ⟨hs, hc⟩
  have hbc : flag ∉ d.buf ++ c := by simpa using ⟨hnot, hc⟩
  have hempty : d.buf ++ c = [] ↔ s ++ c = [] := by
    rw [List.append_eq_nil_iff, List.append_eq_nil_iff, hnil]
  rw [Deframer.feed, feedLoop_noise _ _ _ hbc]
  refine ⟨⟨⟨fun hm => absurd hm hsc, fun _ => ?_⟩, ?_, ?_, fun hh => ?_⟩, ?_⟩
  · unfold cap
    split_ifs with hlong
    · refine ⟨fun hm => hbc (List.mem_of_mem_drop hm), ?_⟩
      rw [← hempty, List.drop_eq_nil_iff, ← List.length_eq_zero_iff]
      dsimp only at hlong ⊢
      omega
    · exact ⟨hbc, hempty⟩
  · rw [cap_max, h.max]
  · rw [cap_fcsErrors, h.fcsErrors, streamErrors, streamErrors, closed_of_notMem hs,
      closed_of_notMem hsc]
  · -- a stream that starts with a flag has one, so there was no stream
    have hnil' : s ++ c = [] := by
      cases hd : s ++ c with
      | nil => rfl
      | cons a u =>
          rw [hd] at hh hsc
          exact absurd (hh a rfl ▸ List.mem_cons_self) hsc
    have hb : d.buf ++ c = [] := hempty.2 hnil'
    rw [cap_of_le (by rw [hb]; exact Nat.zero_le _)]
    exact h.overruns (head_of_append hh)
  · rw [streamFrames, streamFrames, closed_of_notMem hs, closed_of_notMem hsc, List.append_nil]

/-- **One more chunk.**  The frames of the longer stream are those of the shorter one and
those that this call returns, as long as the open piece has room in the buffer. -/
theorem Fed.feed {d₀ d : Deframer} {s : Bytes} (h : Fed d₀ s d) (c : Bytes)
    (hfit : flag ∈ s ++ c → (opened flag (s ++ c)).length < d₀.max) :
    Fed d₀ (s ++ c) (d.feed c).2 ∧ streamFrames (s ++ c) = streamFrames s ++ (d.feed c).1 := by
  by_cases hs : flag ∈ s
  · exact h.feed_framed hs c (hfit (List.mem_append_left _ hs))
  by_cases hc : flag ∈ c
  · obtain ⟨a, rest, rfl, ha⟩ := List.eq_append_cons_of_mem hc
    exact h.feed_first hs ha (hfit (List.mem_append_right _ hc))
  · exact h.feed_noise hs hc

/-- The chunks of a stream, one after the other. -/
theorem Fed.feedAll {d₀ : Deframer} (cs : List Bytes) : ∀ {s : Bytes} {d : Deframer},
    Fed d₀ s d → (∀ p ∈ ((s ++ cs.flatten).splitOn flag).drop 1, p.length < d₀.max) →
    Fed d₀ (s ++ cs.flatten) (d.feedAll cs).2 ∧
      streamFrames (s ++ cs.flatten) = streamFrames s ++ (d.feedAll cs).1 := by
  induction cs with
  | nil =>
      intro s d h _
      simpa [Deframer.feedAll] using h
  | cons c cs ih =>
      intro s d h hfit
      rw [List.flatten_cons, ← List.append_assoc] at hfit ⊢
      have hroom : flag ∈ s ++ c → (opened flag (s ++ c)).length < d₀.max := by
        intro hm
        obtain ⟨p, hp, hpre⟩ := opened_prefix hm cs.flatten
        exact Nat.lt_of_le_of_lt hpre.length_le (hfit p hp)
      obtain ⟨hfed, hout⟩ := h.feed c hroom
      obtain ⟨hfed', hout'⟩ := ih hfed hfit
      refine ⟨hfed', ?_⟩
      rw [hout', hout, List.append_assoc]
      rfl

/-- **However a stream is cut into chunks**, as long as no piece behind a flag outgrows
the buffer: the frames that `feed` returns, one call after the other, are those of the whole
stream split at FLAG, `fcs_errors` counts its bad checksums, and `partial` tells whether
something follows the last flag. -/
theorem feedAll_stream (m : ℕ) (hm : 1 ≤ m) (cs : List Bytes)
    (hfit : ∀ p ∈ (cs.flatten.splitOn flag).drop 1, p.length ≤ m - 1) :
    (({ max := m } : Deframer).feedAll cs).1 = streamFrames cs.flatten ∧
      (({ max := m } : Deframer).feedAll cs).2.fcsErrors = streamErrors cs.flatten ∧
      ((({ max := m } : Deframer).feedAll cs).2.isPartial = true ↔
        opened flag cs.flatten ≠ []) := by
  obtain ⟨hfed, hout⟩ := (fed_nil (d := { max := m }) rfl).feedAll cs fun p hp => by
    have := hfit p hp
    dsimp only
    omega
  refine ⟨?_, ?_, hfed.isPartial_iff⟩
  · simpa [streamFrames, framesOf, closed] using hout.symm
  · simpa using hfed.fcsErrors

/-- A frame whose checksum arrives in the next chunk, with noise before it. -/
theorem feedAll_stream_short :
    (({ max := 8 } : Deframer).feedAll [[0x55, 0x7E, 0x01, 0x31], [0x95, 0x36, 0x7E]]).1 =
        streamFrames [0x55, 0x7E, 0x01, 0x31, 0x95, 0x36, 0x7E] ∧
      (({ max := 8 } : Deframer).feedAll [[0x55, 0x7E, 0x01, 0x31], [0x95, 0x36, 0x7E]]).1 =
        [⟨0x01, 0x31, []⟩] :=
  ⟨(feedAll_stream 8 (by decide) [[0x55, 0x7E, 0x01, 0x31], [0x95, 0x36, 0x7E]]
    (by decide +kernel)).1, by decide +kernel⟩

end Deframer

end OpenAisg.Hdlc
