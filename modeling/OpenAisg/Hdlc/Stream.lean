import OpenAisg.Hdlc.Deframer

/-!
# Frames on the wire and back

What `buildFrame` encodes, both decoders read back.  The one-shot decoder gets
the octets at once; the incremental one gets them in any chunks.

* `unstuff_stuff`, `flag_notMem_stuff` — stuffing loses nothing and hides every
  flag.
* `trailer_append` — the checksum survives in its two octets.
* `unstuff_stuffed` — so what stands between the flags of a frame is read as that
  frame.
* `Gap`, `stream` — encodings one after the other, with more flags between them
  or with a closing flag that opens the next frame too.  A transmitter may do
  either, and a receiver has to take both.
* `splitOn_stream` — split at FLAG, such a stream is the stuffed frames and some
  empty pieces, which mean nothing.
* `stream_roundTrip` — `parseFrames`, and a `Deframer` fed any chunks, give the
  frames back, in order and with nothing else.
-/

namespace OpenAisg.Hdlc

open Pieces

/-! ## Stuffing -/

/-- One octet of the stuffing. -/
theorem stuff_cons (b : Byte) (bs : Bytes) :
    stuff (b :: bs) = if b = flag ∨ b = esc then esc :: (b ^^^ escXor) :: stuff bs
      else b :: stuff bs := rfl

/-- Stuffing is undone. -/
theorem unstuff_stuff (data : Bytes) : unstuff (stuff data) = data := by
  induction data with
  | nil => rfl
  | cons b bs ih =>
      rw [stuff_cons]
      split_ifs with h
      · have hb : b ^^^ escXor ^^^ escXor = b := by rw [BitVec.xor_assoc]; simp
        simp only [unstuff, unstuffFrom, if_true, hb]
        rw [← unstuff, ih]
      · have hb : b ≠ esc := fun he => h (Or.inr he)
        simp only [unstuff, unstuffFrom, hb, if_false]
        rw [← unstuff, ih]

/-- A stuffed octet. -/
theorem unstuff_esc (b : Byte) (bs : Bytes) :
    unstuff (esc :: b :: bs) = (b ^^^ escXor) :: unstuff bs := rfl

/-- Any other. -/
theorem unstuff_cons {b : Byte} (h : b ≠ esc) (bs : Bytes) : unstuff (b :: bs) = b :: unstuff bs :=
  if_neg h

/-- Every octet of a stuffed body counts: cut short, it unstuffs to less. -/
theorem length_unstuff_take {data : Bytes} {j : ℕ} (h : j < (stuff data).length) :
    (unstuff ((stuff data).take j)).length < data.length := by
  induction data generalizing j with
  | nil => exact absurd h (Nat.not_lt_zero j)
  | cons b bs ih =>
      rw [stuff_cons] at h ⊢
      split_ifs at h ⊢ with hb
      · match j with
        | 0 => exact Nat.succ_pos _
        | 1 => exact Nat.succ_pos _
        | j + 2 =>
            have hrest := ih (j := j) (by simpa using h)
            rw [List.take_succ_cons, List.take_succ_cons, unstuff_esc]
            simpa using hrest
      · have hesc : b ≠ esc := fun he => hb (Or.inr he)
        match j with
        | 0 => exact Nat.succ_pos _
        | j + 1 =>
            have hrest := ih (j := j) (by simpa using h)
            rw [List.take_succ_cons, unstuff_cons hesc]
            simpa using hrest

/-- No flag is left, so a receiver can find the end of the frame. -/
theorem flag_notMem_stuff (data : Bytes) : flag ∉ stuff data := by
  induction data with
  | nil => exact List.not_mem_nil
  | cons b bs ih =>
      rw [stuff_cons]
      split_ifs with h
      · have hesc : flag ≠ esc := by decide
        have hxor : flag ≠ b ^^^ escXor := by
          rcases h with rfl | rfl <;> decide
        simp [hesc, hxor, ih]
      · have hb : flag ≠ b := fun he => h (Or.inl he.symm)
        simp [hb, ih]

/-- Stuffing only adds. -/
theorem length_le_stuff (data : Bytes) : data.length ≤ (stuff data).length := by
  induction data with
  | nil => exact Nat.le_refl _
  | cons b bs ih =>
      rw [stuff_cons]
      split_ifs
      · simp only [List.length_cons]
        omega
      · simpa using ih

/-! ## The checksum -/

/-- The entries of the table are registers. -/
theorem crcTable_lt : ∀ c ∈ crcTable, c < 2 ^ 16 := by decide +kernel

/-- The checksum fits two octets. -/
theorem fcs16_lt (data : Bytes) : fcs16 data < 2 ^ 16 := by
  have hstep : ∀ (bs : Bytes) (crc : ℕ), crc < 2 ^ 16 → bs.foldl (fun crc b =>
      (crc >>> 8) ^^^ crcTable.getD ((crc ^^^ b.toNat) &&& 0xFF) 0) crc < 2 ^ 16 := by
    intro bs
    induction bs with
    | nil => intro crc h; exact h
    | cons b bs ih =>
        intro crc h
        refine ih _ (Nat.xor_lt_two_pow ?_ ?_)
        · rw [Nat.shiftRight_eq_div_pow]
          exact Nat.lt_of_le_of_lt (Nat.div_le_self _ _) h
        · rw [List.getD_eq_getElem?_getD]
          cases hg : crcTable[(crc ^^^ b.toNat) &&& 0xFF]? with
          | none => simp
          | some c => exact crcTable_lt c (List.mem_of_getElem? hg)
  exact Nat.xor_lt_two_pow (hstep data _ (by decide)) (by decide)

/-- What the receiver reads at the end is what the transmitter put there. -/
theorem trailer_append (body : Bytes) : trailer (body ++ fcsBytes body) = fcs16 body := by
  have hlt := fcs16_lt body
  have hlow : (BitVec.ofNat 8 (fcs16 body &&& 0xFF)).toNat = fcs16 body % 256 := by
    rw [BitVec.toNat_ofNat, show 0xFF = 2 ^ 8 - 1 from rfl, Nat.and_two_pow_sub_one_eq_mod]
    omega
  have hhigh : (BitVec.ofNat 8 (fcs16 body >>> 8)).toNat = fcs16 body / 256 := by
    rw [BitVec.toNat_ofNat, Nat.shiftRight_eq_div_pow]
    omega
  have hsum := Nat.shiftLeft_add_eq_or_of_lt (show fcs16 body % 256 < 2 ^ 8 by omega)
    (fcs16 body / 256)
  have hget : ∀ x y : Byte, (body ++ [x, y]).getD body.length 0 = x ∧
      (body ++ [x, y]).getD (body.length + 1) 0 = y := by
    intro x y
    simp [List.getD_eq_getElem?_getD]
  unfold trailer fcsBytes
  simp only [List.length_append, List.length_cons, List.length_nil]
  rw [show body.length + (0 + 1 + 1) - 2 = body.length by omega,
    show body.length + (0 + 1 + 1) - 1 = body.length + 1 by omega, (hget _ _).1, (hget _ _).2,
    hlow, hhigh, Nat.or_comm, ← hsum, Nat.shiftLeft_eq]
  omega

/-! ## One frame -/

/-- What `buildFrame` puts between its two flags. -/
def stuffed (f : Frame) : Bytes :=
  stuff (f.addr :: f.ctrl :: f.payload ++ fcsBytes (f.addr :: f.ctrl :: f.payload))

theorem buildFrame_eq (f : Frame) : buildFrame f = flag :: (stuffed f ++ [flag]) := rfl

/-- No frame is too short for a receiver. -/
theorem length_stuffed (f : Frame) : 4 ≤ (stuffed f).length := by
  refine Nat.le_trans ?_ (length_le_stuff _)
  simp [fcsBytes]

/-- What is unstuffed is long enough, has the right checksum and is the frame. -/
theorem unstuff_stuffed (f : Frame) : longEnough (unstuff (stuffed f)) = true ∧
    fcsMatches (unstuff (stuffed f)) = true ∧ bodyFrame (unstuff (stuffed f)) = f := by
  have hlen : (f.addr :: f.ctrl :: f.payload ++ fcsBytes (f.addr :: f.ctrl :: f.payload)).length =
      f.payload.length + 4 := by
    simp [fcsBytes]
  have htake : (f.addr :: f.ctrl :: f.payload ++ fcsBytes (f.addr :: f.ctrl :: f.payload)).take
      (f.payload.length + 2) = f.addr :: f.ctrl :: f.payload :=
    List.take_left' (by simp)
  rw [stuffed, unstuff_stuff]
  refine ⟨?_, ?_, ?_⟩
  · rw [longEnough, decide_eq_true_iff, hlen]
    omega
  · rw [fcsMatches, decide_eq_true_iff, hlen,
      show f.payload.length + 4 - 2 = f.payload.length + 2 by omega, htake, trailer_append]
  · unfold bodyFrame
    rw [hlen]
    simp

/-! ## Frames one after the other -/

/-- What lies between two frames. -/
inductive Gap where
  /-- The closing flag opens the next frame too. -/
  | shared
  /-- Each has its own flag, with `n` more between them. -/
  | fill (n : ℕ)
  deriving DecidableEq, Repr

/-- The encoding `next` of the frames behind a gap, as it follows a closing flag. -/
def Gap.before (next : Bytes) : Gap → Bytes
  | shared => next.tail
  | fill n => List.replicate n flag ++ next

/-- The encodings of frames, each with the gap behind it; the last has none. -/
def stream : List (Frame × Gap) → Bytes
  | [] => []
  | [(f, _)] => buildFrame f
  | (f, g) :: next :: rest => buildFrame f ++ g.before (stream (next :: rest))

/-- Empty pieces between two others are flags between them. -/
theorem intercalate_replicate (n : ℕ) (p : Bytes) {ps : List Bytes} (hps : ps ≠ []) :
    [flag].intercalate (p :: (List.replicate n [] ++ ps)) =
      p ++ (List.replicate (n + 1) flag ++ [flag].intercalate ps) := by
  induction n generalizing p with
  | zero => simp [List.intercalate_cons_of_ne_nil hps]
  | succ n ih =>
      rw [List.replicate_succ, List.cons_append, List.intercalate_cons_cons, ih,
        List.replicate_succ (n := n + 1)]
      simp

/-- The pieces behind the opening flag of a stream. -/
theorem stream_cons (f : Frame) (g : Gap) (rest : List (Frame × Gap)) :
    ∃ ps, stream ((f, g) :: rest) = flag :: (([flag].intercalate (stuffed f :: ps)) ++ [flag]) ∧
      (∀ p ∈ ps, flag ∉ p) ∧ ps.filter (!·.isEmpty) = rest.map fun r => stuffed r.1 := by
  induction rest generalizing f g with
  | nil => exact ⟨[], by simp [stream, buildFrame_eq], by simp, rfl⟩
  | cons next rest ih =>
      obtain ⟨ps, hps, hflag, hfilter⟩ := ih next.1 next.2
      have hne : (stuffed next.1).isEmpty = false := by
        rw [List.isEmpty_eq_false_iff]
        exact List.ne_nil_of_length_pos (Nat.lt_of_lt_of_le (by decide) (length_stuffed next.1))
      cases g with
      | shared =>
          refine ⟨stuffed next.1 :: ps, ?_, ?_, ?_⟩
          · rw [stream, buildFrame_eq, Gap.before, hps]
            simp
          · simpa using ⟨flag_notMem_stuff _, hflag⟩
          · simp [hne, hfilter]
      | fill n =>
          refine ⟨List.replicate (n + 1) [] ++ stuffed next.1 :: ps, ?_, ?_, ?_⟩
          · rw [stream, buildFrame_eq, Gap.before, hps]
            rw [intercalate_replicate _ _ (List.cons_ne_nil _ _), List.replicate_succ' (n := n + 1),
              List.replicate_succ (n := n)]
            simp
          · intro p hp
            rcases List.mem_append.1 hp with hp | hp
            · rw [List.eq_of_mem_replicate hp]
              exact List.not_mem_nil
            · rcases List.mem_cons.1 hp with rfl | hp
              · exact flag_notMem_stuff _
              · exact hflag p hp
          · simp [hne, hfilter]

/-- A reply without a bad checksum is read in full. -/
theorem parsePieces_eq_ok {ps : List Bytes} (h : errorsOf ps = 0) :
    parsePieces ps = .ok (framesOf ps) := by
  induction ps with
  | nil => rfl
  | cons p ps ih =>
      rw [← List.singleton_append, errorsOf_append, Nat.add_eq_zero_iff] at h
      rw [← List.singleton_append (l := ps), framesOf_append, List.singleton_append, parsePieces,
        readPiece_eq, ih h.2]
      by_cases hlen : longEnough (unstuff p) = true
      · by_cases hfcs : fcsMatches (unstuff p) = true
        · simp [hlen, hfcs, framesOf, Except.map]
        · simp [hlen, hfcs, errorsOf] at h
      · simp [hlen, framesOf]

/-- What `parse_frames` returns, if it does. -/
theorem framesOf_of_parsePieces {ps : List Bytes} {fs : List Frame}
    (h : parsePieces ps = .ok fs) : fs = framesOf ps := by
  induction ps generalizing fs with
  | nil => cases h; rfl
  | cons p ps ih =>
      rw [parsePieces, readPiece_eq] at h
      rw [← List.singleton_append, framesOf_append]
      by_cases hlen : longEnough (unstuff p) = true
      · by_cases hfcs : fcsMatches (unstuff p) = true
        · simp only [hlen, hfcs, if_true] at h
          cases hps : parsePieces ps with
          | error e => rw [hps] at h; cases h
          | ok gs =>
              rw [hps] at h
              cases h
              rw [← ih hps]
              simp [framesOf, hlen, hfcs]
        · simp [hlen, hfcs] at h
      · simp only [hlen] at h
        rw [← ih h]
        simp [framesOf, hlen]

/-- Empty pieces are neither frames nor errors. -/
theorem pieces_filter (ps : List Bytes) : framesOf (ps.filter (!·.isEmpty)) = framesOf ps ∧
    errorsOf (ps.filter (!·.isEmpty)) = errorsOf ps := by
  induction ps with
  | nil => exact ⟨rfl, rfl⟩
  | cons p ps ih =>
      cases p with
      | nil => exact ih
      | cons b bs =>
          rw [List.filter_cons_of_pos (by rfl), ← List.singleton_append (x := b :: bs),
            ← List.singleton_append (x := b :: bs) (l := ps), framesOf_append, framesOf_append,
            errorsOf_append, errorsOf_append, ih.1, ih.2]
          exact ⟨rfl, rfl⟩

/-- Stuffed frames are read as these frames, without an error. -/
theorem pieces_stuffed (fs : List Frame) :
    framesOf (fs.map stuffed) = fs ∧ errorsOf (fs.map stuffed) = 0 := by
  induction fs with
  | nil => exact ⟨rfl, rfl⟩
  | cons f fs ih =>
      obtain ⟨hlen, hfcs, hframe⟩ := unstuff_stuffed f
      rw [List.map_cons, ← List.singleton_append (x := stuffed f), framesOf_append,
        errorsOf_append, ih.1, ih.2]
      simp [framesOf, errorsOf, hlen, hfcs, hframe]

/-- The pieces of a stream of frames: nothing before the first flag or behind the last, and
stuffed frames with empty pieces between them. -/
theorem splitOn_stream (l : List (Frame × Gap)) (hl : l ≠ []) :
    ∃ ps, (stream l).splitOn flag = [] :: (ps ++ [[]]) ∧
      ps.filter (!·.isEmpty) = l.map fun r => stuffed r.1 := by
  cases l with
  | nil => exact absurd rfl hl
  | cons r rest =>
      obtain ⟨ps, hps, hflag, hfilter⟩ := stream_cons r.1 r.2 rest
      have hne : (stuffed r.1).isEmpty = false := by
        rw [List.isEmpty_eq_false_iff]
        exact List.ne_nil_of_length_pos (Nat.lt_of_lt_of_le (by decide) (length_stuffed r.1))
      have hall : ∀ p ∈ stuffed r.1 :: ps, flag ∉ p := by
        simpa using ⟨flag_notMem_stuff _, hflag⟩
      refine ⟨stuffed r.1 :: ps, ?_, by simp [hne, hfilter]⟩
      rw [hps, ← List.nil_append (flag :: _), List.splitOn_append_cons_self_of_not_mem
        List.not_mem_nil, List.splitOn_append_cons_self, List.splitOn_nil,
        List.splitOn_intercalate flag hall (List.cons_ne_nil _ _)]

/-- A stream of frames: both its reading at once and the room its pieces need. -/
theorem stream_pieces (l : List (Frame × Gap)) :
    framesOf ((stream l).splitOn flag) = l.map Prod.fst ∧
      errorsOf ((stream l).splitOn flag) = 0 ∧
      streamFrames (stream l) = l.map Prod.fst ∧ streamErrors (stream l) = 0 ∧
      (∀ a ∈ (stream l).head?, a = flag) ∧
      ∀ m, (∀ r ∈ l, (stuffed r.1).length < m) →
        ∀ p ∈ ((stream l).splitOn flag).drop 1, p.length < m := by
  by_cases hl : l = []
  · subst hl
    simp [stream, framesOf, errorsOf, streamFrames, streamErrors, closed, unstuff, unstuffFrom,
      longEnough]
  obtain ⟨ps, hps, hfilter⟩ := splitOn_stream l hl
  have hempty : framesOf [[]] = [] ∧ errorsOf [[]] = 0 := ⟨rfl, rfl⟩
  have hclosed : closed flag (stream l) = ps := by simp [closed, hps]
  have hread : framesOf ps = l.map Prod.fst ∧ errorsOf ps = 0 := by
    have hmap : (l.map fun r => stuffed r.1) = (l.map Prod.fst).map stuffed := by simp
    rw [← (pieces_filter ps).1, ← (pieces_filter ps).2, hfilter, hmap]
    exact pieces_stuffed _
  refine ⟨?_, ?_, by rw [streamFrames, hclosed, hread.1], by rw [streamErrors, hclosed, hread.2],
    ?_, fun m hm p hp => ?_⟩
  · rw [hps, ← List.singleton_append, framesOf_append, framesOf_append, hempty.1, hread.1]
    simp
  · rw [hps, ← List.singleton_append, errorsOf_append, errorsOf_append, hempty.2, hread.2]
  · obtain ⟨r, rest, rfl⟩ := List.exists_cons_of_ne_nil hl
    obtain ⟨qs, hqs, -⟩ := stream_cons r.1 r.2 rest
    rw [show stream (r :: rest) = _ from hqs]
    simp
  · obtain ⟨r, hr⟩ := List.exists_mem_of_ne_nil l hl
    have hpos : 0 < m := Nat.lt_of_le_of_lt (Nat.zero_le _) (hm r hr)
    rw [hps, List.drop_one, List.tail_cons, List.mem_append, List.mem_singleton] at hp
    rcases hp with hp | rfl
    · cases p with
      | nil => exact hpos
      | cons b bs =>
          have hmem : b :: bs ∈ ps.filter (!·.isEmpty) := List.mem_filter.2 ⟨hp, rfl⟩
          rw [hfilter] at hmem
          obtain ⟨r', hr', he⟩ := List.mem_map.1 hmem
          rw [← he]
          exact hm r' hr'
    · exact hpos

/-- One frame is read back by itself. -/
theorem parseFrames_buildFrame (f : Frame) : parseFrames (buildFrame f) = .ok [f] := by
  obtain ⟨hframes, herrors, -⟩ := stream_pieces [(f, .fill 0)]
  have hstream : stream [(f, .fill 0)] = buildFrame f := rfl
  rw [← hstream, parseFrames, parsePieces_eq_ok herrors, hframes]
  rfl

/-- **Round trip.**  The encodings of frames, with more flags between them or with shared
ones, are read back as these frames: by `parse_frames`, without a `FrameError`, and by a
fresh `Deframer` with room for them, in any chunks, without an error or an overrun. -/
theorem stream_roundTrip (l : List (Frame × Gap)) :
    parseFrames (stream l) = .ok (l.map Prod.fst) ∧
      ∀ (m : ℕ) (cs : List Bytes), (∀ r ∈ l, (stuffed r.1).length < m) → cs.flatten = stream l →
        (({ max := m } : Deframer).feedAll cs).1 = l.map Prod.fst ∧
          (({ max := m } : Deframer).feedAll cs).2.fcsErrors = 0 ∧
          (({ max := m } : Deframer).feedAll cs).2.overruns = 0 := by
  obtain ⟨hframes, herrors, hstream, hzero, hhead, hroom⟩ := stream_pieces l
  refine ⟨by rw [parseFrames, parsePieces_eq_ok herrors, hframes], fun m cs hm hcs => ?_⟩
  obtain ⟨hfed, hout⟩ := (Deframer.fed_nil (d := { max := m }) rfl).feedAll cs
    (by rw [hcs]; exact hroom m hm)
  rw [List.nil_append, hcs] at hfed hout
  refine ⟨?_, ?_, hfed.overruns hhead⟩
  · rw [← hstream, hout]
    simp [streamFrames, framesOf, closed]
  · rw [hfed.fcsErrors, hzero]

/-- Two frames that share a flag and a third behind a fill, the second with every octet
that is stuffed, in three chunks. -/
theorem stream_roundTrip_three :
    (({ max := 16 } : Deframer).feedAll
        [(stream [(⟨1, 0x93, []⟩, .shared), (⟨1, 0x10, [0x7E, 0x7D]⟩, .fill 2),
            (⟨2, 0x31, []⟩, .fill 0)]).take 4,
          ((stream [(⟨1, 0x93, []⟩, .shared), (⟨1, 0x10, [0x7E, 0x7D]⟩, .fill 2),
            (⟨2, 0x31, []⟩, .fill 0)]).drop 4).take 6,
          (stream [(⟨1, 0x93, []⟩, .shared), (⟨1, 0x10, [0x7E, 0x7D]⟩, .fill 2),
            (⟨2, 0x31, []⟩, .fill 0)]).drop 10]).1 =
      [⟨1, 0x93, []⟩, ⟨1, 0x10, [0x7E, 0x7D]⟩, ⟨2, 0x31, []⟩] :=
  ((stream_roundTrip [(⟨1, 0x93, []⟩, .shared), (⟨1, 0x10, [0x7E, 0x7D]⟩, .fill 2),
    (⟨2, 0x31, []⟩, .fill 0)]).2 16 _ (by decide +kernel) (by decide +kernel)).1

end OpenAisg.Hdlc
