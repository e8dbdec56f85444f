import OpenAisg.Hdlc.Deframer

/-!
# The bound of the deframer's buffer

`feed` trims what it keeps when that outgrows `max_frame`, so that noise without
a flag cannot fill the memory of a service that runs for months.  It trims in two
ways: noise without a flag is cut down to one octet, while a frame part-way
through arriving only loses its opening flag and keeps all the rest.

The second way does not bound anything by itself.  A chunk that brings a flag and
then more octets than the buffer should hold leaves all of them there, and only
the next call finds them without a flag and cuts them down.

* `feed_buf` — what a call keeps, as one equation.
* `Fits` — what follows the last flag has room.
* `feed_length_le_iff` — one call keeps at most `max_frame` octets exactly then.
* `feedAll_length_le_iff` — so do all calls of a sequence, call by call.
* `feedAll_length_long` — a chunk that leaves four times the bound.
-/

namespace OpenAisg.Hdlc

open Pieces

namespace Deframer

/-- What trimming leaves in the buffer. -/
theorem cap_buf (d : Deframer) (rest : Bytes) :
    (d.cap rest).buf = if d.max < d.buf.length then rest else d.buf := by
  unfold cap
  split <;> rfl

/-- The bound stays, and a buffer with a flag is cut down to what follows the last one. -/
theorem feed_buf (d : Deframer) (c : Bytes) :
    (d.feed c).2.max = d.max ∧
      (d.feed c).2.buf =
        if flag ∈ d.buf ++ c then
          if d.max < (opened flag (d.buf ++ c)).length + 1 then opened flag (d.buf ++ c)
          else flag :: opened flag (d.buf ++ c)
        else if d.max < (d.buf ++ c).length then (d.buf ++ c).drop ((d.buf ++ c).length - 1)
        else d.buf ++ c := by
  rw [feed]
  by_cases hmem : flag ∈ d.buf ++ c
  · obtain ⟨junk, rest, hb, hjunk⟩ := List.eq_append_cons_of_mem hmem
    have hlen : rest.length < d.buf.length + c.length + 1 := by
      have := congrArg List.length hb
      simp only [List.length_append, List.length_cons] at this
      omega
    have hrun := feedLoop_flag (d.buf.length + c.length + 1) rest junk d [] hjunk hlen
    rw [if_pos hmem, hb, hrun, opened_append_cons]
    exact ⟨cap_max _ _, cap_buf _ _⟩
  · rw [if_neg hmem, feedLoop_noise _ _ _ hmem]
    exact ⟨cap_max _ _, cap_buf _ _⟩

@[simp] theorem feed_max (d : Deframer) (c : Bytes) : (d.feed c).2.max = d.max := (d.feed_buf c).1

/-- What follows the last flag has room in the buffer without that flag. -/
def Fits (d : Deframer) (c : Bytes) : Prop :=
  flag ∈ d.buf ++ c → (opened flag (d.buf ++ c)).length ≤ d.max

instance (d : Deframer) (c : Bytes) : Decidable (d.Fits c) :=
  inferInstanceAs (Decidable (_ → _))

/-- One call keeps within the bound exactly if what follows the last flag does. -/
theorem feed_length_le_iff {d : Deframer} (hm : 1 ≤ d.max) (c : Bytes) :
    (d.feed c).2.buf.length ≤ d.max ↔ d.Fits c := by
  rw [(d.feed_buf c).2]
  unfold Fits
  by_cases hmem : flag ∈ d.buf ++ c
  · rw [if_pos hmem]
    split <;> simp_all
    omega
  · rw [if_neg hmem]
    refine iff_of_true ?_ fun h => absurd h hmem
    split
    · rw [List.length_drop]
      omega
    · omega

/-- Chunks may be fed in two goes. -/
theorem feedAll_append (d : Deframer) (cs ds : List Bytes) :
    d.feedAll (cs ++ ds) =
      ((d.feedAll cs).1 ++ ((d.feedAll cs).2.feedAll ds).1, ((d.feedAll cs).2.feedAll ds).2) := by
  induction cs generalizing d with
  | nil => rfl
  | cons c cs ih => simp [feedAll, ih]

@[simp] theorem feedAll_max (d : Deframer) (cs : List Bytes) : (d.feedAll cs).2.max = d.max := by
  induction cs generalizing d with
  | nil => rfl
  | cons c cs ih => simp [feedAll, ih]

/-- The deframer after one chunk more. -/
theorem feedAll_take_succ (d : Deframer) {cs : List Bytes} {k : ℕ} (hk : k < cs.length) :
    (d.feedAll (cs.take (k + 1))).2 = ((d.feedAll (cs.take k)).2.feed cs[k]).2 := by
  rw [List.take_succ_eq_append_getElem hk, feedAll_append]
  rfl

/-- **The bound.**  After each call of a sequence the buffer holds at most `max_frame` octets if
and only if in each call what follows the last flag fits.  A piece that has outgrown the buffer
loses its opening flag and no more, so the rest of it stays until the next octets come. -/
theorem feedAll_length_le_iff {d : Deframer} (hm : 1 ≤ d.max) (cs : List Bytes) :
    (∀ k, k < cs.length → (d.feedAll (cs.take (k + 1))).2.buf.length ≤ d.max) ↔
      ∀ k (hk : k < cs.length), (d.feedAll (cs.take k)).2.Fits cs[k] := by
  have hstep : ∀ k (hk : k < cs.length),
      (d.feedAll (cs.take (k + 1))).2.buf.length ≤ d.max ↔
        (d.feedAll (cs.take k)).2.Fits cs[k] := by
    intro k hk
    have hm' : 1 ≤ (d.feedAll (cs.take k)).2.max := by rwa [feedAll_max]
    rw [feedAll_take_succ d hk, ← feed_length_le_iff hm', feedAll_max]
  exact forall₂_congr hstep

/-- A deframer for 4 octets keeps within its bound while noise and a short frame arrive. -/
theorem feedAll_length_le_short :
    (({ max := 4 } : Deframer).feedAll
      [[0x55, 0x55, 0x55, 0x55, 0x55], [0x7E, 0x01, 0x31]]).2.buf.length ≤ 4 :=
  (feedAll_length_le_iff (d := { max := 4 }) (by decide)
    [[0x55, 0x55, 0x55, 0x55, 0x55], [0x7E, 0x01, 0x31]]).2 (by decide +kernel) 1 (by decide)

/-- A flag and 64 octets in one chunk: all 64 stay in a buffer for 16. -/
theorem feedAll_length_long : ¬ ∀ k, k < 1 →
    (({ max := 16 } : Deframer).feedAll
      ([flag :: List.replicate 64 0].take (k + 1))).2.buf.length ≤ 16 := by
  decide +kernel

end Deframer

end OpenAisg.Hdlc
