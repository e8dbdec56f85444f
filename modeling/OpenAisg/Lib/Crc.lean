import Mathlib.Algebra.Group.Nat.Defs
import Mathlib.Data.List.Basic
import Mathlib.Logic.Function.Iterate

/-!
# Cyclic redundancy checks

A register of `w` bits that is fed bit by bit, the lowest one first, with the
reflected polynomial `p`.  Nothing here depends on the width or the polynomial.

* `shift`, `feed`, `run` — one shift, one bit, a string of bits.
* `run_xor` — the register is linear in its state and in what it is fed.  So an
  error is seen or overlooked independently of the data it falls on: it is enough
  to feed the error itself to a zero register.
* `run_eq` — feeding at most `w` bits is the same as adding them to the register
  and shifting.
* `shift_iterate` — shifts by `n` are the shifts of the low `n` bits, and the
  rest moved down: what a table is made for.
* `shift_iterate_injective` — if the polynomial has its highest bit, no shift
  forgets anything.
* `run_burst` — an error within `w` consecutive bits changes the register: once
  its bits are in, they are added to a zero register and cannot be shifted away.
-/

namespace Crc

variable {w : ℕ} {p : BitVec w}

/-- One shift towards the lowest bit. -/
def shift (p c : BitVec w) : BitVec w := if c.getLsbD 0 then (c >>> 1) ^^^ p else c >>> 1

/-- A bit as a register. -/
def bit (b : Bool) : BitVec w := if b then 1#w else 0#w

/-- One bit is fed. -/
def feed (p c : BitVec w) (b : Bool) : BitVec w := shift p (c ^^^ bit b)

/-- A string of bits is fed. -/
def run (p c : BitVec w) (bs : List Bool) : BitVec w := bs.foldl (feed p) c

/-- The first `w` bits of a string, as a register. -/
def word : List Bool → BitVec w
  | [] => 0#w
  | b :: bs => bit b ^^^ (word bs <<< 1)

/-! ## Linearity -/

theorem xor_xor_cancel (a b x : BitVec w) : (a ^^^ x) ^^^ (b ^^^ x) = a ^^^ b := by
  ext i hi
  simp only [BitVec.getElem_xor]
  cases a[i] <;> cases b[i] <;> cases x[i] <;> rfl

/-- A shift is linear. -/
theorem shift_xor (a b : BitVec w) : shift p (a ^^^ b) = shift p a ^^^ shift p b := by
  unfold shift
  rw [BitVec.getLsbD_xor, BitVec.ushiftRight_xor_distrib]
  cases a.getLsbD 0 <;> cases b.getLsbD 0
  · rfl
  · exact (BitVec.xor_assoc _ _ _)
  · simp only [Bool.xor_false, if_true, Bool.false_eq_true, if_false]
    rw [BitVec.xor_assoc, BitVec.xor_comm (b >>> 1) p, ← BitVec.xor_assoc]
  · exact (xor_xor_cancel _ _ _).symm

@[simp] theorem shift_zero : shift p 0#w = 0#w := by
  simp [shift]

/-- So are many shifts. -/
theorem shift_iterate_xor (n : ℕ) (a b : BitVec w) :
    (shift p)^[n] (a ^^^ b) = (shift p)^[n] a ^^^ (shift p)^[n] b := by
  induction n generalizing a b with
  | zero => rfl
  | succ n ih => simp only [Function.iterate_succ_apply, shift_xor, ih]

theorem bit_xor (a b : Bool) : (bit (a ^^ b) : BitVec w) = bit a ^^^ bit b := by
  cases a <;> cases b <;> simp [bit]

/-- So is a fed bit. -/
theorem feed_xor (x y : BitVec w) (a b : Bool) :
    feed p (x ^^^ y) (a ^^ b) = feed p x a ^^^ feed p y b := by
  unfold feed
  rw [bit_xor, ← shift_xor]
  congr 1
  ext i hi
  simp only [BitVec.getElem_xor]
  cases x[i] <;> cases y[i] <;> cases (bit a : BitVec w)[i] <;> cases (bit b : BitVec w)[i] <;> rfl

/-- Two strings of one length, added. -/
theorem run_xor {as bs : List Bool} (h : as.length = bs.length) (c d : BitVec w) :
    run p (c ^^^ d) (List.zipWith xor as bs) = run p c as ^^^ run p d bs := by
  induction as generalizing bs c d with
  | nil =>
      cases bs with
      | nil => rfl
      | cons b bs => cases h
  | cons a as ih =>
      cases bs with
      | nil => cases h
      | cons b bs =>
          have hrest := ih (Nat.succ.inj h) (feed p c a) (feed p d b)
          rwa [← feed_xor] at hrest

/-- Strings are fed one after the other. -/
theorem run_append (c : BitVec w) (as bs : List Bool) :
    run p c (as ++ bs) = run p (run p c as) bs := List.foldl_append

/-! ## Shifts and words -/

/-- A register whose low bits are clear only moves down. -/
theorem shift_iterate_high {c : BitVec w} {n : ℕ} (h : ∀ i < n, c.getLsbD i = false) :
    (shift p)^[n] c = c >>> n := by
  induction n with
  | zero => simp
  | succ n ih =>
      rw [Function.iterate_succ_apply', ih fun i hi => h i (by omega)]
      have hlow : (c >>> n).getLsbD 0 = false := by simpa using h n (by omega)
      rw [shift, if_neg (by simp [hlow]), BitVec.shiftRight_add]

/-- **Shifts, all at once.**  Those of the low bits, and the rest of the register moved down. -/
theorem shift_iterate (c : BitVec w) (n : ℕ) :
    (shift p)^[n] c = (c >>> n) ^^^ (shift p)^[n] (c &&& BitVec.ofNat w (2 ^ n - 1)) := by
  generalize hlow : c &&& BitVec.ofNat w (2 ^ n - 1) = low
  have hbits : ∀ i, low.getLsbD i = (decide (i < n) && c.getLsbD i) := by
    intro i
    rw [← hlow, BitVec.getLsbD_and, BitVec.getLsbD_ofNat, Nat.testBit_two_pow_sub_one]
    by_cases hw : i < w
    · simp [hw, Bool.and_comm]
    · simp [BitVec.getLsbD_of_ge c i (by omega)]
  have hhigh : (shift p)^[n] (c ^^^ low) = c >>> n := by
    rw [shift_iterate_high fun i hi => by simp [hbits, hi]]
    ext i hi
    have hout : ¬ n + i < n := by omega
    simp [← BitVec.getLsbD_eq_getElem, hbits, hout]
  calc (shift p)^[n] c = (shift p)^[n] ((c ^^^ low) ^^^ low) := by
        rw [BitVec.xor_assoc, BitVec.xor_self, BitVec.xor_zero]
    _ = (c >>> n) ^^^ (shift p)^[n] low := by rw [shift_iterate_xor, hhigh]

/-- The bits of a word. -/
theorem getLsbD_word {bs : List Bool} {i : ℕ} (hi : i < w) :
    (word bs : BitVec w).getLsbD i = bs.getD i false := by
  induction bs generalizing i with
  | nil => simp [word]
  | cons b bs ih =>
      rw [word, BitVec.getLsbD_xor, BitVec.getLsbD_shiftLeft]
      cases i with
      | zero => cases b <;> simp [bit, hi]
      | succ i =>
          have hi' : i < w := by omega
          cases b <;> simp [bit, hi, ih hi']

/-- A word without its lowest bit is moved down by a shift. -/
theorem shift_word {bs : List Bool} (h : bs.length < w) :
    shift p (word bs <<< 1) = (word bs : BitVec w) := by
  have hlow : ((word bs : BitVec w) <<< 1).getLsbD 0 = false := by simp
  rw [shift, if_neg (by simp [hlow])]
  ext i hi
  rw [← BitVec.getLsbD_eq_getElem, ← BitVec.getLsbD_eq_getElem, BitVec.getLsbD_ushiftRight,
    BitVec.getLsbD_shiftLeft]
  by_cases hlast : 1 + i < w
  · simp [hlast]
  · -- the highest bit is none of the word's
    have hnone : bs.getD i false = false := by
      rw [List.getD_eq_getElem?_getD, List.getElem?_eq_none (by omega)]
      rfl
    rw [getLsbD_word hi, hnone]
    simp [hlast]

/-- **Feeding a word** is adding it to the register and shifting. -/
theorem run_eq {bs : List Bool} (h : bs.length ≤ w) (c : BitVec w) :
    run p c bs = (shift p)^[bs.length] (c ^^^ word bs) := by
  induction bs generalizing c with
  | nil => simp [run, word]
  | cons b bs ih =>
      rw [List.length_cons] at h
      have hrest : run p c (b :: bs) = (shift p)^[bs.length] (feed p c b ^^^ word bs) :=
        ih (by omega) (feed p c b)
      rw [hrest, List.length_cons, Function.iterate_succ_apply, word, ← BitVec.xor_assoc, shift_xor,
        shift_word (by omega)]
      rfl

/-! ## Errors -/

variable (hp : p.msb = true)

include hp

/-- Only the zero register is shifted to zero. -/
theorem shift_eq_zero {c : BitVec w} (h : shift p c = 0#w) : c = 0#w := by
  have hw : 0 < w := by
    by_contra hw
    obtain rfl : w = 0 := by omega
    simp [BitVec.msb] at hp
  unfold shift at h
  cases hlow : c.getLsbD 0 with
  | true =>
      -- the highest bit of the polynomial stays
      rw [hlow, if_pos rfl] at h
      have htop := congrArg BitVec.msb h
      rw [BitVec.msb_xor, hp] at htop
      simp [BitVec.msb_ushiftRight] at htop
  | false =>
      rw [hlow] at h
      simp only [Bool.false_eq_true, if_false] at h
      apply BitVec.eq_of_getLsbD_eq
      intro i hi
      cases i with
      | zero => simpa using hlow
      | succ i =>
          have hbit := congrArg (fun x : BitVec w => x.getLsbD i) h
          simpa [BitVec.getLsbD_ushiftRight, Nat.add_comm] using hbit

theorem shift_iterate_eq_zero {c : BitVec w} (n : ℕ) (h : (shift p)^[n] c = 0#w) : c = 0#w := by
  induction n generalizing c with
  | zero => exact h
  | succ n ih => exact shift_eq_zero hp (ih h)

/-- No state of the register is lost by shifting. -/
theorem shift_iterate_injective (n : ℕ) : Function.Injective (shift p)^[n] := by
  intro a b h
  have hzero : (shift p)^[n] (a ^^^ b) = 0#w := by rw [shift_iterate_xor, h, BitVec.xor_self]
  exact BitVec.xor_eq_zero_iff.1 (shift_iterate_eq_zero hp n hzero)

omit hp in
/-- Zeros do not change a zero register. -/
theorem run_zero {bs : List Bool} (h : ∀ b ∈ bs, b = false) : run p 0#w bs = 0#w := by
  induction bs with
  | nil => rfl
  | cons b bs ih =>
      obtain ⟨rfl, hbs⟩ := List.forall_mem_cons.1 h
      have hfeed : feed p 0#w false = 0#w := by simp [feed, bit]
      show run p (feed p 0#w false) bs = 0#w
      rw [hfeed]
      exact ih hbs

/-- Zeros behind an error do not hide it. -/
theorem run_zeros_eq_zero {c : BitVec w} {bs : List Bool} (h : ∀ b ∈ bs, b = false)
    (hc : run p c bs = 0#w) : c = 0#w := by
  induction bs generalizing c with
  | nil => exact hc
  | cons b bs ih =>
      obtain ⟨rfl, hbs⟩ := List.forall_mem_cons.1 h
      have hfeed : feed p c false = 0#w := ih hbs hc
      unfold feed at hfeed
      have hshift := shift_eq_zero hp hfeed
      simpa [bit] using hshift

/-- **A burst is seen.**  An error whose bits lie within `w` consecutive ones leaves a zero
register in another state. -/
theorem run_burst {bs : List Bool} (hne : true ∈ bs) {k : ℕ}
    (hburst : ∀ i, bs[i]? = some true → k ≤ i ∧ i < k + w) : run p 0#w bs ≠ 0#w := by
  intro hzero
  have hparts : bs = bs.take k ++ ((bs.drop k).take w ++ bs.drop (k + w)) := by
    rw [← List.drop_drop, List.take_append_drop, List.take_append_drop]
  have hclear : ∀ {i : ℕ} {b : Bool}, bs[i]? = some b → ¬ (k ≤ i ∧ i < k + w) → b = false := by
    intro i b hb hi
    cases b with
    | false => rfl
    | true => exact absurd (hburst i hb) hi
  have hbefore : ∀ b ∈ bs.take k, b = false := by
    intro b hb
    obtain ⟨i, hi, rfl⟩ := List.getElem_of_mem hb
    rw [List.length_take] at hi
    refine hclear (i := i) ?_ (by omega)
    rw [List.getElem_take, List.getElem?_eq_getElem (by omega)]
  have hafter : ∀ b ∈ bs.drop (k + w), b = false := by
    intro b hb
    obtain ⟨i, hi, rfl⟩ := List.getElem_of_mem hb
    rw [List.length_drop] at hi
    refine hclear (i := k + w + i) ?_ (by omega)
    rw [List.getElem_drop, List.getElem?_eq_getElem (by omega)]
  have hlen : ((bs.drop k).take w).length ≤ w := by
    rw [List.length_take]
    omega
  rw [hparts, run_append, run_zero hbefore, run_append] at hzero
  have hmid := run_zeros_eq_zero hp hafter hzero
  rw [run_eq hlen] at hmid
  have hword := shift_iterate_eq_zero hp _ hmid
  rw [BitVec.zero_xor] at hword
  have hinside : ∀ b ∈ (bs.drop k).take w, b = false := by
    intro b hb
    obtain ⟨i, hi, rfl⟩ := List.getElem_of_mem hb
    have hbit := congrArg (fun x : BitVec w => x.getLsbD i) hword
    rw [getLsbD_word (by omega), List.getD_eq_getElem?_getD, List.getElem?_eq_getElem hi] at hbit
    simpa using hbit
  rw [hparts] at hne
  rcases List.mem_append.1 hne with h | h
  · exact absurd (hbefore _ h) (by simp)
  · rcases List.mem_append.1 h with h | h
    · exact absurd (hinside _ h) (by simp)
    · exact absurd (hafter _ h) (by simp)

end Crc
