import OpenAisg.Hdlc.Deframer
import OpenAisg.Lib.Crc

/-!
# The frame check sequence

`fcs16` runs over the octets with a table of 256 entries.  Behind the table is a
register that is fed the bits of the octets in transmission order, which is how
the standard defines the checksum and how its strength is understood.  This file
connects the two, and then says what the checksum is good for.

* `bitsOf` — the bits of a string of octets, as they are sent.
* `crcX25` — the CRC-16/X.25 bit by bit, and `fcs16_eq_crcX25`: the table
  computes it, for every string.  The heart is `tableStep_toNat`: one look-up is
  eight steps of the register.
* `fcsMatches_iff` — a body passes the check exactly if it leaves a certain
  register, the same for every body.
* `burst_rejected` — no error within 16 consecutive bits is overlooked, wherever
  in the body it lies and however long the body is.

The register and its algebra are those of the general theory in
`OpenAisg.Lib.Crc`; here they are used at width 16 with the reflected polynomial
`poly`.
-/

namespace OpenAisg.Hdlc

/-- The reflected polynomial. -/
def poly : BitVec 16 := 0x8408

/-- The bits of an octet, the least significant one first. -/
def octetBits (b : Byte) : List Bool := (List.range 8).map b.getLsbD

/-- The bits of a string, octet by octet. -/
def bitsOf (data : Bytes) : List Bool := data.flatMap octetBits

theorem bitsOf_cons (b : Byte) (bs : Bytes) : bitsOf (b :: bs) = octetBits b ++ bitsOf bs :=
  List.flatMap_cons

/-- CRC-16/X.25: the register starts with ones and is complemented at the end. -/
def crcX25 (data : Bytes) : BitVec 16 := ~~~Crc.run poly 0xFFFF (bitsOf data)

/-- The loop of `fcs16`: its `crc` after the octets. -/
def fcsRegister (data : Bytes) : ℕ :=
  data.foldl (fun crc b => (crc >>> 8) ^^^ crcTable.getD ((crc ^^^ b.toNat) &&& 0xFF) 0) 0xFFFF

/-! ## The table and the bits -/

/-- A step of the table's construction is a shift. -/
theorem crcBit_toNat (c : BitVec 16) : crcBit c.toNat = (Crc.shift poly c).toNat := by
  have hlow : c.toNat &&& 1 ≠ 0 ↔ c.getLsbD 0 = true := by
    rw [BitVec.getLsbD, Nat.testBit_zero, Nat.and_one_is_mod, decide_eq_true_iff]
    omega
  unfold crcBit Crc.shift
  by_cases h : c.getLsbD 0 = true
  · rw [if_pos (hlow.2 h), if_pos h, BitVec.toNat_xor, BitVec.toNat_ushiftRight]
    rfl
  · rw [if_neg (fun hc => h (hlow.1 hc)), if_neg h, BitVec.toNat_ushiftRight]

theorem crcBit_iterate (n : ℕ) (c : BitVec 16) :
    crcBit^[n] c.toNat = ((Crc.shift poly)^[n] c).toNat := by
  induction n generalizing c with
  | zero => rfl
  | succ n ih => rw [Function.iterate_succ_apply, Function.iterate_succ_apply, crcBit_toNat, ih]

/-- The entries of the table. -/
theorem crcTable_getD {k : ℕ} (h : k < 256) : crcTable.getD k 0 = crcBit^[8] k := by
  rw [crcTable, List.getD_eq_getElem?_getD, List.getElem?_map, List.getElem?_range h]
  rfl

@[simp] theorem length_octetBits (b : Byte) : (octetBits b).length = 8 := by simp [octetBits]

theorem getD_octetBits (b : Byte) (i : ℕ) : (octetBits b).getD i false = b.getLsbD i := by
  rw [octetBits, List.getD_eq_getElem?_getD, List.getElem?_map]
  by_cases h : i < 8
  · rw [List.getElem?_range h]
    rfl
  · rw [List.getElem?_eq_none (by simpa using h), BitVec.getLsbD_of_ge b i (by omega)]
    rfl

theorem word_octetBits (b : Byte) : (Crc.word (octetBits b) : BitVec 16) = b.setWidth 16 := by
  apply BitVec.eq_of_getLsbD_eq
  intro i hi
  rw [Crc.getLsbD_word hi, getD_octetBits, BitVec.getLsbD_setWidth]
  simp [hi]

/-- **An octet at a time.**  The step with the table feeds the eight bits. -/
theorem tableStep_toNat (c : BitVec 16) (b : Byte) :
    (c.toNat >>> 8) ^^^ crcTable.getD ((c.toNat ^^^ b.toNat) &&& 0xFF) 0 =
      (Crc.run poly c (octetBits b)).toNat := by
  have hindex : (c.toNat ^^^ b.toNat) &&& 0xFF = ((c ^^^ b.setWidth 16) &&& 0xFF#16).toNat := by
    rw [BitVec.toNat_and, BitVec.toNat_xor, BitVec.toNat_setWidth,
      Nat.mod_eq_of_lt (Nat.lt_of_lt_of_le b.isLt (by decide))]
    rfl
  have hsmall : (c.toNat ^^^ b.toNat) &&& 0xFF < 256 :=
    Nat.lt_of_le_of_lt Nat.and_le_right (by decide)
  have hhigh : (c ^^^ b.setWidth 16) >>> 8 = c >>> 8 := by
    apply BitVec.eq_of_getLsbD_eq
    intro i hi
    rw [BitVec.getLsbD_ushiftRight, BitVec.getLsbD_ushiftRight, BitVec.getLsbD_xor,
      BitVec.getLsbD_setWidth, BitVec.getLsbD_of_ge b (8 + i) (by omega)]
    simp
  have hrun : Crc.run poly c (octetBits b) = (c >>> 8) ^^^
      (Crc.shift poly)^[8] ((c ^^^ b.setWidth 16) &&& 0xFF#16) := by
    rw [Crc.run_eq (by simp), length_octetBits, word_octetBits, Crc.shift_iterate, hhigh,
      show BitVec.ofNat 16 (2 ^ 8 - 1) = 0xFF#16 from rfl]
  rw [crcTable_getD hsmall, hindex, crcBit_iterate, hrun, BitVec.toNat_xor,
    BitVec.toNat_ushiftRight]

/-- The register of `fcs16` is the one that is fed bit by bit. -/
theorem fcsRegister_eq (data : Bytes) :
    fcsRegister data = (Crc.run poly 0xFFFF (bitsOf data)).toNat := by
  have h : ∀ (data : Bytes) (c : BitVec 16),
      data.foldl (fun crc b => (crc >>> 8) ^^^ crcTable.getD ((crc ^^^ b.toNat) &&& 0xFF) 0)
        c.toNat = (Crc.run poly c (bitsOf data)).toNat := by
    intro data
    induction data with
    | nil => exact fun _ => rfl
    | cons b bs ih =>
        intro c
        rw [List.foldl_cons, tableStep_toNat, ih, bitsOf_cons, Crc.run_append]
  exact h data 0xFFFF

/-- **The table-driven checksum is CRC-16/X.25**, and its register never leaves 16 bits.  A step by
the table is eight steps by the bit, for every value of the register and every octet, and the rest
is by induction on the octets. -/
theorem fcs16_eq_crcX25 (data : Bytes) :
    fcs16 data = (crcX25 data).toNat ∧ ∀ n, fcsRegister (data.take n) < 2 ^ 16 := by
  constructor
  · show fcsRegister data ^^^ 0xFFFF = _
    rw [fcsRegister_eq, crcX25, ← BitVec.xor_allOnes, BitVec.toNat_xor]
    rfl
  · intro n
    rw [fcsRegister_eq]
    exact BitVec.isLt _

/-! ## The check -/

/-- What a body with the right checksum leaves in the register. -/
def residue : BitVec 16 := (Crc.shift poly)^[16] 0xFFFF

/-- The two octets of the checksum, as a register. -/
theorem word_trailer (body : Bytes) (lo hi : Byte) :
    (Crc.word (octetBits lo ++ octetBits hi) : BitVec 16).toNat = trailer (body ++ [lo, hi]) := by
  have hword : (Crc.word (octetBits lo ++ octetBits hi) : BitVec 16) =
      lo.setWidth 16 ||| (hi.setWidth 16 <<< 8) := by
    apply BitVec.eq_of_getLsbD_eq
    intro i hi'
    rw [Crc.getLsbD_word hi', BitVec.getLsbD_or, BitVec.getLsbD_shiftLeft, BitVec.getLsbD_setWidth,
      BitVec.getLsbD_setWidth, List.getD_eq_getElem?_getD]
    by_cases hlow : i < 8
    · rw [List.getElem?_append_left (by simpa using hlow), ← List.getD_eq_getElem?_getD,
        getD_octetBits]
      simp [hi', hlow]
    · rw [List.getElem?_append_right (by simpa using hlow), ← List.getD_eq_getElem?_getD,
        getD_octetBits, length_octetBits, BitVec.getLsbD_of_ge lo i (by omega)]
      simp [hi', hlow, show i - 8 < 16 by omega]
  have hget : (body ++ [lo, hi]).getD body.length 0 = lo ∧
      (body ++ [lo, hi]).getD (body.length + 1) 0 = hi := by
    simp [List.getD_eq_getElem?_getD]
  have hlo := lo.isLt
  have hhi := hi.isLt
  rw [hword, trailer, BitVec.toNat_or, BitVec.toNat_shiftLeft, BitVec.toNat_setWidth,
    BitVec.toNat_setWidth, List.length_append, List.length_cons, List.length_singleton,
    Nat.add_sub_cancel, show body.length + 2 - 1 = body.length + 1 by omega, hget.1, hget.2,
    Nat.mod_eq_of_lt (Nat.lt_trans hlo (by decide)), Nat.mod_eq_of_lt (Nat.lt_trans hhi (by decide)),
    Nat.mod_eq_of_lt]
  rw [Nat.shiftLeft_eq]
  omega

/-- **The check looks at the register.** -/
theorem fcsMatches_iff {body : Bytes} (h : longEnough body = true) :
    fcsMatches body = true ↔ Crc.run poly 0xFFFF (bitsOf body) = residue := by
  have hlen : 4 ≤ body.length := of_decide_eq_true h
  obtain ⟨m, lo, hi, rfl⟩ : ∃ m lo hi, body = m ++ [lo, hi] := by
    have htwo : (body.drop (body.length - 2)).length = 2 := by
      rw [List.length_drop]
      omega
    obtain ⟨lo, hi, hdrop⟩ := List.length_eq_two.1 htwo
    exact ⟨body.take (body.length - 2), lo, hi, by rw [← hdrop, List.take_append_drop]⟩
  have hbits : bitsOf (m ++ [lo, hi]) = bitsOf m ++ (octetBits lo ++ octetBits hi) := by
    simp [bitsOf]
  have htake : (m ++ [lo, hi]).take ((m ++ [lo, hi]).length - 2) = m := by simp
  have hrun : Crc.run poly 0xFFFF (bitsOf (m ++ [lo, hi])) = (Crc.shift poly)^[16]
      (Crc.run poly 0xFFFF (bitsOf m) ^^^ Crc.word (octetBits lo ++ octetBits hi)) := by
    rw [hbits, Crc.run_append, Crc.run_eq (by simp)]
    simp
  rw [fcsMatches, decide_eq_true_iff, htake, (fcs16_eq_crcX25 m).1, ← word_trailer m lo hi, hrun,
    residue, (Crc.shift_iterate_injective (by decide) 16).eq_iff, BitVec.toNat_inj, crcX25]
  -- a register is the complement of the word that makes it all ones
  constructor
  · intro hw
    rw [← hw, ← BitVec.xor_allOnes, ← BitVec.xor_assoc, BitVec.xor_self, BitVec.zero_xor]
    rfl
  · intro hw
    have hword := congrArg (Crc.run poly 0xFFFF (bitsOf m) ^^^ ·) hw
    rw [← BitVec.xor_assoc, BitVec.xor_self, BitVec.zero_xor] at hword
    rw [hword]
    exact (BitVec.xor_allOnes).symm

/-! ## Errors -/

/-- The body with an error added to it. -/
def corrupt (body e : Bytes) : Bytes := List.zipWith (· ^^^ ·) body e

theorem length_corrupt {body e : Bytes} (h : e.length = body.length) :
    (corrupt body e).length = body.length := by
  simp [corrupt, h]

theorem octetBits_xor (a b : Byte) :
    octetBits (a ^^^ b) = List.zipWith xor (octetBits a) (octetBits b) := by
  simp [octetBits, List.zipWith_map, List.zipWith_self]

theorem bitsOf_corrupt {body e : Bytes} (h : e.length = body.length) :
    bitsOf (corrupt body e) = List.zipWith xor (bitsOf body) (bitsOf e) := by
  unfold corrupt
  induction body generalizing e with
  | nil => rfl
  | cons b bs ih =>
      cases e with
      | nil => cases h
      | cons x xs =>
          rw [List.zipWith_cons_cons, bitsOf_cons, bitsOf_cons, bitsOf_cons, ih (Nat.succ.inj h),
            octetBits_xor, List.zipWith_append (by simp)]

theorem length_bitsOf (data : Bytes) : (bitsOf data).length = 8 * data.length := by
  induction data with
  | nil => rfl
  | cons b bs ih =>
      rw [bitsOf_cons, List.length_append, length_octetBits, ih, List.length_cons]
      omega

/-- An error has a bit that is set. -/
theorem true_mem_bitsOf {e : Bytes} (h : ∃ x ∈ e, x ≠ 0) : true ∈ bitsOf e := by
  obtain ⟨x, hx, hne⟩ := h
  refine List.mem_flatMap.2 ⟨x, hx, ?_⟩
  by_contra hno
  refine hne (BitVec.eq_of_getLsbD_eq fun i hi => ?_)
  have hi : x.getLsbD i ∈ octetBits x := List.mem_map_of_mem (List.mem_range.2 hi)
  cases hb : x.getLsbD i with
  | false => simp
  | true => exact absurd (hb ▸ hi) hno

/-- **No burst is overlooked.**  A body with the right checksum does not pass the check any more
when an error within 16 consecutive bits is added, and neither parser takes it for a frame. -/
theorem burst_rejected {body e : Bytes} (hlong : longEnough body = true)
    (hok : fcsMatches body = true) (hlen : e.length = body.length) (hne : ∃ x ∈ e, x ≠ 0) {k : ℕ}
    (hburst : ∀ i, (bitsOf e)[i]? = some true → k ≤ i ∧ i < k + 16) :
    fcsMatches (corrupt body e) = false ∧
      ∀ chunk, unstuff chunk = corrupt body e → readPiece chunk = .bad (corrupt body e) := by
  have hlong' : longEnough (corrupt body e) = true := by
    unfold longEnough at hlong ⊢
    rwa [length_corrupt hlen]
  have hbits : (bitsOf body).length = (bitsOf e).length := by
    rw [length_bitsOf, length_bitsOf, hlen]
  have hrun : Crc.run poly 0xFFFF (bitsOf (corrupt body e)) =
      residue ^^^ Crc.run poly 0 (bitsOf e) := by
    have hxor := Crc.run_xor (p := poly) hbits 0xFFFF#16 0#16
    rw [BitVec.xor_zero, ← bitsOf_corrupt hlen] at hxor
    exact hxor.trans (congrArg (· ^^^ Crc.run poly 0 (bitsOf e)) ((fcsMatches_iff hlong).1 hok))
  have hseen : Crc.run poly 0 (bitsOf e) ≠ 0 :=
    Crc.run_burst (by decide) (true_mem_bitsOf hne) hburst
  have hbad : fcsMatches (corrupt body e) = false := by
    refine Bool.eq_false_iff.2 fun hmatch => hseen ?_
    have hres := (fcsMatches_iff hlong').1 hmatch
    rw [hrun] at hres
    rw [← BitVec.zero_xor (x := Crc.run poly 0 (bitsOf e)), ← BitVec.xor_self (x := residue),
      BitVec.xor_assoc, hres, BitVec.xor_self]
    rfl
  refine ⟨hbad, fun chunk hchunk => ?_⟩
  rw [readPiece_eq, hchunk, if_pos hlong', hbad]
  rfl

/-- A burst over three octets of a frame. -/
theorem burst_rejected_three :
    fcsMatches (corrupt [0x01, 0x31, 0x95, 0x36] [0x80, 0xFF, 0x01, 0x00]) = false :=
  have hbits : ∀ i : Fin 32, (bitsOf [0x80, 0xFF, 0x01, 0x00])[i]? = some true →
      7 ≤ i.val ∧ i.val < 7 + 16 := by decide +kernel
  (@burst_rejected [0x01, 0x31, 0x95, 0x36] [0x80, 0xFF, 0x01, 0x00] (by decide) (by decide +kernel)
    rfl ⟨0x80, by decide, by decide⟩ 7 fun i hi =>
      hbits ⟨i, (List.getElem?_eq_some_iff.1 hi).1⟩ hi).1

end OpenAisg.Hdlc
