import OpenAisg.Hdlc.Stream
import OpenAisg.Lib.Bisect
import OpenAisg.Link.Bench
import OpenAisg.Link.Commands

/-!
# The device scan finds everyone

`scan` asks all unaddressed devices at once, and when several answer it asks for one bit
of their unique ids more.  Two answers at a time destroy each other, so all that a probe
tells is whether nobody, one device or several devices agree with it.

* `bitAt` — the bits of an octet string, from the first one on.  An id that is too short
  has zeros behind it, as `ljust` gives it in the code.
* `Secondary`, `agrees` — a device, and whether it answers a probe.
* `OnBus` — what the bus does with the answers: nothing assumed but that one reply
  arrives whole and several are garbled.
* `Masks` — a mask of just the first `d` bits; `Masks.next` — the three expressions that
  make the next one.  `Fills` and `Fills.next` are the same for the id of the probe.
* `wp_probe` — the recursion of `scan` is the bisection of `Bisect.search`, whose theory
  knows nothing of frames.
* `scanBus_complete` — so the scan finds every device, or raises.

The last section puts three devices on a bus that garbles two answers at once, for a run
in which the scan has to go sixteen bits deep.
-/

namespace OpenAisg.Link

open Hdlc Prog Bisect

/-! ## The bits of an octet string -/

/-- Bit `i`, from the most significant bit of the first octet; missing octets are 0. -/
def bitAt (data : Bytes) (i : ℕ) : Bool := (data.getD (i / 8) 0).getMsbD (i % 8)

/-- Padding with zeros changes no octet of an id, when a missing octet counts as zero. -/
theorem getD_ljust (data : Bytes) (n k : ℕ) : (ljust data n).getD k 0 = data.getD k 0 := by
  rw [ljust, List.getD_eq_getElem?_getD, List.getD_eq_getElem?_getD, List.getElem?_append]
  split_ifs with hk
  · rfl
  · rw [List.getElem?_eq_none (Nat.le_of_not_lt hk), List.getElem?_replicate]
    split_ifs <;> rfl

/-- So it changes no bit. -/
theorem bitAt_ljust (data : Bytes) (n i : ℕ) : bitAt (ljust data n) i = bitAt data i := by
  rw [bitAt, getD_ljust, bitAt]

/-- An id that fits is padded to just that length. -/
theorem length_ljust_of_le {data : Bytes} {n : ℕ} (h : data.length ≤ n) :
    (ljust data n).length = n := by
  rw [length_ljust]
  exact Nat.max_eq_right h

theorem getMsbD_zero : ∀ j < 8, (0 : Byte).getMsbD j = false := by decide

/-- The octet with one bit set. -/
theorem getMsbD_one_shiftLeft : ∀ k < 8, ∀ j < 8,
    ((1 : Byte) <<< (7 - k)).getMsbD j = decide (j = k) := by decide

/-- `data[-1] |= 1 << bit` sets the bit `d`, when that is in the last octet. -/
theorem bitAt_orLast {data : Bytes} {d : ℕ} (h : data.length = d / 8 + 1) (i : ℕ) :
    bitAt (orLast data (1 <<< (7 - d % 8))) i = (bitAt data i || decide (i = d)) := by
  rcases List.eq_nil_or_concat data with rfl | ⟨init, x, rfl⟩
  · simp at h
  rw [List.concat_eq_append] at h ⊢
  have hlen : init.length = d / 8 := by simpa using h
  rw [orLast_concat, bitAt, bitAt, List.getD_eq_getElem?_getD, List.getD_eq_getElem?_getD,
    List.getElem?_append, List.getElem?_append]
  have hbit := getMsbD_one_shiftLeft (d % 8) (Nat.mod_lt _ (by decide)) (i % 8)
    (Nat.mod_lt _ (by decide))
  split_ifs with hi
  · have hne : i ≠ d := by
      rintro rfl
      omega
    simp [hne]
  · rcases Nat.eq_or_lt_of_le (Nat.le_of_not_lt hi) with hi | hi
    · rw [← hi, Nat.sub_self]
      show (x ||| (1 : Byte) <<< (7 - d % 8)).getMsbD (i % 8) = (x.getMsbD (i % 8) || decide (i = d))
      rw [BitVec.getMsbD_or, hbit]
      exact congrArg _ (decide_eq_decide.2 (by omega))
    · have hne : i ≠ d := by
        rintro rfl
        omega
      have hpos : i / 8 - init.length ≠ 0 := by omega
      obtain ⟨k, hk⟩ := Nat.exists_eq_succ_of_ne_zero hpos
      simp [hk, hne]

/-! ## The devices -/

/-- An unaddressed device: its unique id, and what else it says of itself. -/
structure Secondary where
  uid : Bytes
  deviceType : Byte
  vendor : Option Bytes := none
  deriving DecidableEq, Repr

/-- What `scan` makes of it. -/
def Secondary.device (a : Secondary) : Device := ⟨a.uid, some a.deviceType, a.vendor, none⟩

/-- Bit `i` of its unique id. -/
def Secondary.bit (a : Secondary) (i : ℕ) : Bool := bitAt a.uid i

/-- An id agrees with a probe on every bit of its mask, octet by octet. -/
def agrees (uid mask id : Bytes) : Bool :=
  (List.range mask.length).all fun k => (id.getD k 0 ^^^ uid.getD k 0) &&& mask.getD k 0 = 0

/-- The devices that answer a probe. -/
def answering (secs : List Secondary) (uid mask : Bytes) : List Secondary :=
  secs.filter fun a => agrees uid mask a.uid

/-- Octet by octet is bit by bit. -/
theorem agrees_iff (uid mask id : Bytes) :
    agrees uid mask id = true ↔
      ∀ i < 8 * mask.length, bitAt mask i = true → bitAt id i = bitAt uid i := by
  rw [agrees, List.all_eq_true]
  refine ⟨fun h i hi hm => ?_, fun h k hk => ?_⟩
  · have hk := h (i / 8) (List.mem_range.2 (by omega))
    have hbit := congrArg (fun x : Byte => x.getMsbD (i % 8)) (of_decide_eq_true hk)
    rw [bitAt] at hm
    simp only [BitVec.getMsbD_and, BitVec.getMsbD_xor, hm, Bool.and_true,
      getMsbD_zero _ (Nat.mod_lt i (by decide : 0 < 8))] at hbit
    simpa [bitAt] using hbit
  · have hk := List.mem_range.1 hk
    refine decide_eq_true (BitVec.eq_of_getMsbD_eq fun j hj => ?_)
    have hbit := h (8 * k + j) (by omega)
    have hdiv : (8 * k + j) / 8 = k := by omega
    have hmod : (8 * k + j) % 8 = j := by omega
    rw [bitAt, bitAt, bitAt, hdiv, hmod] at hbit
    rw [BitVec.getMsbD_and, BitVec.getMsbD_xor, getMsbD_zero j hj]
    cases hm : (mask.getD k 0).getMsbD j with
    | false => exact Bool.and_false _
    | true => rw [hbit hm, Bool.xor_self, Bool.false_and]

/-! ## The masks of the scan -/

/-- The mask of the first `d` bits. -/
structure Masks (d : ℕ) (mask : Bytes) : Prop where
  length : mask.length = (d + 7) / 8
  bits : ∀ i, bitAt mask i = decide (i < d)

/-- An id of the same length with nothing behind the first `d` bits. -/
structure Fills (d : ℕ) (uid : Bytes) : Prop where
  length : uid.length = (d + 7) / 8
  bits : ∀ i ≥ d, bitAt uid i = false

theorem masks_zero : Masks 0 [] := ⟨rfl, fun i => by simp [bitAt]⟩

theorem fills_zero : Fills 0 [] := ⟨rfl, fun i _ => by simp [bitAt]⟩

/-- Who agrees with such a mask agrees in its first bits. -/
theorem Masks.agrees_iff {d : ℕ} {mask : Bytes} (h : Masks d mask) (uid id : Bytes) :
    agrees uid mask id = true ↔ ∀ i < d, bitAt id i = bitAt uid i := by
  rw [Link.agrees_iff]
  refine ⟨fun ha i hi => ha i ?_ (by rw [h.bits, decide_eq_true hi]), fun ha i _ hm => ha i ?_⟩
  · have := h.length
    omega
  · rw [h.bits] at hm
    exact of_decide_eq_true hm

/-- The last octet of a mask, when there is one. -/
theorem getLast?_eq_getD {mask : Bytes} (h : mask ≠ []) :
    mask.getLast? = some (mask.getD (mask.length - 1) 0) := by
  have hpos := List.length_pos_iff.2 h
  rw [List.getLast?_eq_some_getLast h, List.getLast_eq_getElem, List.getD_eq_getElem?_getD,
    List.getElem?_eq_getElem (by omega), Option.getD_some]

/-- A new octet begins exactly when the last one is full. -/
theorem Masks.nbytes {d : ℕ} {mask : Bytes} (h : Masks d mask) :
    (if mask = [] ∨ mask.getLast? = some 0xFF then mask.length + 1 else mask.length) =
      d / 8 + 1 := by
  have hlen := h.length
  have hbit : ∀ j < 8, (mask.getD (mask.length - 1) 0).getMsbD j =
      decide (8 * (mask.length - 1) + j < d) := by
    intro j hj
    rw [← h.bits, bitAt, show (8 * (mask.length - 1) + j) / 8 = mask.length - 1 by omega,
      show (8 * (mask.length - 1) + j) % 8 = j by omega]
  by_cases hd : d % 8 = 0
  · rw [if_pos]
    · omega
    by_cases hmask : mask = []
    · exact Or.inl hmask
    refine Or.inr ?_
    have hpos := List.length_pos_iff.2 hmask
    rw [getLast?_eq_getD hmask]
    congr 1
    refine BitVec.eq_of_getMsbD_eq fun j hj => ?_
    have hones : ∀ j < 8, (0xFF : Byte).getMsbD j = true := by decide
    rw [hbit j hj, hones j hj]
    exact decide_eq_true (by omega)
  · rw [if_neg]
    · omega
    rintro (rfl | hlast)
    · simp only [List.length_nil] at hlen
      omega
    have hmask : mask ≠ [] := by
      rintro rfl
      cases hlast
    rw [getLast?_eq_getD hmask] at hlast
    have hfull := hbit (d % 8) (Nat.mod_lt _ (by decide))
    have hones : ∀ j < 8, (0xFF : Byte).getMsbD j = true := by decide
    rw [Option.some.inj hlast, hones _ (Nat.mod_lt _ (by decide))] at hfull
    have := of_decide_eq_true hfull.symm
    omega

/-- **The next mask** has one bit more. -/
theorem Masks.next {d : ℕ} {mask : Bytes} (h : Masks d mask) :
    Masks (d + 1) (orLast (ljust mask (d / 8 + 1)) (1 <<< (7 - d % 8))) := by
  have hlen : (ljust mask (d / 8 + 1)).length = d / 8 + 1 :=
    length_ljust_of_le (by have := h.length; omega)
  refine ⟨by rw [length_orLast, hlen]; omega, fun i => ?_⟩
  rw [bitAt_orLast hlen, bitAt_ljust, h.bits, ← Bool.decide_or]
  exact decide_eq_decide.2 (by omega)

/-- The two ids below an id: padded as it is for a 0 in the next bit, and with that bit set for a
1. -/
theorem Fills.next {d : ℕ} {uid : Bytes} (h : Fills d uid) :
    Fills (d + 1) (ljust uid (d / 8 + 1)) ∧
      Fills (d + 1) (orLast (ljust uid (d / 8 + 1)) (1 <<< (7 - d % 8))) := by
  have hlen : (ljust uid (d / 8 + 1)).length = d / 8 + 1 :=
    length_ljust_of_le (by have := h.length; omega)
  refine ⟨⟨by rw [hlen]; omega, fun i hi => ?_⟩, ⟨by rw [length_orLast, hlen]; omega,
    fun i hi => ?_⟩⟩
  · rw [bitAt_ljust]
    exact h.bits i (by omega)
  · rw [bitAt_orLast hlen, bitAt_ljust, h.bits i (by omega), decide_eq_false (by omega)]
    rfl

/-! ## The bus -/

/-- The octets are one whole frame, an XID with the id of the device and one octet of
device type. -/
def Introduces (raw : Bytes) (a : Secondary) : Prop :=
  ∃ f p, parseFrames raw = .ok [f] ∧ f.ctrl &&& ~~~pf = ctrlXid ∧ xidDecode f.payload = .ok p ∧
    p.lookup piUniqueId = some a.uid ∧ p.lookup piDeviceType = some [a.deviceType] ∧
    p.lookup piVendorCode = a.vendor

/-- What comes back when these devices answer at once. -/
def Replies : List Secondary → Bytes → Prop
  | [], raw => raw = []
  | [a], raw => Introduces raw a
  | _, raw => garbled raw = true

/-- The probe frame of an id and a mask. -/
def IsProbe (uid mask : Bytes) (f : Frame) : Prop :=
  ∃ payload, xidEncode [(piUniqueId, uid), (piBitmask, mask)] = .ok payload ∧
    f = ⟨addrBroadcast, ctrlXid ||| pf, payload⟩

/-- In every world of `B` these devices are on the bus, and a probe does not change that.  This is
all the scan relies on: the port takes the probe and brings back what the bus makes of the answers.
-/
def OnBus {W : Type} [Line W] (secs : List Secondary) (B : W → Prop) : Prop :=
  ∀ w, B w → ∀ uid mask f, IsProbe uid mask f → ∀ budget,
    wp (Line.xfer f budget : Prog W String Bytes)
      (fun raw w' => B w' ∧ Replies (answering secs uid mask) raw) (fun _ _ => False)
      (fun _ => False) w

/-- An id and a mask of at most 125 octets fit the length octet. -/
theorem isProbe_exists {uid mask : Bytes} (hu : uid.length ≤ 125) (hm : mask.length ≤ 125) :
    ∃ payload, xidEncode [(piUniqueId, uid), (piBitmask, mask)] = .ok payload := by
  refine ⟨_, xidEncode_ok ?_ ?_⟩
  · simp only [List.mem_cons, List.not_mem_nil, or_false]
    rintro p (rfl | rfl)
    · exact Nat.lt_of_le_of_lt hu (by decide)
    · exact Nat.lt_of_le_of_lt hm (by decide)
  · simp only [xidBody, List.flatMap_cons, List.flatMap_nil, List.length_append, List.length_cons,
      List.length_nil]
    omega

/-- One reply is one device. -/
theorem scanDevices_introduces {raw : Bytes} {a : Secondary} (h : Introduces raw a) :
    ∃ fs, parseFrames raw = .ok fs ∧ scanDevices fs = .ok [a.device] := by
  obtain ⟨f, p, hraw, hctrl, hp, huid, htype, hvendor⟩ := h
  refine ⟨[f], hraw, ?_⟩
  rw [scanDevices, if_neg (not_not.2 hctrl), hp]
  simp only [bind, Except.bind, htype]
  rw [huid, hvendor]
  rfl

section Probe

variable {W υ : Type} [Line W] {secs : List Secondary} {B : W → Prop}

/-- One probe: who answers, or a `FrameError` if several do.  Nobody and one device are told apart
by the list that comes back. -/
theorem wp_scanOnce (hbus : OnBus secs B) {uid mask : Bytes} (hu : uid.length ≤ 125)
    (hm : mask.length ≤ 125) {s : LinkSt W υ} (hs : B s.world) :
    wp (scanOnce uid mask)
      (fun devs t => B t.world ∧ (answering secs uid mask).length ≤ 1 ∧
        devs = (answering secs uid mask).map Secondary.device)
      (fun e t => B t.world ∧ 1 < (answering secs uid mask).length ∧ ∃ msg, e = .frameError msg)
      (fun _ => False) s := by
  obtain ⟨payload, hpayload⟩ := isProbe_exists hu hm
  unfold scanOnce command xfer
  rw [wp_bind, wp_ofExcept, hpayload]
  dsimp only
  rw [wp_bind, wp_bind, wp_bind, wp_read, wp_bind, wp_portOp]
  refine (hbus s.world hs uid mask _ ⟨payload, hpayload, rfl⟩ _).mono (fun raw w hw => ?_)
    (fun _ _ h => h.elim) fun _ h => h.elim
  obtain ⟨hB, hraw⟩ := hw
  rw [wp_bind, wp_logEvent, wp_pure, wp_ofExcept]
  rcases hans : answering secs uid mask with _ | ⟨a, _ | ⟨b, rest⟩⟩
  · rw [hans] at hraw
    have hnil : raw = [] := hraw
    rw [hnil]
    exact ⟨hB, Nat.zero_le _, rfl⟩
  · rw [hans] at hraw
    obtain ⟨fs, hfs, hdevs⟩ := scanDevices_introduces hraw
    rw [hfs]
    dsimp only
    rw [wp_ofExcept, hdevs]
    exact ⟨hB, Nat.le_refl _, rfl⟩
  · rw [hans] at hraw
    obtain ⟨e, he⟩ := (parseFrames_error_iff raw).2 hraw
    rw [he]
    exact ⟨hB, by simp, parseFrames_error he⟩

/-- The entry of a device in `results`. -/
def Secondary.entry (a : Secondary) : Bytes × Device := (a.uid, a.device)

/-- None of these devices is in `results` yet. -/
def Unlisted (results : Results) (l : List Secondary) : Prop :=
  ∀ a ∈ l, a.uid ∉ results.map Prod.fst

/-- The devices a probe found go to the end of `results`, since none of them was there before. -/
theorem foldl_fresh {results : Results} {l : List Secondary} (hlen : l.length ≤ 1)
    (h : Unlisted results l) :
    (l.map Secondary.device).foldl (fun r d => dictSet d.uniqueId d r) results =
      results ++ l.map Secondary.entry := by
  rcases l with _ | ⟨a, _ | ⟨b, l⟩⟩
  · exact (List.append_nil _).symm
  · exact dictSet_fresh (h a (List.mem_singleton_self a))
  · simp at hlen

/-- The halves of those that answer a probe answer the two probes below it. -/
theorem half_answering {d : ℕ} {uid mask : Bytes} (hmask : Masks d mask) (hfill : Fills d uid) :
    half Secondary.bit d false (answering secs uid mask) =
        answering secs (ljust uid (d / 8 + 1)) (orLast (ljust mask (d / 8 + 1)) (1 <<< (7 - d % 8))) ∧
      half Secondary.bit d true (answering secs uid mask) =
        answering secs (orLast (ljust uid (d / 8 + 1)) (1 <<< (7 - d % 8)))
          (orLast (ljust mask (d / 8 + 1)) (1 <<< (7 - d % 8))) := by
  have hlen : (ljust uid (d / 8 + 1)).length = d / 8 + 1 :=
    length_ljust_of_le (by have := hfill.length; omega)
  have hbelow : ∀ (v : Bool) (uid' : Bytes), (∀ i < d, bitAt uid' i = bitAt uid i) →
      bitAt uid' d = v → half Secondary.bit d v (answering secs uid mask) =
        answering secs uid' (orLast (ljust mask (d / 8 + 1)) (1 <<< (7 - d % 8))) := by
    intro v uid' hi hd
    rw [half, answering, List.filter_filter, answering]
    refine List.filter_congr fun a _ => ?_
    rw [Bool.eq_iff_iff, Bool.and_eq_true, decide_eq_true_iff, hmask.agrees_iff,
      hmask.next.agrees_iff, Secondary.bit]
    refine ⟨fun ⟨ha, hall⟩ i hlt => ?_, fun hall => ⟨?_, fun i hlt => ?_⟩⟩
    · rcases Nat.lt_succ_iff_lt_or_eq.1 hlt with hlt | rfl
      · rw [hall i hlt, hi i hlt]
      · rw [ha, hd]
    · rw [hall d (Nat.lt_succ_self d), hd]
    · rw [hall i (Nat.lt_succ_of_lt hlt), hi i hlt]
  refine ⟨hbelow false _ (fun i _ => bitAt_ljust uid _ i) ?_, hbelow true _ (fun i hlt => ?_) ?_⟩
  · rw [bitAt_ljust, hfill.bits d (Nat.le_refl d)]
  · rw [bitAt_orLast hlen, bitAt_ljust, decide_eq_false (Nat.ne_of_lt hlt), Bool.or_false]
  · rw [bitAt_orLast hlen, decide_eq_true rfl, Bool.or_true]

/-- **The recursion of `scan` is the bisection**, level by level.  The induction is on the levels
that are left; the mask of the probe is the mask of the bits that are settled, and the devices that
answer it are those the bisection still has in hand. -/
theorem wp_probe (hbus : OnBus secs B) {maxDepth : ℕ} (hmax : maxDepth ≤ 1000) (left : ℕ) :
    ∀ {d : ℕ} {uid mask : Bytes} {results : Results} {s : LinkSt W υ}, d + left = maxDepth →
      Masks d mask → Fills d uid → Unlisted results (answering secs uid mask) → B s.world →
      wp (probe maxDepth left uid mask results)
        (fun r t => B t.world ∧ ∃ found,
          search Secondary.bit left d (answering secs uid mask) = some found ∧
            r = results ++ found.map Secondary.entry)
        (fun e _ => search Secondary.bit left d (answering secs uid mask) = none ∧
          ∃ msg, e = .aisgError msg)
        (fun _ => False) s := by
  induction left with
  | zero =>
      intro d uid mask results s hd hmask hfill hfresh hs
      have hlen := hmask.length
      unfold probe
      rw [wp_handle, wp_bind]
      refine (wp_scanOnce hbus (by rw [hfill.length]; omega) (by omega) hs).mono
        (fun devs t ht => ?_) (fun e t ht => ?_) fun _ h => h
      · obtain ⟨hB, hone, rfl⟩ := ht
        exact ⟨hB, _, by rw [search, if_pos hone], foldl_fresh hone hfresh⟩
      · obtain ⟨-, hmany, msg, rfl⟩ := ht
        exact ⟨by rw [search, if_neg (by omega)], _, rfl⟩
  | succ left ih =>
      intro d uid mask results s hd hmask hfill hfresh hs
      have hlen := hmask.length
      obtain ⟨h₀, h₁⟩ := half_answering hmask hfill
      unfold probe
      rw [wp_handle, wp_bind]
      refine (wp_scanOnce hbus (by rw [hfill.length]; omega) (by omega) hs).mono
        (fun devs t ht => ?_) (fun e t ht => ?_) fun _ h => h
      · obtain ⟨hB, hone, rfl⟩ := ht
        exact ⟨hB, _, by rw [search, if_pos hone], foldl_fresh hone hfresh⟩
      · obtain ⟨hB, hmany, msg, rfl⟩ := ht
        have hdepth : maxDepth - (left + 1) = d := by omega
        dsimp only
        rw [hdepth, hmask.nbytes, search, if_neg (by omega), h₀, h₁, wp_bind]
        refine (ih (by omega) hmask.next hfill.next.1 (fun a ha => hfresh a ?_) hB).mono
          (fun r₀ u hu => ?_) (fun e u hu => ?_) fun _ h => h
        · rw [← h₀] at ha
          exact mem_of_mem_half ha
        · obtain ⟨hBu, found₀, hfound₀, rfl⟩ := hu
          -- the second half is told apart from all that was found before
          have hfresh₁ : Unlisted (results ++ found₀.map Secondary.entry)
              (answering secs (orLast (ljust uid (d / 8 + 1)) (1 <<< (7 - d % 8)))
                (orLast (ljust mask (d / 8 + 1)) (1 <<< (7 - d % 8)))) := by
            intro a ha hmem
            rw [List.map_append, List.mem_append, List.map_map] at hmem
            rw [← h₁] at ha
            rcases hmem with hmem | hmem
            · exact hfresh a (mem_of_mem_half ha) hmem
            · obtain ⟨b, hb, hba⟩ := List.mem_map.1 hmem
              have hb := mem_of_search left hfound₀ b hb
              rw [← h₀] at hb
              have hbit : a.bit d = b.bit d := congrArg (bitAt · d) hba.symm
              rw [bit_of_mem_half ha, bit_of_mem_half hb] at hbit
              cases hbit
          refine (ih (by omega) hmask.next hfill.next.2 hfresh₁ hBu).mono (fun r₁ v hv => ?_)
            (fun e v hv => ?_) fun _ h => h
          · obtain ⟨hBv, found₁, hfound₁, rfl⟩ := hv
            refine ⟨hBv, found₀ ++ found₁, ?_, ?_⟩
            · rw [hfound₀, hfound₁]
              rfl
            · rw [List.map_append, List.append_assoc]
          · rw [hfound₀, hv.1]
            exact ⟨rfl, hv.2⟩
        · rw [hu.1]
          exact ⟨rfl, hu.2⟩

/-- `scan` from the first probe on: it returns what the bisection finds. -/
theorem wp_scanBus (hbus : OnBus secs B) {maxDepth : ℕ} (hmax : maxDepth ≤ 1000)
    {s : LinkSt W υ} (hs : B s.world) :
    wp (scanBus maxDepth)
      (fun ds t => B t.world ∧ ∃ found, search Secondary.bit maxDepth 0 secs = some found ∧
        ds = found.map Secondary.device)
      (fun e _ => search Secondary.bit maxDepth 0 secs = none ∧ ∃ msg, e = .aisgError msg)
      (fun _ => False) s := by
  have hall : answering secs [] [] = secs := List.filter_eq_self.2 fun _ _ => rfl
  unfold scanBus
  rw [wp_bind]
  refine (wp_probe hbus hmax maxDepth (Nat.zero_add _) masks_zero fills_zero
    (fun _ _ => List.not_mem_nil) hs).mono (fun r t ht => ?_) (fun e t ht => ?_) fun _ h => h
  · obtain ⟨hB, found, hfound, rfl⟩ := ht
    rw [hall] at hfound
    refine ⟨hB, found, hfound, ?_⟩
    rw [List.nil_append, List.map_map]
    rfl
  · rw [hall] at ht
    exact ht

/-- **The scan finds everyone.**  If the ids differ in their first `max_depth` bits, it
returns one device for each secondary and nothing else; if not, it raises `AisgError`. -/
theorem scanBus_complete (hbus : OnBus secs B) {maxDepth : ℕ} (hmax : maxDepth ≤ 1000)
    {s : LinkSt W υ} (hs : B s.world) :
    (Separated Secondary.bit maxDepth secs →
      ∃ ds t, scanBus maxDepth s = (.ret ds, t) ∧ ds.Perm (secs.map Secondary.device)) ∧
    (¬ Separated Secondary.bit maxDepth secs →
      ∃ msg t, scanBus maxDepth s = (.raise (.aisgError msg), t)) := by
  obtain ⟨hret, hraise, hstall⟩ := wp_iff.1 (wp_scanBus hbus hmax hs)
  have hagree : Agree Secondary.bit 0 secs := fun _ _ _ _ i hi => absurd hi (Nat.not_lt_zero i)
  refine ⟨fun hsep => ?_, fun hsep => ?_⟩
  · obtain ⟨found, hfound, hperm⟩ := search_of_separated maxDepth hagree
      (by rwa [Nat.zero_add])
    rcases hr : scanBus maxDepth s with ⟨o, t⟩
    cases o with
    | ret ds =>
        obtain ⟨-, found', hfound', rfl⟩ := hret ds t hr
        rw [hfound] at hfound'
        cases hfound'
        exact ⟨_, t, rfl, hperm.map _⟩
    | raise e =>
        have hnone := (hraise e t hr).1
        rw [hfound] at hnone
        cases hnone
    | stall => exact (hstall t hr).elim
  · have hnone := search_of_not_separated maxDepth (d := 0) (by rwa [Nat.zero_add] : ¬ Separated
      Secondary.bit (0 + maxDepth) secs)
    rcases hr : scanBus maxDepth s with ⟨o, t⟩
    cases o with
    | ret ds =>
        obtain ⟨-, found, hfound, -⟩ := hret ds t hr
        rw [hnone] at hfound
        cases hfound
    | raise e =>
        obtain ⟨-, msg, rfl⟩ := hraise e t hr
        exact ⟨msg, t, rfl⟩
    | stall => exact (hstall t hr).elim

end Probe

/-! ## Three devices on the bench -/

/-- The reply of one device. -/
def introduction (a : Secondary) : Bytes :=
  match xidEncode [(piUniqueId, a.uid), (piDeviceType, [a.deviceType])] with
  | .ok payload => buildFrame ⟨0, ctrlXid ||| pf, payload⟩
  | .error _ => []

/-- It says who it is, if the id leaves room for the rest in the length octet. -/
theorem introduces_introduction {a : Secondary} (hu : a.uid.length ≤ 250) (hv : a.vendor = none) :
    Introduces (introduction a) a := by
  have hpayload : ∃ payload,
      xidEncode [(piUniqueId, a.uid), (piDeviceType, [a.deviceType])] = .ok payload := by
    refine ⟨_, xidEncode_ok ?_ ?_⟩
    · simp only [List.mem_cons, List.not_mem_nil, or_false]
      rintro p (rfl | rfl)
      · exact Nat.lt_of_le_of_lt hu (by decide)
      · exact Nat.lt_of_lt_of_le Nat.one_lt_two (by decide)
    · simp only [xidBody, List.flatMap_cons, List.flatMap_nil, List.length_append,
        List.length_cons, List.length_nil]
      omega
  obtain ⟨payload, hpayload⟩ := hpayload
  have hp := xidDecode_encode hpayload (show [piUniqueId, piDeviceType].Nodup by decide)
  refine ⟨⟨0, ctrlXid ||| pf, payload⟩, _, ?_,
    (by decide : (ctrlXid ||| pf) &&& ~~~pf = ctrlXid), hp, rfl, rfl, ?_⟩
  · rw [introduction, hpayload]
    exact parseFrames_buildFrame _
  · rw [hv]
    rfl

/-- What comes back for a probe; two replies at once have a bad checksum. -/
def busReply (secs : List Secondary) (f : Frame) : Bytes :=
  match xidDecode f.payload with
  | .ok p =>
      match answering secs ((p.lookup piUniqueId).getD []) ((p.lookup piBitmask).getD []) with
      | [] => []
      | [a] => introduction a
      | _ => [0x7E, 0, 0, 0, 0, 0x7E]
  | .error _ => []

/-- What comes back for a probe is what the bus does with the answers. -/
theorem replies_busReply {secs : List Secondary}
    (hplain : ∀ a ∈ secs, a.uid.length ≤ 250 ∧ a.vendor = none) {uid mask : Bytes} {f : Frame}
    (hf : IsProbe uid mask f) : Replies (answering secs uid mask) (busReply secs f) := by
  obtain ⟨payload, hpayload, rfl⟩ := hf
  have hp := xidDecode_encode hpayload (show [piUniqueId, piBitmask].Nodup by decide)
  have hlook : answering secs (([(piUniqueId, uid), (piBitmask, mask)].lookup piUniqueId).getD [])
      (([(piUniqueId, uid), (piBitmask, mask)].lookup piBitmask).getD []) =
      answering secs uid mask := rfl
  rw [busReply, hp]
  dsimp only
  rw [hlook]
  rcases hans : answering secs uid mask with _ | ⟨a, _ | ⟨b, rest⟩⟩
  · rfl
  · have ha : a ∈ answering secs uid mask := by
      rw [hans]
      exact List.mem_cons_self ..
    obtain ⟨hu, hv⟩ := hplain a (List.mem_filter.1 ha).1
    exact introduces_introduction hu hv
  · show garbled [0x7E, 0, 0, 0, 0, 0x7E] = true
    decide +kernel

/-- Ids that differ in the 16th bit, and one that is shorter. -/
def threeDevices : List Secondary := [⟨[0x41, 0x42], 1, none⟩, ⟨[0x41, 0x43], 1, none⟩, ⟨[0x41], 2, none⟩]

/-- They are on the line. -/
def Attached (b : Bench Empty) : Prop := b.plan.reply = fun _ => busReply threeDevices

/-- A bench with these replies is such a bus. -/
theorem attached_onBus : OnBus threeDevices Attached := by
  intro b hb uid mask f hf budget
  have hraw : (b.transfer f budget).1 = busReply threeDevices f := congrFun (congrFun hb _) _
  show Attached _ ∧ Replies _ (b.transfer f budget).1
  rw [hraw]
  exact ⟨hb, replies_busReply (by decide) hf⟩

/-- A link to their bus. -/
def attachedLink : LinkSt (Bench Empty) Unit where
  world := { plan := { reply := fun _ => busReply threeDevices } }
  link := {}
  log := []
  user := ()

/-- Sixteen bits tell them apart. -/
theorem scanBus_three : ∃ ds t, scanBus 24 attachedLink = (.ret ds, t) ∧
    ds.Perm [⟨[0x41, 0x42], some 1, none, none⟩, ⟨[0x41, 0x43], some 1, none, none⟩,
      ⟨[0x41], some 2, none, none⟩] :=
  (scanBus_complete attached_onBus (by decide) (s := attachedLink) rfl).1
    (by unfold Separated; decide +kernel)

end OpenAisg.Link
