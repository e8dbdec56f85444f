import Mathlib.Logic.Function.Iterate
import OpenAisg.Exceptions

/-!
# HDLC framing (`openaisg/hdlc.py`)

Frame: `0x7E | ADDR | CTRL | [payload] | FCS(2, little-endian) | 0x7E`, with
octet stuffing and the CRC-16/X.25 checksum.  This file has the one-shot half of
the module: everything but the `Deframer`, which keeps a buffer between calls and
has a file of its own.

* `fcs16`, `stuff`, `unstuff`, `buildFrame`, `parseFrames` — the one-shot codec.
  `parseFrames` is `list(parse_frames(raw))`: one bad checksum and every frame of
  the reply is lost to a `FrameError` (`parseFrames_error_iff`).
* `kind`, `nsOf`, `nrOf` — the classification of a control octet, with the
  octets the primary itself builds: `iCtrl` and `rrCtrl`.  The simp lemmas beside
  them say that what the primary builds is classified as what it meant.
* `xidEncode`, `xidDecode` — the XID parameter field; `xidDecode_encode` is its
  round trip, and `xidDecode_last` says what comes of repeated identifiers and of
  octets behind the field.

The dictionary that `xid_decode` fills is an association list in insertion order
(`dictSet`), as a Python dict is: an old key keeps its place and gets the new
value.
-/

namespace OpenAisg.Hdlc

/-- The octet that opens and closes a frame. -/
def flag : Byte := 0x7E
/-- The octet that announces a stuffed one. -/
def esc : Byte := 0x7D
/-- What a stuffed octet is XORed with. -/
def escXor : Byte := 0x20

/-- All stations. -/
def addrBroadcast : Byte := 0xFF

/-! ## U-frame control octets (the P/F bit is `pf`) -/

/-- Set normal response mode: connect. -/
def ctrlSnrm : Byte := 0x83
/-- Exchange identification: scan, and assign an address. -/
def ctrlXid : Byte := 0xAF
/-- Unnumbered acknowledgement. -/
def ctrlUa : Byte := 0x63
/-- Disconnect. -/
def ctrlDisc : Byte := 0x43
/-- Disconnected mode: the secondary has no session. -/
def ctrlDm : Byte := 0x0F
/-- Frame reject: the secondary cannot go on. -/
def ctrlFrmr : Byte := 0x87
/-- The poll/final bit. -/
def pf : Byte := 0x10

/-! ## The checksum -/

/-- One bit of the table's construction: the shift of a reflected CRC. -/
def crcBit (c : ℕ) : ℕ := if c &&& 1 ≠ 0 then (c >>> 1) ^^^ 0x8408 else c >>> 1

/-- `_crc_table`, which the module computes when it is imported. -/
def crcTable : List ℕ := (List.range 256).map (Nat.iterate crcBit 8)

/-- The checksum of `data`, an octet at a time with the table. -/
def fcs16 (data : Bytes) : ℕ :=
  (data.foldl (fun crc b => (crc >>> 8) ^^^ crcTable.getD ((crc ^^^ b.toNat) &&& 0xFF) 0)
    0xFFFF) ^^^ 0xFFFF

/-! ## Stuffing -/

/-- Octet stuffing: neither FLAG nor ESC is left in the data. -/
def stuff : Bytes → Bytes
  | [] => []
  | b :: bs => if b = flag ∨ b = esc then esc :: (b ^^^ escXor) :: stuff bs else b :: stuff bs

/-- The loop of `unstuff`, with its local `esc`. -/
def unstuffFrom : Bool → Bytes → Bytes
  | _, [] => []
  | true, b :: bs => (b ^^^ escXor) :: unstuffFrom false bs
  | false, b :: bs => if b = esc then unstuffFrom true bs else b :: unstuffFrom false bs

/-- Undo the stuffing. -/
def unstuff (data : Bytes) : Bytes := unstuffFrom false data

/-! ## Frames -/

/-- The two octets of the checksum, low octet first. -/
def fcsBytes (body : Bytes) : Bytes :=
  [BitVec.ofNat 8 (fcs16 body &&& 0xFF), BitVec.ofNat 8 (fcs16 body >>> 8)]

/-- A whole frame, ready to be written: stuffed body and checksum between two flags. -/
def buildFrame (f : Frame) : Bytes :=
  [flag] ++ stuff (f.addr :: f.ctrl :: f.payload ++ fcsBytes (f.addr :: f.ctrl :: f.payload)) ++
    [flag]

/-- `body[-2] | (body[-1] << 8)`. -/
def trailer (body : Bytes) : ℕ :=
  (body.getD (body.length - 2) 0).toNat ||| ((body.getD (body.length - 1) 0).toNat <<< 8)

/-- What one piece between flags comes to: nothing, a frame, or a bad checksum. -/
inductive Piece where
  | skip
  | good (f : Frame)
  | bad (body : Bytes)
  deriving DecidableEq, Repr

/-- The body of the loop of `parse_frames`: a piece with less than four octets is skipped, and the
checksum decides about the others. -/
def readPiece (chunk : Bytes) : Piece :=
  match unstuff chunk with
  | addr :: ctrl :: rest =>
      let body := addr :: ctrl :: rest
      if body.length < 4 then .skip
      else if fcs16 (body.take (body.length - 2)) ≠ trailer body then .bad body
      else .good ⟨addr, ctrl, rest.take (rest.length - 2)⟩
  | _ => .skip

/-- The loop of `parse_frames` over the pieces, collected into a list. -/
def parsePieces : List Bytes → Except Exn (List Frame)
  | [] => .ok []
  | chunk :: chunks =>
      match readPiece chunk with
      | .skip => parsePieces chunks
      | .good f => (parsePieces chunks).map (f :: ·)
      | .bad body => .error (.frameError ("bad FCS in frame: " ++ hexSp body))

/-- `list(parse_frames(raw))`. -/
def parseFrames (raw : Bytes) : Except Exn (List Frame) := parsePieces (raw.splitOn flag)

/-- Some piece of the reply has at least four octets and a wrong checksum.  It costs the caller all
frames of the reply, not only that one. -/
def garbled (raw : Bytes) : Bool := (raw.splitOn flag).any fun c => match readPiece c with
  | .bad _ => true
  | _ => false

/-! ## Control-field classification -/

/-- The kinds of frame `kind` tells apart. -/
inductive Kind where
  | iFrame
  | rr
  | rnr
  | rej
  | srej
  | uFrame
  deriving DecidableEq, Repr

/-- Classify a control octet as an I-, S- or U-frame. -/
def kind (ctrl : Byte) : Kind :=
  if ctrl &&& 0x01 = 0 then .iFrame
  else if ctrl &&& 0x03 = 0x01 then
    match ((ctrl >>> 2) &&& 0x03).toNat with
    | 0 => .rr
    | 1 => .rnr
    | 2 => .rej
    | _ => .srej
  else .uFrame

/-- Send sequence number N(S) of an I-frame. -/
def nsOf (ctrl : Byte) : Seq := Fin.ofNat 8 (ctrl.toNat >>> 1)

/-- Receive sequence number N(R) of an I- or S-frame. -/
def nrOf (ctrl : Byte) : Seq := Fin.ofNat 8 (ctrl.toNat >>> 5)

/-- `(vs << 1) | (vr << 5) | PF`: the control octet of an I-frame. -/
def iCtrl (vs vr : Seq) : Byte := BitVec.ofNat 8 ((vs.val <<< 1) ||| (vr.val <<< 5)) ||| pf

/-- `0x01 | (vr << 5) | (PF if poll else 0)`: the control octet of an RR. -/
def rrCtrl (vr : Seq) (poll : Bool) : Byte :=
  BitVec.ofNat 8 (0x01 ||| (vr.val <<< 5)) ||| (if poll then pf else 0)

@[simp] theorem kind_iCtrl : ∀ vs vr : Seq, kind (iCtrl vs vr) = .iFrame := by decide
@[simp] theorem nsOf_iCtrl : ∀ vs vr : Seq, nsOf (iCtrl vs vr) = vs := by decide
@[simp] theorem nrOf_iCtrl : ∀ vs vr : Seq, nrOf (iCtrl vs vr) = vr := by decide
@[simp] theorem kind_rrCtrl : ∀ (vr : Seq) (p : Bool), kind (rrCtrl vr p) = .rr := by decide
@[simp] theorem nrOf_rrCtrl : ∀ (vr : Seq) (p : Bool), nrOf (rrCtrl vr p) = vr := by decide

/-- The P bit of a control octet. -/
def polls (ctrl : Byte) : Bool := ctrl &&& pf ≠ 0

@[simp] theorem polls_iCtrl : ∀ vs vr : Seq, polls (iCtrl vs vr) = true := by decide
@[simp] theorem polls_rrCtrl : ∀ (vr : Seq) (p : Bool), polls (rrCtrl vr p) = p := by decide

/-- The control octet is DM or FRMR, whatever its P/F bit. -/
def isReset (ctrl : Byte) : Bool :=
  kind ctrl = .uFrame && (ctrl &&& ~~~pf = ctrlDm || ctrl &&& ~~~pf = ctrlFrmr)

/-- Only a U-frame resets the link. -/
theorem isReset_of_kind {ctrl : Byte} (h : kind ctrl ≠ .uFrame) : isReset ctrl = false := by
  simp [isReset, h]

/-! ## XID parameters (FI = 0x81, GI = 0xF0) -/

/-- The format identifier. -/
def xidFi : Byte := 0x81
/-- The group identifier. -/
def xidGi : Byte := 0xF0

/-- The unique identifier of a device. -/
def piUniqueId : Byte := 1
/-- The address that is to be assigned. -/
def piHdlcAddr : Byte := 2
/-- The mask of a scan. -/
def piBitmask : Byte := 3
/-- The device type. -/
def piDeviceType : Byte := 4
/-- The vendor code. -/
def piVendorCode : Byte := 6

/-- `bytes([n])` of a number that need not be an octet. -/
def pyByte (n : ℕ) : Except Exn Byte :=
  if n < 256 then .ok (BitVec.ofNat 8 n)
  else .error (.py .valueError "bytes must be in range(0, 256)")

/-- The loop of `xid_encode`. -/
def xidField : List (Byte × Bytes) → Except Exn Bytes
  | [] => .ok []
  | (pi, pv) :: params => do
      let n ← pyByte pv.length
      let rest ← xidField params
      .ok (pi :: n :: pv ++ rest)

/-- `xid_encode`: the parameters behind FI, GI and the length of the group. -/
def xidEncode (params : List (Byte × Bytes)) : Except Exn Bytes := do
  let field ← xidField params
  let n ← pyByte field.length
  .ok (xidFi :: xidGi :: n :: field)

/-- `params[pi] = value` on a dict kept in insertion order. -/
def dictSet {κ ν : Type} [DecidableEq κ] (k : κ) (v : ν) : List (κ × ν) → List (κ × ν)
  | [] => [(k, v)]
  | (k', v') :: d => if k' = k then (k, v) :: d else (k', v') :: dictSet k v d

/-- The loop of `xid_decode` over the parameter field. -/
def xidParams : ℕ → Bytes → List (Byte × Bytes) → List (Byte × Bytes)
  | n + 1, pi :: pl :: rest, params =>
      xidParams n (rest.drop pl.toNat) (dictSet pi (rest.take pl.toNat) params)
  | _, _, params => params

/-- `xid_decode`: the parameters of a payload that starts with FI and GI; a `FrameError` otherwise.
A value that is cut short is kept as it is. -/
def xidDecode (payload : Bytes) : Except Exn (List (Byte × Bytes)) :=
  match payload with
  | fi :: gi :: gl :: rest =>
      if fi ≠ xidFi ∨ gi ≠ xidGi then
        .error (.frameError ("not an AISG XID payload: " ++ hexSp payload))
      else .ok (xidParams rest.length (rest.take gl.toNat) [])
  | _ => .error (.frameError ("not an AISG XID payload: " ++ hexSp payload))

/-! ## The parameter field, and back -/

/-- The octets of a list of parameters. -/
def xidBody (params : List (Byte × Bytes)) : Bytes :=
  params.flatMap fun p => p.1 :: BitVec.ofNat 8 p.2.length :: p.2

theorem pyByte_ok {n : ℕ} (h : n < 256) : pyByte n = .ok (BitVec.ofNat 8 n) := if_pos h

/-- A new key goes to the end. -/
theorem dictSet_fresh {κ ν : Type} [DecidableEq κ] {k : κ} {v : ν} {d : List (κ × ν)}
    (h : k ∉ d.map Prod.fst) : dictSet k v d = d ++ [(k, v)] := by
  induction d with
  | nil => rfl
  | cons e d ih =>
      simp only [List.map_cons, List.mem_cons, not_or] at h
      rw [dictSet, if_neg (Ne.symm h.1), ih h.2]
      rfl

/-- The loop fails only on a value whose length is no octet. -/
theorem xidField_ok_iff {params : List (Byte × Bytes)} {field : Bytes} :
    xidField params = .ok field ↔
      (∀ p ∈ params, p.2.length < 256) ∧ field = xidBody params := by
  induction params generalizing field with
  | nil => simp [xidField, xidBody, eq_comm]
  | cons p params ih =>
      obtain ⟨pi, pv⟩ := p
      rw [xidField, List.forall_mem_cons]
      by_cases hpv : pv.length < 256
      · rw [pyByte_ok hpv]
        cases hrest : xidField params with
        | error e =>
            have hno : ¬ ∀ p ∈ params, p.2.length < 256 := fun h => by
              have := ih.2 ⟨h, rfl⟩
              rw [hrest] at this
              cases this
            refine iff_of_false (fun h => by cases h) fun h => hno h.1.2
        | ok rest =>
            obtain ⟨hall, rfl⟩ := ih.1 hrest
            refine ⟨fun h => ⟨⟨hpv, hall⟩, ?_⟩, fun h => ?_⟩
            · cases h
              simp [xidBody]
            · rw [h.2]
              simp [xidBody, Bind.bind, Except.bind]
      · rw [show pyByte pv.length = .error _ from if_neg hpv]
        exact iff_of_false (fun h => by cases h) fun h => hpv h.1.1

/-- Parameters that fit their length octets are encoded. -/
theorem xidEncode_ok {params : List (Byte × Bytes)} (h : ∀ p ∈ params, p.2.length < 256)
    (hlen : (xidBody params).length < 256) :
    xidEncode params =
      .ok (xidFi :: xidGi :: BitVec.ofNat 8 (xidBody params).length :: xidBody params) := by
  rw [xidEncode, xidField_ok_iff.2 ⟨h, rfl⟩]
  show (pyByte (xidBody params).length >>= fun n => _) = _
  rw [pyByte_ok hlen]
  rfl

/-- The loop of `xid_decode` puts them into the dict one after the other.  The induction is on the
parameters; the fuel only has to cover the octets that are left. -/
theorem xidParams_body {params : List (Byte × Bytes)} (h : ∀ p ∈ params, p.2.length < 256) :
    ∀ {n : ℕ} {acc : List (Byte × Bytes)}, (xidBody params).length ≤ n →
      xidParams n (xidBody params) acc = params.foldl (fun d p => dictSet p.1 p.2 d) acc := by
  induction params with
  | nil => intro n acc _; cases n <;> simp [xidBody, xidParams]
  | cons p params ih =>
      intro n acc hn
      obtain ⟨pi, pv⟩ := p
      have hpv : pv.length < 256 := h (pi, pv) (List.mem_cons_self ..)
      have hbody : xidBody ((pi, pv) :: params) =
          pi :: BitVec.ofNat 8 pv.length :: (pv ++ xidBody params) := by simp [xidBody]
      have hlen : (BitVec.ofNat 8 pv.length).toNat = pv.length := by
        rw [BitVec.toNat_ofNat]
        omega
      rw [hbody] at hn ⊢
      simp only [List.length_cons, List.length_append] at hn
      cases n with
      | zero => omega
      | succ n =>
          rw [xidParams, hlen, List.drop_left, List.take_left,
            ih (fun q hq => h q (List.mem_cons_of_mem _ hq)) (by omega)]
          rfl

/-- New keys go to the end, one after the other. -/
theorem foldl_dictSet_fresh {κ ν : Type} [DecidableEq κ] {ps : List (κ × ν)} :
    ∀ {d : List (κ × ν)}, (∀ p ∈ ps, p.1 ∉ d.map Prod.fst) → (ps.map Prod.fst).Nodup →
      ps.foldl (fun d p => dictSet p.1 p.2 d) d = d ++ ps := by
  induction ps with
  | nil => exact fun _ _ => (List.append_nil _).symm
  | cons p ps ih =>
      intro d hfresh hnodup
      rw [List.map_cons, List.nodup_cons] at hnodup
      rw [List.foldl_cons, dictSet_fresh (hfresh p (List.mem_cons_self ..)), ih (fun q hq => ?_)
        hnodup.2, List.append_assoc, List.singleton_append]
      rw [List.map_append, List.mem_append, not_or]
      refine ⟨hfresh q (List.mem_cons_of_mem _ hq), fun hmem => hnodup.1 ?_⟩
      have hkey : q.1 = p.1 := by simpa using hmem
      exact List.mem_map.2 ⟨q, hq, hkey⟩

/-- `lookup` at the head of the list, as one equation. -/
theorem lookup_cons_ite {κ ν : Type} [DecidableEq κ] (k k' : κ) (v : ν) (d : List (κ × ν)) :
    ((k', v) :: d).lookup k = if k = k' then some v else d.lookup k := by
  rw [List.lookup_cons]
  by_cases h : k = k'
  · simp [h]
  · rw [beq_false_of_ne h, if_neg h]

/-- The dict has the value that was set. -/
theorem lookup_dictSet {κ ν : Type} [DecidableEq κ] (k k' : κ) (v : ν) (d : List (κ × ν)) :
    (dictSet k v d).lookup k' = if k' = k then some v else d.lookup k' := by
  induction d with
  | nil => exact lookup_cons_ite k' k v []
  | cons e d ih =>
      rw [dictSet]
      by_cases he : e.1 = k
      · rw [if_pos he, lookup_cons_ite, lookup_cons_ite, he]
        by_cases h : k' = k
        · rw [if_pos h, if_pos h]
        · rw [if_neg h, if_neg h, if_neg h]
      · rw [if_neg he, lookup_cons_ite, lookup_cons_ite, ih]
        by_cases h : k' = e.1
        · rw [if_pos h, if_neg (fun hk => he (h.symm.trans hk)), if_pos h]
        · rw [if_neg h, if_neg h]

/-- And each key once. -/
theorem dictSet_keys {κ ν : Type} [DecidableEq κ] (k : κ) (v : ν) {d : List (κ × ν)}
    (h : (d.map Prod.fst).Nodup) : ((dictSet k v d).map Prod.fst).Nodup := by
  by_cases hk : k ∈ d.map Prod.fst
  · have hsame : (dictSet k v d).map Prod.fst = d.map Prod.fst := by
      clear h
      induction d with
      | nil => cases hk
      | cons e d ih =>
          rw [dictSet]
          by_cases he : e.1 = k
          · rw [if_pos he, List.map_cons, List.map_cons, he]
          · rw [if_neg he, List.map_cons, List.map_cons, ih ?_]
            simpa [Ne.symm he] using hk
    rwa [hsame]
  · rw [dictSet_fresh hk, List.map_append, List.nodup_append]
    refine ⟨h, by simp, fun a ha b hb => ?_⟩
    rintro rfl
    have hab : a = k := by simpa using hb
    exact hk (hab ▸ ha)

/-- A dict that was filled step by step has the last value of each key. -/
theorem lookup_foldl_dictSet {κ ν : Type} [DecidableEq κ] (ps : List (κ × ν)) (k : κ)
    (d : List (κ × ν)) : (ps.foldl (fun d p => dictSet p.1 p.2 d) d).lookup k =
      (ps.reverse.lookup k).or (d.lookup k) := by
  induction ps generalizing d with
  | nil => rfl
  | cons p ps ih =>
      rw [List.foldl_cons, ih, List.reverse_cons, List.lookup_append, lookup_dictSet]
      cases ps.reverse.lookup k with
      | some v => rfl
      | none =>
          rw [lookup_cons_ite, Option.none_or, Option.none_or]
          by_cases h : k = p.1
          · rw [if_pos h, if_pos h]
            rfl
          · rw [if_neg h, if_neg h]
            rfl

/-- Filling a dict step by step gives no key twice. -/
theorem foldl_dictSet_keys {κ ν : Type} [DecidableEq κ] (ps : List (κ × ν)) {d : List (κ × ν)}
    (h : (d.map Prod.fst).Nodup) :
    ((ps.foldl (fun d p => dictSet p.1 p.2 d) d).map Prod.fst).Nodup := by
  induction ps generalizing d with
  | nil => exact h
  | cons p ps ih => exact ih (dictSet_keys p.1 p.2 h)

/-- What `xid_decode` makes of an encoding, and of octets after it. -/
theorem xidDecode_body {params : List (Byte × Bytes)} (h : ∀ p ∈ params, p.2.length < 256)
    (hlen : (xidBody params).length < 256) (rest : Bytes) :
    xidDecode (xidFi :: xidGi :: BitVec.ofNat 8 (xidBody params).length ::
        (xidBody params ++ rest)) =
      .ok (params.foldl (fun d p => dictSet p.1 p.2 d) []) := by
  have hn : (BitVec.ofNat 8 (xidBody params).length).toNat = (xidBody params).length := by
    rw [BitVec.toNat_ofNat]
    omega
  rw [xidDecode, if_neg (by simp), hn, List.take_left, xidParams_body h (by simp)]

/-- **Round trip.**  What `xid_encode` returns, `xid_decode` reads. -/
theorem xidDecode_encode {params : List (Byte × Bytes)} {payload : Bytes}
    (h : xidEncode params = .ok payload) (hnodup : (params.map Prod.fst).Nodup) :
    xidDecode payload = .ok params := by
  cases hfield : xidField params with
  | error e =>
      rw [xidEncode, hfield] at h
      cases h
  | ok field =>
      obtain ⟨hall, rfl⟩ := xidField_ok_iff.1 hfield
      by_cases hlen : (xidBody params).length < 256
      · rw [xidEncode_ok hall hlen] at h
        cases h
        have hdecode := xidDecode_body hall hlen []
        rw [List.append_nil, foldl_dictSet_fresh (fun _ _ => List.not_mem_nil) hnodup] at hdecode
        exact hdecode
      · have hpy : pyByte (xidBody params).length =
            .error (.py .valueError "bytes must be in range(0, 256)") := if_neg hlen
        rw [xidEncode, hfield] at h
        have h : (pyByte (xidBody params).length >>= fun n =>
          .ok (xidFi :: xidGi :: n :: xidBody params)) = Except.ok payload := h
        rw [hpy] at h
        cases h

/-- **What comes out of the XID field.**  Parameters that fit are encoded, and whatever follows the
encoding, `xid_decode` returns the value of the last occurrence of each identifier and nothing
else. -/
theorem xidDecode_last {params : List (Byte × Bytes)} (h : ∀ p ∈ params, p.2.length ≤ 255)
    (hlen : (xidBody params).length ≤ 255) (t : Bytes) :
    ∃ payload d, xidEncode params = .ok payload ∧ xidDecode (payload ++ t) = .ok d ∧
      (∀ pi, d.lookup pi = params.reverse.lookup pi) ∧ (d.map Prod.fst).Nodup := by
  have hall : ∀ p ∈ params, p.2.length < 256 := fun p hp => Nat.lt_succ_of_le (h p hp)
  have hfit : (xidBody params).length < 256 := Nat.lt_succ_of_le hlen
  refine ⟨_, _, xidEncode_ok hall hfit, xidDecode_body hall hfit t, fun pi => ?_,
    foldl_dictSet_keys params List.nodup_nil⟩
  rw [lookup_foldl_dictSet, List.lookup_nil, Option.or_none]

/-- An identifier that occurs twice, with an octet behind the field. -/
theorem xidDecode_last_twice : ∃ payload d,
    xidEncode [(1, [0x41]), (4, []), (1, [0x42])] = .ok payload ∧
      xidDecode (payload ++ [0x09]) = .ok d ∧ d.lookup 1 = some [0x42] ∧ d.lookup 9 = none := by
  obtain ⟨payload, d, hp, hd, hl, -⟩ :=
    @xidDecode_last [(1, [0x41]), (4, []), (1, [0x42])] (by decide) (by decide) [0x09]
  exact ⟨payload, d, hp, hd, (hl 1).trans (by decide), (hl 9).trans (by decide)⟩

/-! ## A reply is rejected exactly when a piece is garbled -/

/-- The loop fails exactly at the first garbled piece, if there is one. -/
theorem parsePieces_error_iff (chunks : List Bytes) :
    (∃ e, parsePieces chunks = .error e) ↔ (chunks.any fun c => match readPiece c with
      | .bad _ => true
      | _ => false) = true := by
  induction chunks with
  | nil => simp [parsePieces]
  | cons c cs ih =>
      rw [parsePieces, List.any_cons, Bool.or_eq_true, ← ih]
      cases readPiece c with
      | skip => simp
      | good f => cases parsePieces cs <;> simp [Except.map]
      | bad body => simp

/-- And then with a `FrameError`. -/
theorem parsePieces_error {chunks : List Bytes} {e : Exn} (h : parsePieces chunks = .error e) :
    ∃ msg, e = .frameError msg := by
  induction chunks with
  | nil => simp [parsePieces] at h
  | cons c cs ih =>
      rw [parsePieces] at h
      cases hc : readPiece c with
      | skip => rw [hc] at h; exact ih h
      | good f =>
          rw [hc] at h
          cases hp : parsePieces cs with
          | error e' => rw [hp] at h; cases h; exact ih hp
          | ok fs => rw [hp] at h; cases h
      | bad body => rw [hc] at h; cases h; exact ⟨_, rfl⟩

/-- `list(parse_frames(raw))` fails exactly on a garbled reply. -/
theorem parseFrames_error_iff (raw : Bytes) :
    (∃ e, parseFrames raw = .error e) ↔ garbled raw = true :=
  parsePieces_error_iff _

/-- The only exception `parse_frames` raises is `FrameError`. -/
theorem parseFrames_error {raw : Bytes} {e : Exn} (h : parseFrames raw = .error e) :
    ∃ msg, e = .frameError msg :=
  parsePieces_error h

example : fcs16 [0x31, 0x32, 0x33, 0x34, 0x35, 0x36, 0x37, 0x38, 0x39] = 0x906E := by
  decide +kernel

end OpenAisg.Hdlc
