import Mathlib.Data.Rat.Floor
import Mathlib.Tactic.Linarith
import OpenAisg.Link.Exchange

/-!
# RETAP procedures (`openaisg/retap.py`)

`Ret` turns a procedure into a message, sends it through a transport and checks
the response.  It is written over any `request` function, as the source's class
is: the session passes a transport that routes indications away.

* `procMessage`, `procResult` — what `_proc` sends, and what it makes of a response.
* `Ret.proc` — `Ret._proc`; the procedures follow, under their names in the source.
* `packInt16`, `unpackInt16` — tilt values, `int16` in 0.1-degree units.  What does
  not fit is a `struct.error`, whose text depends on how far out it is.
* `pyRound` — the built-in `round`, which goes to the even neighbour on a tie.
* `moves_proc` and its like — a procedure stays in a relation when its transport
  does: it touches nothing else.
-/

namespace OpenAisg.Retap

open Prog

variable {σ : Type}

/-- `Ret`: the transport's `request` at the device's address, and the antenna
number. -/
structure Ret (σ : Type) where
  request : Bytes → Time → Prog σ Exn Bytes
  antenna : Option Byte := none

/-- `struct.pack("<H", n)`. -/
def packUint16 (n : ℕ) : Except Exn Bytes :=
  if n < 65536 then .ok [BitVec.ofNat 8 (n % 256), BitVec.ofNat 8 (n / 256)]
  else .error (.py .structError "ushort format requires 0 <= number <= 65535")

/-- `struct.unpack("<H", …)`. -/
def unpackUint16 (lo hi : Byte) : ℕ := lo.toNat + 256 * hi.toNat

/-- `struct.pack("<h", n)`.  What does not fit a C `long` is refused before the limits of the format
are looked at. -/
def packInt16 (n : ℤ) : Except Exn Bytes :=
  if -32768 ≤ n ∧ n ≤ 32767 then
    .ok [BitVec.ofNat 8 ((n % 65536).toNat % 256), BitVec.ofNat 8 ((n % 65536).toNat / 256)]
  else if -2 ^ 63 ≤ n ∧ n < 2 ^ 63 then
    .error (.py .structError "short format requires -32768 <= number <= 32767")
  else .error (.py .structError "argument out of range")

/-- `struct.unpack("<h", …)`. -/
def unpackInt16 (lo hi : Byte) : ℤ :=
  if unpackUint16 lo hi < 32768 then unpackUint16 lo hi else unpackUint16 lo hi - 65536

/-- `struct.unpack` undoes `struct.pack`. -/
theorem packInt16_ok {n : ℤ} {data : Bytes} (h : packInt16 n = .ok data) :
    ∃ lo hi, data = [lo, hi] ∧ unpackInt16 lo hi = n ∧ unpackUint16 lo hi = (n % 65536).toNat := by
  unfold packInt16 at h
  split_ifs at h with hn
  cases h
  have hm : (n % 65536).toNat < 65536 := by omega
  have hu : unpackUint16 (BitVec.ofNat 8 ((n % 65536).toNat % 256))
      (BitVec.ofNat 8 ((n % 65536).toNat / 256)) = (n % 65536).toNat := by
    unfold unpackUint16
    rw [BitVec.toNat_ofNat, BitVec.toNat_ofNat]
    omega
  refine ⟨_, _, rfl, ?_, hu⟩
  unfold unpackInt16
  rw [hu]
  split_ifs <;> omega

/-- Any other number is a `struct.error`. -/
theorem packInt16_error {n : ℤ} (h : ¬(-32768 ≤ n ∧ n ≤ 32767)) :
    ∃ msg, packInt16 n = .error (.py .structError msg) := by
  unfold packInt16
  rw [if_neg h]
  split_ifs
  · exact ⟨_, rfl⟩
  · exact ⟨_, rfl⟩

/-- `round(x)`: the nearest integer, a tie going to the even one. -/
def pyRound (x : ℚ) : ℤ :=
  if x - ⌊x⌋ < 1 / 2 then ⌊x⌋
  else if 1 / 2 < x - ⌊x⌋ then ⌊x⌋ + 1
  else if ⌊x⌋ % 2 = 0 then ⌊x⌋ else ⌊x⌋ + 1

/-- A bound from below survives rounding when it is an integer, -/
theorem le_pyRound {x : ℚ} {n : ℤ} (h : n ≤ x) : n ≤ pyRound x := by
  have hfloor : n ≤ ⌊x⌋ := Int.le_floor.2 h
  unfold pyRound
  split_ifs <;> omega

/-- and so does one from above. -/
theorem pyRound_le {x : ℚ} {n : ℤ} (h : x ≤ n) : pyRound x ≤ n := by
  have hfloor : ⌊x⌋ ≤ n := by exact_mod_cast (Int.floor_le x).trans h
  have hup : ¬ x - ⌊x⌋ < 1 / 2 → ⌊x⌋ + 1 ≤ n := by
    intro hx
    have hlt : (⌊x⌋ : ℚ) < x := by linarith
    exact_mod_cast hlt.trans_le h
  unfold pyRound
  split_ifs with h₁
  · exact hfloor
  · exact hup h₁
  · exact hfloor
  · exact hup h₁

/-- The message `_proc` sends. -/
def procMessage (antenna : Option Byte) (code : Byte) (data : Bytes) : Except Exn Bytes := do
  let len ← packUint16 (antenna.toList.length + data.length)
  .ok (code :: len ++ antenna.toList ++ data)

/-- What `_proc` makes of a response: the procedure's data, or an error. -/
def procResult (antenna : Option Byte) (code : Byte) (resp : Bytes) : Except Exn Bytes :=
  match resp with
  | c :: lo :: hi :: rest =>
      if c ≠ code then .error (.aisgError ("malformed response: " ++ hexSp resp))
      else match (rest.take (unpackUint16 lo hi)).drop antenna.toList.length with
        | [] => .error (.aisgError "empty response body")
        | rc :: body => if rc ≠ 0x00 then .error (.retError code rc) else .ok body
  | _ => .error (.aisgError ("malformed response: " ++ hexSp resp))

/-- An error of `_proc` in a response is an `AisgError`. -/
theorem procResult_isAisg {antenna : Option Byte} {code : Byte} {resp : Bytes} {e : Exn}
    (h : procResult antenna code resp = .error e) : e.isAisg = true := by
  unfold procResult at h
  split at h
  · split_ifs at h
    · cases h; rfl
    · split at h
      · cases h; rfl
      · split_ifs at h
        cases h; rfl
  · cases h; rfl

/-- `_proc`. -/
def Ret.proc (r : Ret σ) (code : Byte) (data : Bytes := []) (timeout : Time := ms 3000) :
    Prog σ Exn Bytes := do
  let msg ← Link.ofExcept (procMessage r.antenna code data)
  let resp ← r.request msg timeout
  Link.ofExcept (procResult r.antenna code resp)

/-- The multi-antenna code where an antenna number is set, else the plain one. -/
def Ret.code (r : Ret σ) (ant single : Byte) : Byte := if r.antenna.isSome then ant else single

/-! ## Common procedures -/

/-- The loop of `get_information` over the remaining keys. -/
def parseInformation : List String → Bytes → List (String × String)
  | [], _ => []
  | _, [] => []
  | key :: keys, n :: d =>
      (key, Link.decodeAscii (d.take n.toNat)) :: parseInformation keys (d.drop n.toNat)

/-- `get_information`: four texts, each behind a length octet. -/
def Ret.getInformation (r : Ret σ) : Prog σ Exn (List (String × String)) := do
  let d ← r.proc Retap.getInformation
  pure (parseInformation
    ["product_number", "serial_number", "hardware_version", "software_version"] d)

/-- `get_alarm_status`: the names of the codes that the device reports. -/
def Ret.getAlarmStatus (r : Ret σ) : Prog σ Exn (List String) := do
  let d ← r.proc (r.code antGetAlarmStatus Retap.getAlarmStatus)
  pure (d.map rcName)

/-- A procedure whose data the caller does not look at. -/
def Ret.perform (r : Ret σ) (code : Byte) (data : Bytes := []) (timeout : Time := ms 3000) :
    Prog σ Exn Unit := do
  let _ ← r.proc code data timeout
  pure ()

/-- `clear_alarms`. -/
def Ret.clearAlarms (r : Ret σ) : Prog σ Exn Unit :=
  r.perform (r.code antClearActiveAlarms clearActiveAlarms)

/-- `alarm_subscribe`. -/
def Ret.alarmSubscribe (r : Ret σ) : Prog σ Exn Unit := r.perform Retap.alarmSubscribe

/-- `self_test`. -/
def Ret.selfTest (r : Ret σ) : Prog σ Exn Unit := r.perform Retap.selfTest [] (ms 30000)

/-- `reset`. -/
def Ret.reset (r : Ret σ) : Prog σ Exn Unit := r.perform resetSoftware

/-! ## RET procedures -/

/-- `calibrate`. -/
def Ret.calibrate (r : Ret σ) : Prog σ Exn Unit :=
  r.perform (r.code antCalibrate Retap.calibrate) [] (ms 120000)

/-- `set_tilt`, from the integer that `round(degrees * 10)` came to. -/
def Ret.setTiltUnits (r : Ret σ) (n : ℤ) : Prog σ Exn Unit := do
  let data ← Link.ofExcept (packInt16 n)
  r.perform (r.code antSetTilt Retap.setTilt) data (ms 60000)

/-- `struct.unpack("<h", d[:2])[0] / 10.0`. -/
def tiltOf (d : Bytes) : Except Exn ℚ :=
  match d with
  | lo :: hi :: _ => .ok ((unpackInt16 lo hi : ℚ) / 10)
  | _ => .error (.py .structError "unpack requires a buffer of 2 bytes")

/-- `get_tilt`. -/
def Ret.getTilt (r : Ret σ) : Prog σ Exn ℚ := do
  let d ← r.proc (r.code antGetTilt Retap.getTilt)
  Link.ofExcept (tiltOf d)

/-- `get_device_data`. -/
def Ret.getDeviceData (r : Ret σ) (field : ℕ) : Prog σ Exn Bytes := do
  let b ← Link.ofExcept (Hdlc.pyByte field)
  r.proc (r.code antGetDeviceData Retap.getDeviceData) [b]

/-- `send_config_data`. -/
def Ret.sendConfigData (r : Ret σ) (blob : Bytes) : Prog σ Exn Unit :=
  r.perform (r.code antSendConfigData Retap.sendConfigData) blob (ms 30000)

/-- `num_antennas`; the antenna number is set aside for the call. -/
def Ret.numAntennas (r : Ret σ) : Prog σ Exn Byte := do
  let d ← Ret.proc { r with antenna := none } antGetNumAntennas
  match d with
  | n :: _ => pure n
  | [] => raise (.py .indexError "index out of range")

/-! ## A procedure only touches the bus through its transport -/

section Moves

variable {R : σ → σ → Prop} [IsPreorder σ R] {r : Ret σ}

/-- A procedure asks its transport once, and what it does with the response moves nothing. -/
theorem moves_proc (h : ∀ m t, Moves R (r.request m t)) (code : Byte) (data : Bytes)
    (t : Time) : Moves R (r.proc code data t) :=
  moves_bind (Link.moves_ofExcept _) fun _ =>
    moves_bind (h _ _) fun _ => Link.moves_ofExcept _

theorem moves_perform (h : ∀ m t, Moves R (r.request m t)) (code : Byte) (data : Bytes)
    (t : Time) : Moves R (r.perform code data t) :=
  moves_bind (moves_proc h _ _ _) fun _ => moves_pure _

theorem moves_getInformation (h : ∀ m t, Moves R (r.request m t)) :
    Moves R r.getInformation :=
  moves_bind (moves_proc h _ _ _) fun _ => moves_pure _

theorem moves_getAlarmStatus (h : ∀ m t, Moves R (r.request m t)) :
    Moves R r.getAlarmStatus :=
  moves_bind (moves_proc h _ _ _) fun _ => moves_pure _

theorem moves_setTiltUnits (h : ∀ m t, Moves R (r.request m t)) (n : ℤ) :
    Moves R (r.setTiltUnits n) :=
  moves_bind (Link.moves_ofExcept _) fun _ => moves_perform h _ _ _

theorem moves_getTilt (h : ∀ m t, Moves R (r.request m t)) : Moves R r.getTilt :=
  moves_bind (moves_proc h _ _ _) fun _ => Link.moves_ofExcept _

theorem moves_getDeviceData (h : ∀ m t, Moves R (r.request m t)) (field : ℕ) :
    Moves R (r.getDeviceData field) :=
  moves_bind (Link.moves_ofExcept _) fun _ => moves_proc h _ _ _

end Moves

end OpenAisg.Retap
