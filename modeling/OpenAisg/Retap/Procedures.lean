import OpenAisg.Retap.Ret

/-!
# The procedure methods of a `Ret` object

`OpenAisg.Retap.Ret` has the procedures with the antenna number as a constant.  Here
a method runs on the object, whose attribute `antenna` it reads and, in
`num_antennas`, writes.  An antenna number is any natural number, as in the source,
where nothing keeps it to an octet.

* `RetSt` — the object in use; `Procedure` — a method and its arguments.
* `Method` — what all methods have in common: two codes, a packed argument, a budget,
  and what is read from the response; `perform` runs one.
* `Procedure.method` — the methods themselves, each as such a record.
* `call` — a call of one, and `wp_call_ret` — with an antenna number that is an octet
  they are the procedures of `Ret`.
* `Packs`, `Suffices` — the argument can be packed, and the response holds what the
  method reads from it.
* `Foreign` — an error that is no `AisgError`, so that `except AisgError` lets it through.
* `Behaves` — the call returned or raised an `AisgError`, and the antenna number is
  what it was.  `behaves_iff` says when.
-/

namespace OpenAisg.Retap

open Prog

variable {σ α : Type}

/-- A `Ret` object in use: what its transport works on, and its attribute `antenna`. -/
structure RetSt (σ : Type) where
  bus : σ
  antenna : Option ℕ

/-- The float `degrees * 10` of a finite angle, which overflows for the largest ones. -/
inductive Tenths where
  | finite (x : ℚ)
  | infinite

/-- `round(degrees * 10)`. -/
def Tenths.round : Tenths → Except Exn ℤ
  | finite x => .ok (pyRound x)
  | infinite => .error (.py .overflowError "cannot convert float infinity to integer")

/-- A procedure method and its arguments. -/
inductive Procedure where
  | getInformation
  | getAlarmStatus
  | clearAlarms
  | alarmSubscribe
  | selfTest
  | reset
  | calibrate
  | setTilt (degrees : Tenths)
  | getTilt
  | numAntennas
  | getDeviceData (field : ℕ)
  | sendConfigData (blob : Bytes)

/-- What the methods return. -/
inductive Answer where
  | none
  | information (fields : List (String × String))
  | alarms (names : List String)
  | tilt (degrees : ℚ)
  | count (n : Byte)
  | data (bytes : Bytes)
  deriving DecidableEq

/-! ## The shape of a method -/

/-- A method: its code for an object with an antenna number and for one without, the
argument it packs, its budget, and what it reads from the data of the response. -/
structure Method (α : Type) where
  ant : Byte
  single : Byte
  data : Except Exn Bytes := .ok []
  timeout : Time := ms 3000
  use : Bytes → Except Exn α

/-- The code that is sent. -/
def Method.code (m : Method α) (antenna : Option ℕ) : Byte :=
  if antenna.isSome then m.ant else m.single

/-- `bytes([self.antenna]) if self.antenna is not None else b""`. -/
def antennaPrefix : Option ℕ → Except Exn (Option Byte)
  | none => .ok none
  | some n => (Hdlc.pyByte n).map some

section Methods

variable (request : Bytes → Time → Prog σ Exn Bytes)

/-- `_proc`. -/
def procSelf (code : Byte) (data : Bytes) (timeout : Time) : Prog (RetSt σ) Exn Bytes := do
  let n ← Prog.read (·.antenna)
  let antenna ← Link.ofExcept (antennaPrefix n)
  zoom (·.bus) (fun s w => { s with bus := w }) (Ret.proc ⟨request, antenna⟩ code data timeout)

/-- One method. -/
def perform (m : Method α) : Prog (RetSt σ) Exn α := do
  let n ← Prog.read (·.antenna)
  let data ← Link.ofExcept m.data
  let d ← procSelf request (m.code n) data m.timeout
  Link.ofExcept (m.use d)

/-- A method whose caller does not look at the data. -/
def blind (ant single : Byte) (data : Except Exn Bytes := .ok []) (timeout : Time := ms 3000) :
    Method Answer :=
  ⟨ant, single, data, timeout, fun _ => .ok .none⟩

/-- The message a method sends. -/
def Method.message (m : Method α) (antenna : Option ℕ) : Except Exn Bytes := do
  let data ← m.data
  let a ← antennaPrefix antenna
  procMessage a (m.code antenna) data

/-- `struct.pack("<h", round(degrees * 10))`. -/
def packTilt (degrees : Tenths) : Except Exn Bytes := degrees.round >>= packInt16

/-- `d[0]`. -/
def firstOf : Bytes → Except Exn Byte
  | n :: _ => .ok n
  | [] => .error (.py .indexError "index out of range")

/-- The bodies of the methods, but for what `num_antennas` does around its own. -/
def Procedure.method : Procedure → Method Answer
  | .getInformation => ⟨Retap.getInformation, Retap.getInformation, .ok [], ms 3000, fun d =>
      .ok (.information (parseInformation
        ["product_number", "serial_number", "hardware_version", "software_version"] d))⟩
  | .getAlarmStatus => ⟨antGetAlarmStatus, Retap.getAlarmStatus, .ok [], ms 3000, fun d =>
      .ok (.alarms (d.map rcName))⟩
  | .clearAlarms => blind antClearActiveAlarms clearActiveAlarms
  | .alarmSubscribe => blind Retap.alarmSubscribe Retap.alarmSubscribe
  | .selfTest => blind Retap.selfTest Retap.selfTest (.ok []) (ms 30000)
  | .reset => blind resetSoftware resetSoftware
  | .calibrate => blind antCalibrate Retap.calibrate (.ok []) (ms 120000)
  | .setTilt degrees => blind antSetTilt Retap.setTilt (packTilt degrees) (ms 60000)
  | .getTilt => ⟨antGetTilt, Retap.getTilt, .ok [], ms 3000, fun d => (tiltOf d).map .tilt⟩
  | .numAntennas => ⟨antGetNumAntennas, antGetNumAntennas, .ok [], ms 3000, fun d =>
      (firstOf d).map .count⟩
  | .getDeviceData field => ⟨antGetDeviceData, Retap.getDeviceData,
      (Hdlc.pyByte field).map ([·]), ms 3000, fun d => .ok (.data d)⟩
  | .sendConfigData blob => blind antSendConfigData Retap.sendConfigData (.ok blob) (ms 30000)

/-- Write the attribute. -/
def setAntenna (antenna : Option ℕ) : Prog (RetSt σ) Exn Unit :=
  Prog.modify fun s => { s with antenna := antenna }

/-- A call of the method. -/
def call : Procedure → Prog (RetSt σ) Exn Answer
  | .numAntennas => do
      let saved ← Prog.read (·.antenna)
      setAntenna none
      ensure (perform request Procedure.numAntennas.method) (setAntenna saved)
  | p => perform request p.method

end Methods

/-! ## What a method makes of a response -/

/-- The response is an OK to the code, and `data` is what it carries behind the return
code, `k` octets of antenna number aside. -/
def OkData (k : ℕ) (code : Byte) (resp data : Bytes) : Prop :=
  ∃ lo hi rest, resp = code :: lo :: hi :: rest ∧
    (rest.take (unpackUint16 lo hi)).drop k = 0x00 :: data

/-- `_proc` returns data exactly where the response is an OK to the code. -/
theorem procResult_ok_iff {antenna : Option Byte} {code : Byte} {resp data : Bytes} :
    procResult antenna code resp = .ok data ↔ OkData antenna.toList.length code resp data := by
  constructor
  · intro h
    unfold procResult at h
    split at h
    next c lo hi rest =>
      split_ifs at h with hc
      split at h
      next => cases h
      next rc body hbody =>
        split_ifs at h with hrc
        cases h
        exact ⟨lo, hi, rest, by rw [not_not.1 hc], by rw [hbody, not_not.1 hrc]⟩
    next => cases h
  · rintro ⟨lo, hi, rest, rfl, hbody⟩
    simp [procResult, hbody]

/-- An error of packing or unpacking, which is no `AisgError`. -/
def Foreign (r : Except Exn α) : Prop := ∀ e, r = .error e → e.isAisg = false

theorem foreign_ok (a : α) : Foreign (.ok a : Except Exn α) := fun _ h => nomatch h

/-- A number that is no octet is a `ValueError`. -/
theorem foreign_pyByte (n : ℕ) : Foreign (Hdlc.pyByte n) := by
  intro e h
  unfold Hdlc.pyByte at h
  split_ifs at h
  cases h
  rfl

/-- What is done with the result does not matter. -/
theorem Foreign.map {β : Type} {r : Except Exn α} (h : Foreign r) (f : α → β) :
    Foreign (r.map f) := by
  intro e he
  cases r with
  | ok a => cases he
  | error e' => cases he; exact h e rfl

theorem foreign_antennaPrefix (n : Option ℕ) : Foreign (antennaPrefix n) := by
  cases n with
  | none => exact foreign_ok _
  | some n => exact (foreign_pyByte n).map _

/-- A tilt that does not fit is a `struct.error`, or an `OverflowError` before it. -/
theorem foreign_packTilt (degrees : Tenths) : Foreign (packTilt degrees) := by
  intro e h
  cases degrees with
  | infinite => cases h; rfl
  | finite x =>
      change packInt16 (pyRound x) = .error e at h
      unfold packInt16 at h
      split_ifs at h <;> cases h <;> rfl

/-- A message that is too long is a `struct.error`. -/
theorem foreign_procMessage (antenna : Option Byte) (code : Byte) (data : Bytes) :
    Foreign (procMessage antenna code data) := by
  intro e h
  unfold procMessage packUint16 at h
  split_ifs at h <;> cases h
  rfl

/-- Two steps that fail so. -/
theorem Foreign.bind {β : Type} {r : Except Exn α} {f : α → Except Exn β} (h : Foreign r)
    (hf : ∀ a, Foreign (f a)) : Foreign (r >>= f) := by
  intro e he
  cases r with
  | ok a => exact hf a e he
  | error e' => cases he; exact h e rfl

theorem Method.foreign_message {m : Method α} (h : Foreign m.data) (antenna : Option ℕ) :
    Foreign (m.message antenna) :=
  h.bind fun _ => (foreign_antennaPrefix antenna).bind fun _ => foreign_procMessage _ _ _

/-- The antenna number is packed exactly if it is an octet. -/
theorem antennaPrefix_ok_iff {antenna : Option ℕ} {a : Option Byte} :
    antennaPrefix antenna = .ok a ↔
      (∀ n ∈ antenna, n < 256) ∧ a = antenna.map (BitVec.ofNat 8) := by
  cases antenna with
  | none => simp [antennaPrefix, eq_comm]
  | some n =>
      change (Hdlc.pyByte n).map some = _ ↔ _
      unfold Hdlc.pyByte
      split_ifs with hn <;> simp [Except.map, hn, eq_comm]

/-- The length field has 16 bits. -/
theorem procMessage_ok_iff {antenna : Option Byte} {code : Byte} {data : Bytes} :
    (∃ m, procMessage antenna code data = .ok m) ↔
      antenna.toList.length + data.length < 65536 := by
  unfold procMessage packUint16
  split_ifs with h
  · exact ⟨fun _ => h, fun _ => ⟨_, rfl⟩⟩
  · exact ⟨fun ⟨_, hm⟩ => (nomatch hm), fun hlt => absurd hlt h⟩

/-- A message is packed where the argument is, the antenna number is an octet, and the
two together have a length of 16 bits. -/
theorem Method.message_ok_iff {m : Method α} {antenna : Option ℕ} :
    (∃ msg, m.message antenna = .ok msg) ↔ ∃ data, m.data = .ok data ∧
      (∀ n ∈ antenna, n < 256) ∧ antenna.toList.length + data.length < 65536 := by
  unfold Method.message
  cases hd : m.data with
  | error e => exact ⟨fun ⟨_, h⟩ => (nomatch h), fun ⟨_, h, _⟩ => (nomatch h)⟩
  | ok data =>
      cases ha : antennaPrefix antenna with
      | error e =>
          refine ⟨fun ⟨_, h⟩ => (nomatch h), fun ⟨_, _, h, _⟩ => ?_⟩
          have hok := antennaPrefix_ok_iff.2 ⟨h, rfl⟩
          rw [ha] at hok
          cases hok
      | ok a =>
          obtain ⟨hn, rfl⟩ := antennaPrefix_ok_iff.1 ha
          have hlen : (antenna.map (BitVec.ofNat 8)).toList.length = antenna.toList.length := by
            cases antenna <;> rfl
          have h := @procMessage_ok_iff (antenna.map (BitVec.ofNat 8)) (m.code antenna) data
          rw [hlen] at h
          constructor
          · intro hm
            exact ⟨data, rfl, hn, h.1 hm⟩
          · rintro ⟨data', hdata, -, hlt⟩
            cases hdata
            exact h.2 hlt

section Methods

variable {request : Bytes → Time → Prog σ Exn Bytes} {s : RetSt σ}

/-- A method sends its message, if it can be packed, and reads the response.  Every result about a
method starts from here. -/
theorem wp_perform {m : Method α} {Q : α → RetSt σ → Prop} {E : Exn → RetSt σ → Prop}
    {S : RetSt σ → Prop} :
    wp (perform request m) Q E S s ↔ match m.message s.antenna with
      | .error e => E e s
      | .ok msg => wp (request msg m.timeout)
          (fun resp w =>
            match procResult (s.antenna.map (BitVec.ofNat 8)) (m.code s.antenna) resp >>= m.use with
            | .ok x => Q x { s with bus := w }
            | .error e => E e { s with bus := w })
          (fun e w => E e { s with bus := w }) (fun w => S { s with bus := w }) s.bus := by
  unfold perform procSelf Ret.proc Method.message
  simp only [wp_bind, wp_read, Link.wp_ofExcept, wp_zoom]
  cases m.data with
  | error e => rfl
  | ok data =>
      cases ha : antennaPrefix s.antenna with
      | error e => rfl
      | ok a =>
          obtain ⟨-, rfl⟩ := antennaPrefix_ok_iff.1 ha
          dsimp only [bind, Except.bind]
          cases procMessage (s.antenna.map (BitVec.ofNat 8)) (m.code s.antenna) data with
          | error e => rfl
          | ok msg =>
              dsimp only
              refine wp_congr fun resp w => ?_
              cases procResult (s.antenna.map (BitVec.ofNat 8)) (m.code s.antenna) resp <;> rfl

/-- The method returns or raises an `AisgError`, where the transport does. -/
theorem perform_aisg_iff {m : Method α} (hdata : Foreign m.data) (huse : ∀ d, Foreign (m.use d))
    (hlink : ∀ msg t e w, request msg t s.bus = (.raise e, w) → e.isAisg = true) :
    wp (perform request m) (fun _ _ => True) (fun e _ => e.isAisg = true) (fun _ => True) s ↔
      (∃ msg, m.message s.antenna = .ok msg) ∧
        ∀ msg, m.message s.antenna = .ok msg →
          ∀ resp w, request msg m.timeout s.bus = (.ret resp, w) →
            ∀ d, OkData s.antenna.toList.length (m.code s.antenna) resp d → ∃ x, m.use d = .ok x := by
  have hlen : (s.antenna.map (BitVec.ofNat 8)).toList.length = s.antenna.toList.length := by
    cases s.antenna <;> rfl
  rw [wp_perform]
  cases hmsg : m.message s.antenna with
  | error e =>
      have hforeign := m.foreign_message hdata s.antenna e hmsg
      simp [hforeign]
  | ok msg =>
      simp only [Except.ok.injEq, forall_eq', exists_eq', true_and]
      rw [wp_iff]
      constructor
      · rintro ⟨hret, -, -⟩ resp w hw d hd
        have hread := hret resp w hw
        rw [procResult_ok_iff.2 (hlen ▸ hd)] at hread
        dsimp only [bind, Except.bind] at hread
        cases hx : m.use d with
        | ok x => exact ⟨x, rfl⟩
        | error e =>
            rw [hx] at hread
            exact absurd hread (by simp [huse d e hx])
      · intro h
        refine ⟨fun resp w hw => ?_, fun e w hw => hlink _ _ e w hw, fun _ _ => trivial⟩
        cases hres : procResult (s.antenna.map (BitVec.ofNat 8)) (m.code s.antenna) resp with
        | error e => exact procResult_isAisg hres
        | ok d =>
            obtain ⟨x, hx⟩ := h resp w hw d (hlen ▸ procResult_ok_iff.1 hres)
            change match m.use d with
              | .ok _ => True
              | .error e => e.isAisg = true
            rw [hx]
            trivial

end Methods

/-! ## The methods -/

/-- The antenna number a method sends: `num_antennas` sets it aside. -/
def Procedure.sent : Procedure → Option ℕ → Option ℕ
  | .numAntennas, _ => none
  | _, antenna => antenna

/-- The argument of the method can be packed behind the antenna number. -/
def Procedure.Packs (p : Procedure) (antenna : Option ℕ) : Prop :=
  (∀ n ∈ p.sent antenna, n < 256) ∧
    match p with
    | .setTilt degrees => ∃ x, degrees = .finite x ∧ -32768 ≤ pyRound x ∧ pyRound x ≤ 32767
    | .getDeviceData field => field < 256
    | .sendConfigData blob => antenna.toList.length + blob.length < 65536
    | _ => True

/-- How many octets of data the method takes for granted. -/
def Procedure.need : Procedure → ℕ
  | .getTilt => 2
  | .numAntennas => 1
  | _ => 0

/-- The response is no OK with less data than the method takes for granted. -/
def Procedure.Suffices (p : Procedure) (antenna : Option ℕ) (resp : Bytes) : Prop :=
  ∀ d, OkData (p.sent antenna).toList.length (p.method.code (p.sent antenna)) resp d →
    p.need ≤ d.length

/-- The message the method sends. -/
def Procedure.message (p : Procedure) (antenna : Option ℕ) : Except Exn Bytes :=
  p.method.message (p.sent antenna)

/-- No argument is packed with an `AisgError`. -/
theorem Procedure.foreign_data (p : Procedure) : Foreign p.method.data := by
  cases p with
  | setTilt degrees => exact foreign_packTilt degrees
  | getDeviceData field => exact (foreign_pyByte field).map _
  | _ => exact foreign_ok _

/-- No response is read with one. -/
theorem Procedure.foreign_use (p : Procedure) (d : Bytes) : Foreign (p.method.use d) := by
  cases p with
  | getTilt =>
      refine Foreign.map (fun e h => ?_) _
      unfold tiltOf at h
      split at h <;> cases h
      rfl
  | numAntennas =>
      refine Foreign.map (fun e h => ?_) _
      cases d <;> cases h
      rfl
  | _ => exact foreign_ok _

/-- What a method reads from the data is there where the data is long enough. -/
theorem Procedure.use_ok_iff (p : Procedure) (d : Bytes) :
    (∃ x, p.method.use d = .ok x) ↔ p.need ≤ d.length := by
  cases p with
  | getTilt =>
      rcases d with _ | ⟨lo, _ | ⟨hi, d⟩⟩ <;>
        simp [Procedure.method, Procedure.need, tiltOf, Except.map]
  | numAntennas => cases d <;> simp [Procedure.method, Procedure.need, firstOf, Except.map]
  | _ => simp [Procedure.method, Procedure.need, blind]

/-- A tilt can be packed exactly if it is finite and its tenths are an `int16`. -/
theorem packTilt_ok_iff {degrees : Tenths} : (∃ d, packTilt degrees = .ok d) ↔
    ∃ x, degrees = .finite x ∧ -32768 ≤ pyRound x ∧ pyRound x ≤ 32767 := by
  cases degrees with
  | infinite => exact ⟨fun ⟨_, h⟩ => (nomatch h), fun ⟨_, h, _⟩ => (nomatch h)⟩
  | finite x =>
      change (∃ d, packInt16 (pyRound x) = .ok d) ↔ _
      by_cases h : -32768 ≤ pyRound x ∧ pyRound x ≤ 32767
      · exact ⟨fun _ => ⟨x, rfl, h⟩, fun _ => ⟨_, if_pos h⟩⟩
      · obtain ⟨msg, hmsg⟩ := packInt16_error h
        rw [hmsg]
        refine ⟨fun ⟨_, hd⟩ => (nomatch hd), ?_⟩
        rintro ⟨y, hy, hr⟩
        cases hy
        exact absurd hr h

theorem packTilt_length {degrees : Tenths} {d : Bytes} (h : packTilt degrees = .ok d) :
    d.length = 2 := by
  cases degrees with
  | infinite => cases h
  | finite x =>
      obtain ⟨lo, hi, rfl, -⟩ := packInt16_ok h
      rfl

/-- The message of a method can be packed exactly if its argument can. -/
theorem Procedure.message_ok_iff {p : Procedure} {antenna : Option ℕ} :
    (∃ msg, p.message antenna = .ok msg) ↔ p.Packs antenna := by
  have hlen : ∀ a : Option ℕ, a.toList.length ≤ 1 := fun a => by cases a <;> simp
  unfold Procedure.message
  rw [Method.message_ok_iff]
  cases p with
  | setTilt degrees =>
      constructor
      · rintro ⟨d, hd, hn, -⟩
        exact ⟨hn, packTilt_ok_iff.1 ⟨d, hd⟩⟩
      · rintro ⟨hn, hx⟩
        obtain ⟨d, hd⟩ := packTilt_ok_iff.2 hx
        have h := hlen antenna
        refine ⟨d, hd, hn, ?_⟩
        rw [packTilt_length hd]
        change antenna.toList.length + 2 < 65536
        omega
  | getDeviceData field =>
      have h := hlen antenna
      by_cases hf : field < 256
      · simp [Procedure.Packs, Procedure.method, Procedure.sent, Hdlc.pyByte, Except.map, hf]
        omega
      · simp [Procedure.Packs, Procedure.method, Procedure.sent, Hdlc.pyByte, Except.map, hf]
  | sendConfigData blob =>
      simp [Procedure.Packs, Procedure.method, Procedure.sent, blind]
  | numAntennas => simp [Procedure.Packs, Procedure.method, Procedure.sent]
  | _ =>
      have h := hlen antenna
      simp [Procedure.Packs, Procedure.method, Procedure.sent, blind]
      omega

section Calls

variable {request : Bytes → Time → Prog σ Exn Bytes} {s : RetSt σ}

/-- One method leaves the attribute alone. -/
theorem perform_antenna (m : Method α) :
    wp (perform request m) (fun _ t => t.antenna = s.antenna) (fun _ t => t.antenna = s.antenna)
      (fun t => t.antenna = s.antenna) s := by
  rw [wp_perform]
  cases m.message s.antenna with
  | error e => rfl
  | ok msg =>
      refine wp_any (fun resp w => ?_) (fun _ _ => rfl) (fun _ => rfl) _
      cases procResult (s.antenna.map (BitVec.ofNat 8)) (m.code s.antenna) resp >>= m.use <;> rfl

/-- `num_antennas` writes the attribute back, also when the call raises. -/
theorem wp_call_numAntennas {Q : Answer → RetSt σ → Prop} {E : Exn → RetSt σ → Prop}
    {S : RetSt σ → Prop} :
    wp (call request .numAntennas) Q E S s ↔
      wp (perform request Procedure.numAntennas.method)
        (fun x t => Q x { t with antenna := s.antenna })
        (fun e t => E e { t with antenna := s.antenna }) S { s with antenna := none } := by
  unfold call setAntenna
  rw [wp_bind, wp_read, wp_bind, wp_modify, wp_ensure]
  rfl

/-- **However a call ends, `Ret.antenna` is unchanged afterwards.**  The `finally` of
`num_antennas` is why this holds of its errors too. -/
theorem call_antenna (p : Procedure) :
    wp (call request p) (fun _ t => t.antenna = s.antenna) (fun _ t => t.antenna = s.antenna)
      (fun _ => True) s := by
  cases p with
  | numAntennas => exact wp_call_numAntennas.2 (wp_any (fun _ _ => rfl) (fun _ _ => rfl)
      (fun _ => trivial) _)
  | _ => exact (perform_antenna _).mono (fun _ _ h => h) (fun _ _ h => h) fun _ _ => trivial

/-- When a call returns or raises an `AisgError`. -/
theorem call_aisg_iff {p : Procedure}
    (hlink : ∀ msg t e w, request msg t s.bus = (.raise e, w) → e.isAisg = true) :
    wp (call request p) (fun _ _ => True) (fun e _ => e.isAisg = true) (fun _ => True) s ↔
      p.Packs s.antenna ∧ ∀ msg, p.message s.antenna = .ok msg →
        ∀ resp w, request msg p.method.timeout s.bus = (.ret resp, w) →
          p.Suffices s.antenna resp := by
  simp only [← Procedure.message_ok_iff, Procedure.Suffices, ← Procedure.use_ok_iff]
  cases p with
  | numAntennas =>
      rw [wp_call_numAntennas]
      exact perform_aisg_iff (s := { s with antenna := none }) (Procedure.foreign_data _)
        (Procedure.foreign_use _) hlink
  | _ => exact perform_aisg_iff (Procedure.foreign_data _) (Procedure.foreign_use _) hlink

/-- The procedure of `Ret` that a method is. -/
def Ret.procedure (r : Ret σ) : Procedure → Prog σ Exn Answer
  | .getInformation => do let d ← r.getInformation; pure (.information d)
  | .getAlarmStatus => do let names ← r.getAlarmStatus; pure (.alarms names)
  | .clearAlarms => do r.clearAlarms; pure .none
  | .alarmSubscribe => do r.alarmSubscribe; pure .none
  | .selfTest => do r.selfTest; pure .none
  | .reset => do r.reset; pure .none
  | .calibrate => do r.calibrate; pure .none
  | .setTilt degrees => do
      let units ← Link.ofExcept degrees.round
      r.setTiltUnits units
      pure .none
  | .getTilt => do let t ← r.getTilt; pure (.tilt t)
  | .numAntennas => do let n ← r.numAntennas; pure (.count n)
  | .getDeviceData field => do let d ← r.getDeviceData field; pure (.data d)
  | .sendConfigData blob => do r.sendConfigData blob; pure .none

/-- A method whose antenna number is an octet, as a program on the transport. -/
theorem wp_perform_ret {m : Method α} {a : Option Byte} (h : s.antenna = a.map (·.toNat))
    {Q : α → RetSt σ → Prop} {E : Exn → RetSt σ → Prop} {S : RetSt σ → Prop} :
    wp (perform request m) Q E S s ↔
      wp (do
          let data ← Link.ofExcept m.data
          let d ← Ret.proc ⟨request, a⟩ (Ret.code ⟨request, a⟩ m.ant m.single) data m.timeout
          Link.ofExcept (m.use d) : Prog σ Exn α)
        (fun x w => Q x { s with bus := w }) (fun e w => E e { s with bus := w })
        (fun w => S { s with bus := w }) s.bus := by
  have ha : antennaPrefix s.antenna = .ok a := by
    rw [h, antennaPrefix_ok_iff]
    cases a with
    | none => simp
    | some b => simp [b.isLt]
  have hcode : m.code s.antenna = Ret.code ⟨request, a⟩ m.ant m.single := by
    rw [h]
    cases a <;> rfl
  unfold perform procSelf
  simp only [wp_bind, wp_read, Link.wp_ofExcept, wp_zoom, ha, hcode]

theorem Ret.code_self (r : Ret σ) (c : Byte) : r.code c c = c := by
  unfold Ret.code
  split_ifs <;> rfl

/-- **The methods of the object are the procedures of `Ret`** at its antenna number. -/
theorem wp_call_ret {p : Procedure} {a : Option Byte} (h : s.antenna = a.map (·.toNat))
    {Q : Answer → RetSt σ → Prop} {E : Exn → RetSt σ → Prop} :
    wp (call request p) Q E (fun _ => True) s ↔
      wp (Ret.procedure ⟨request, a⟩ p) (fun x w => Q x { s with bus := w })
        (fun e w => E e { s with bus := w }) (fun _ => True) s.bus := by
  cases p with
  | numAntennas =>
      rw [wp_call_numAntennas, wp_perform_ret (a := none) rfl]
      simp only [Procedure.method, Ret.procedure, Ret.numAntennas, wp_bind, Link.wp_ofExcept,
        wp_pure, Ret.code_self]
      refine wp_congr fun d w => ?_
      cases d <;> rfl
  | setTilt degrees =>
      refine (wp_perform_ret h).trans ?_
      simp only [Procedure.method, blind, packTilt, Ret.procedure, Ret.setTiltUnits, Ret.perform,
        wp_bind, Link.wp_ofExcept, wp_pure]
      cases degrees.round <;> rfl
  | getTilt =>
      refine (wp_perform_ret h).trans ?_
      simp only [Procedure.method, Ret.procedure, Ret.getTilt, wp_bind, Link.wp_ofExcept, wp_pure]
      refine wp_congr fun d w => ?_
      cases tiltOf d <;> rfl
  | getDeviceData field =>
      refine (wp_perform_ret h).trans ?_
      simp only [Procedure.method, Ret.procedure, Ret.getDeviceData, wp_bind, Link.wp_ofExcept,
        wp_pure]
      cases Hdlc.pyByte field <;> rfl
  | _ =>
      refine (wp_perform_ret h).trans ?_
      simp only [Procedure.method, blind, Ret.procedure, Ret.getInformation, Ret.getAlarmStatus,
        Ret.clearAlarms, Ret.alarmSubscribe, Ret.selfTest, Ret.reset, Ret.calibrate,
        Ret.sendConfigData, Ret.perform, wp_bind, Link.wp_ofExcept, wp_pure, Ret.code_self]

/-- The call returned or raised an `AisgError`, with `Ret.antenna` unchanged. -/
def Behaves (request : Bytes → Time → Prog σ Exn Bytes) (p : Procedure) (s : RetSt σ) : Prop :=
  wp (call request p) (fun _ t => t.antenna = s.antenna)
    (fun e t => e.isAisg = true ∧ t.antenna = s.antenna) (fun _ => True) s

/-- **When a procedure method behaves**: its argument can be packed, and the response is no OK that
carries less data than the method reads.  The transport may raise any `AisgError`, and no response
that is not an OK does any harm. -/
theorem behaves_iff {p : Procedure}
    (hlink : ∀ msg t e w, request msg t s.bus = (.raise e, w) → e.isAisg = true) :
    Behaves request p s ↔ p.Packs s.antenna ∧ ∀ msg, p.message s.antenna = .ok msg →
      ∀ resp w, request msg p.method.timeout s.bus = (.ret resp, w) →
        p.Suffices s.antenna resp := by
  rw [← call_aisg_iff hlink]
  constructor
  · intro h
    exact h.mono (fun _ _ _ => trivial) (fun _ _ h => h.1) fun _ h => h
  · intro h
    exact (h.and (call_antenna p)).mono (fun _ _ h => h.2) (fun _ _ h => h) fun _ _ => trivial

end Calls

/-- A transport that hands back one payload. -/
def handing (resp : Bytes) : Bytes → Time → Prog Unit Exn Bytes := fun _ _ => pure resp

/-- An OK with two octets of tilt is a response `get_tilt` can read. -/
theorem behaves_getTilt :
    Behaves (handing [0x34, 0x03, 0x00, 0x00, 0x2A, 0x00]) .getTilt ⟨(), none⟩ := by
  have hlink : ∀ msg t e w, handing [0x34, 0x03, 0x00, 0x00, 0x2A, 0x00] msg t () =
      (.raise e, w) → e.isAisg = true := by
    intro msg t e w h
    cases h
  refine (behaves_iff hlink).2 ⟨by simp [Procedure.Packs, Procedure.sent], ?_⟩
  rintro msg - resp w h d ⟨lo, hi, rest, hresp, hd⟩
  cases h
  cases hresp
  cases hd
  decide

/-- An OK without data makes `get_tilt` raise `struct.error` and `num_antennas` raise
`IndexError`; an angle that does not fit makes `set_tilt` raise `struct.error`. -/
theorem procedures_raise :
    (call (handing [0x34, 0x01, 0x00, 0x00]) .getTilt ⟨(), none⟩).1 =
        .raise (.py .structError "unpack requires a buffer of 2 bytes") ∧
      (call (handing [0x88, 0x01, 0x00, 0x00]) .numAntennas ⟨(), none⟩).1 =
        .raise (.py .indexError "index out of range") ∧
      (call (handing [0x33, 0x01, 0x00, 0x00]) (.setTilt (.finite 32768)) ⟨(), none⟩).1 =
        .raise (.py .structError "short format requires -32768 <= number <= 32767") ∧
      ¬ Behaves (handing [0x34, 0x01, 0x00, 0x00]) .getTilt ⟨(), none⟩ := by
  refine ⟨rfl, rfl, by decide +kernel, fun h => ?_⟩
  exact absurd h.1 (by decide)

end OpenAisg.Retap
