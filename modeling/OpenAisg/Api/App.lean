import OpenAisg.Session.Machine
import OpenAisg.Session.Tilt

/-!
# The tilt endpoint (`api/app.py`)

`PUT /api/v1/tilt` compares the angle with the limits in the antenna's device data before
it submits the command.  The device data is text that the worker has rendered, and the
endpoint reads it back.

* `fromHex`, `fromLittle`, `tiltLimits` — `_tilt_limits`; the octets are read unsigned.
* `HttpException`, `setTilt` — the endpoint, up to its call of `submit`.
* `checkTilt_ok_iff`, `admits_iff` — what the endpoint tests, and when it submits.
* `fromHex_hexSp` — what the sweep renders is read back as it was.
* `Holds`, `Known` — what the antenna holds as its limits, and that the worker has them.
* `tiltLimits_head` — at every head of the loop, what `_tilt_limits` makes of them.
* `setTilt_limits` — for limits from 0 on, the endpoint admits the angles between them and
  no others, once both are known; until then it admits every angle.
-/

namespace OpenAisg.Api

open Hdlc Link Retap Session Prog

/-! ## Reading the limits -/

/-- The value of a hexadecimal digit. -/
def hexVal (c : Char) : Option ℕ :=
  if 48 ≤ c.toNat ∧ c.toNat ≤ 57 then some (c.toNat - 48)
  else if 97 ≤ c.toNat ∧ c.toNat ≤ 102 then some (c.toNat - 87)
  else if 65 ≤ c.toNat ∧ c.toNat ≤ 70 then some (c.toNat - 55)
  else none

/-- The white space that `bytes.fromhex` skips between octets. -/
def isSpace (c : Char) : Bool := c.toNat = 32 || (9 ≤ c.toNat && c.toNat ≤ 13)

/-- The loop of `bytes.fromhex`. -/
def unhex : List Char → Option Bytes
  | [] => some []
  | [c] => if isSpace c then some [] else none
  | c :: d :: cs =>
      if isSpace c then unhex (d :: cs)
      else do
        let a ← hexVal c
        let b ← hexVal d
        let rest ← unhex cs
        some (BitVec.ofNat 8 (16 * a + b) :: rest)

/-- `bytes.fromhex(text.replace(" ", ""))`. -/
def fromHex (text : String) : Except Exn Bytes :=
  match unhex (text.toList.filter fun c => c.toNat ≠ 32) with
  | some data => .ok data
  | none => .error (.py .valueError "non-hexadecimal number found in fromhex() arg")

/-- `int.from_bytes(data, "little")`. -/
def fromLittle : Bytes → ℕ
  | [] => 0
  | b :: bs => b.toNat + 256 * fromLittle bs

/-- From here on a number is rounded to infinity. -/
def floatLimit : ℕ := 2 ^ 1024 - 2 ^ 970

/-- `n / 10`. -/
def tenths (n : ℕ) : Except Exn ℚ :=
  if n < 10 * floatLimit then .ok (n / 10)
  else .error (.py .overflowError "integer division result too large for a float")

/-- One limit: the device data under a key, in degrees. -/
def tiltLimit (dd : List (String × String)) (key : String) : Except Exn ℚ :=
  match dd.lookup key with
  | none => .error (.py .keyError key)
  | some text => do
      let data ← fromHex text
      tenths (fromLittle data)

/-- `_tilt_limits`. -/
def tiltLimits (wk : Worker) : Except Exn (Option (ℚ × ℚ)) :=
  match (do
    let lo ← tiltLimit wk.deviceData "0x07"
    let hi ← tiltLimit wk.deviceData "0x06"
    .ok (lo, hi) : Except Exn (ℚ × ℚ)) with
  | .ok (lo, hi) => .ok (if hi ≤ lo then none else some (lo, hi))
  | .error (.py .keyError _) | .error (.py .valueError _) => .ok none
  | .error e => .error e

/-! ## The endpoint -/

/-- What keeps an endpoint from its answer. -/
inductive HttpException where
  | notStarted
  | outOfRange (degrees lo hi : ℚ)
  /-- An exception that no handler expects. -/
  | internal (e : Exn)

/-- The status of the response. -/
def HttpException.status : HttpException → ℕ
  | notStarted => 503
  | outOfRange .. => 400
  | internal _ => 500

/-- The detail of the response; `str` renders a float. -/
def HttpException.detail (str : ℚ → String) : HttpException → String
  | notStarted => "worker not started"
  | outOfRange degrees lo hi =>
      "tilt " ++ str degrees ++ " outside the antenna's range " ++ str lo ++ "-" ++ str hi ++
        " degrees (from its device data)"
  | internal _ => "Internal Server Error"

/-- `_worker`. -/
def theWorker : Option Worker → Except HttpException Worker
  | none => .error .notStarted
  | some wk => .ok wk

/-- `PRIORITY_USER`. -/
def priorityUser : ℕ := 5

/-- The test of `set_tilt`. -/
def checkTilt (limits : Option (ℚ × ℚ)) (degrees : ℚ) : Except HttpException Unit :=
  match limits with
  | some (lo, hi) =>
      if lo ≤ degrees ∧ degrees ≤ hi then .ok () else .error (.outOfRange degrees lo hi)
  | none => .ok ()

/-- The `submit` of `set_tilt`, which reads the clock as `now`. -/
def submitTilt (degrees : ℚ) (now : Time) : ClientCall :=
  .submit .setTilt [("degrees", .float degrees)] priorityUser now (ms 20000)

/-- `set_tilt`, up to its call of `submit`. -/
def setTilt (worker : Option Worker) (degrees : ℚ) (now : Time) :
    Except HttpException ClientCall := do
  let wk ← theWorker worker
  let limits ← (tiltLimits wk).mapError .internal
  checkTilt limits degrees
  .ok (submitTilt degrees now)

/-- The endpoint submits exactly where the worker is there and the test does not raise. -/
theorem setTilt_ok_iff {wk : Worker} {degrees : ℚ} {now : Time} {call : ClientCall} :
    setTilt (some wk) degrees now = .ok call ↔
      ∃ limits, tiltLimits wk = .ok limits ∧ checkTilt limits degrees = .ok () ∧
        call = submitTilt degrees now := by
  show ((tiltLimits wk).mapError HttpException.internal >>= fun limits =>
    checkTilt limits degrees >>= fun _ => .ok (submitTilt degrees now)) = .ok call ↔ _
  cases tiltLimits wk with
  | error e => exact ⟨fun h => (nomatch h), fun ⟨_, h, _⟩ => nomatch h⟩
  | ok limits =>
      show (checkTilt limits degrees >>= fun _ => .ok (submitTilt degrees now)) = .ok call ↔ _
      cases hc : checkTilt limits degrees with
      | error e =>
          refine ⟨fun h => (nomatch h), ?_⟩
          rintro ⟨l, hl, hcl, -⟩
          cases hl
          cases hc.symm.trans hcl
      | ok u =>
          refine ⟨fun h => ⟨limits, rfl, hc, (Except.ok.inj h).symm⟩, ?_⟩
          rintro ⟨-, -, -, rfl⟩
          rfl

/-- The test passes exactly where there are no limits, or the angle lies between them. -/
theorem checkTilt_ok_iff {limits : Option (ℚ × ℚ)} {degrees : ℚ} :
    checkTilt limits degrees = .ok () ↔ ∀ l ∈ limits, l.1 ≤ degrees ∧ degrees ≤ l.2 := by
  cases limits with
  | none => exact ⟨fun _ _ h => (nomatch h), fun _ => rfl⟩
  | some l =>
      unfold checkTilt
      simp

/-- The endpoint submits the command. -/
def Admits (wk : Worker) (degrees : ℚ) : Prop := ∀ now, ∃ call, setTilt (some wk) degrees now = .ok call

theorem admits_iff {wk : Worker} {limits : Option (ℚ × ℚ)} (h : tiltLimits wk = .ok limits)
    (degrees : ℚ) : Admits wk degrees ↔ ∀ l ∈ limits, l.1 ≤ degrees ∧ degrees ≤ l.2 := by
  rw [← checkTilt_ok_iff]
  constructor
  · intro ha
    obtain ⟨call, hc⟩ := ha 0
    obtain ⟨l, hl, hcl, -⟩ := setTilt_ok_iff.1 hc
    cases h.symm.trans hl
    exact hcl
  · exact fun hc now => ⟨_, setTilt_ok_iff.2 ⟨limits, h, hc, rfl⟩⟩

/-! ## The rendering is read back -/

theorem hexVal_hexDigit : ∀ n < 16, hexVal (hexDigit 97 n) = some n := by decide

theorem isSpace_hexDigit : ∀ n < 16, isSpace (hexDigit 97 n) = false := by decide

theorem hexDigit_ne_space : ∀ n < 16, (hexDigit 97 n).toNat ≠ 32 := by decide

/-- The digits of an octet. -/
theorem unhex_octet (b : Byte) (cs : List Char) :
    unhex (hexDigit 97 (b.toNat / 16) :: hexDigit 97 (b.toNat % 16) :: cs) =
      (unhex cs).map (b :: ·) := by
  have hb := b.isLt
  have hhi : b.toNat / 16 < 16 := by omega
  have hlo : b.toNat % 16 < 16 := by omega
  have hval : BitVec.ofNat 8 (16 * (b.toNat / 16) + b.toNat % 16) = b := by
    rw [Nat.div_add_mod, BitVec.ofNat_toNat, BitVec.setWidth_eq]
  rw [unhex, isSpace_hexDigit _ hhi, hexVal_hexDigit _ hhi, hexVal_hexDigit _ hlo]
  cases unhex cs with
  | none => rfl
  | some rest => exact congrArg (fun x => some (x :: rest)) hval

theorem filter_octet (b : Byte) (cs : List Char) :
    (hexDigit 97 (b.toNat / 16) :: hexDigit 97 (b.toNat % 16) :: cs).filter
        (fun c => decide (c.toNat ≠ 32)) =
      hexDigit 97 (b.toNat / 16) :: hexDigit 97 (b.toNat % 16) ::
        cs.filter fun c => decide (c.toNat ≠ 32) := by
  have hb := b.isLt
  rw [List.filter_cons_of_pos (by simpa using hexDigit_ne_space _ (by omega)),
    List.filter_cons_of_pos (by simpa using hexDigit_ne_space _ (by omega))]

/-- **What the sweep renders is read back.** -/
theorem fromHex_hexSp (data : Bytes) : fromHex (hexSp data) = .ok data := by
  have h : unhex ((hexSp data).toList.filter fun c => decide (c.toNat ≠ 32)) = some data := by
    fun_induction hexSp data with
    | case1 => rfl
    | case2 b =>
        rw [String.toList_ofList, filter_octet, unhex_octet]
        rfl
    | case3 b bs hne ih =>
        rw [String.toList_append, String.toList_ofList, List.cons_append, List.cons_append,
          List.singleton_append, filter_octet, List.filter_cons_of_neg (by decide), unhex_octet, ih]
        rfl
  unfold fromHex
  rw [h]

/-! ## The limits of the antenna -/

/-- The antenna holds `lo` in field 0x07 and `hi` in field 0x06: this is what it answered
whenever one of them was read. -/
def Holds (lo hi : ℤ) (log : List WireEvent) : Prop :=
  ∀ p ∈ dataIn log, (p.1 = 0x07 → packInt16 lo = .ok p.2) ∧ (p.1 = 0x06 → packInt16 hi = .ok p.2)

/-- The worker has read both fields. -/
def Known (wk : Worker) : Prop :=
  (wk.deviceData.lookup "0x07").isSome = true ∧ (wk.deviceData.lookup "0x06").isSome = true

theorem hexDigit_inj : ∀ m < 16, ∀ n < 16, hexDigit 65 m = hexDigit 65 n → m = n := by decide

theorem hex2_inj {b c : Byte} (h : hex2 b = hex2 c) : b = c := by
  have hb := b.isLt
  have hc := c.isLt
  have hdigits := String.ofList_injective h
  simp only [List.cons.injEq, true_and, and_true] at hdigits
  have hhi := hexDigit_inj _ (by omega) _ (by omega) hdigits.1
  have hlo := hexDigit_inj _ (by omega) _ (by omega) hdigits.2
  exact BitVec.eq_of_toNat_eq (by omega)

theorem tenths_small {n : ℕ} (h : n < 65536) : tenths n = .ok ((n : ℚ) / 10) := by
  have hlimit : 65536 < 10 * floatLimit := by decide +kernel
  unfold tenths
  rw [if_pos (h.trans hlimit)]

instance (wk : Worker) : Decidable (Known wk) := inferInstanceAs (Decidable (_ ∧ _))

/-- A SetTilt message of an angle between the limits, or another message. -/
def Between (lo hi : ℤ) (payload : Bytes) : Prop :=
  ∀ data, tiltData payload = some data →
    ∃ a b, data = [a, b] ∧ lo ≤ unpackInt16 a b ∧ unpackInt16 a b ≤ hi

/-- The tenths of an angle between the limits lie between theirs, also when they are rounded. -/
theorem between_of_sets {lo hi : ℤ} {degrees : ℚ} (hlo : (lo : ℚ) / 10 ≤ degrees)
    (hhi : degrees ≤ (hi : ℚ) / 10) {payload : Bytes} (h : Sets (pyRound (degrees * 10)) payload) :
    Between lo hi payload := by
  intro data hd
  obtain ⟨a, b, hab, hval, -⟩ := packInt16_ok (h data hd)
  refine ⟨a, b, hab, ?_, ?_⟩
  · rw [hval]
    exact le_pyRound (by linarith)
  · rw [hval]
    exact pyRound_le (by linarith)

/-- A limit that is not negative is read as it is. -/
theorem tiltLimit_eq {dd : List (String × String)} {key : String} {data : Bytes} {n : ℤ}
    (hd : dd.lookup key = some (hexSp data)) (hn : 0 ≤ n) (hp : packInt16 n = .ok data) :
    tiltLimit dd key = .ok ((n : ℚ) / 10) := by
  obtain ⟨lo, hi, rfl, -, hu⟩ := packInt16_ok hp
  have hrange : n ≤ 32767 := by
    unfold packInt16 at hp
    split_ifs at hp with hn'
    exact hn'.2
  have hlittle : (fromLittle [lo, hi] : ℤ) = n := by
    show ((lo.toNat + 256 * (hi.toNat + 256 * 0) : ℕ) : ℤ) = n
    unfold unpackUint16 at hu
    omega
  have hsmall : tenths (fromLittle [lo, hi]) = .ok ((fromLittle [lo, hi] : ℚ) / 10) :=
    tenths_small (by omega)
  unfold tiltLimit
  rw [hd]
  simp only [fromHex_hexSp, bind, Except.bind, hsmall]
  rw [← hlittle, Int.cast_natCast]

section Runs

variable {W : Type} [Line W] [Clients W] {cfg : Config} {w : W} {s : St W}

/-- What is stored under the key of a field came in as this field. -/
theorem lookup_came {key : Byte} {text : String} (h : Head cfg w s)
    (ht : s.wk.deviceData.lookup (hex2 key) = some text) :
    ∃ data, (key, data) ∈ dataIn s.log ∧ text = hexSp data := by
  obtain ⟨l₁, l₂, hl, -⟩ := List.lookup_eq_some_iff.1 ht
  obtain ⟨p, hp, hkv⟩ := swept_head h (hex2 key, text) (by rw [hl]; simp)
  obtain ⟨fid, data⟩ := p
  obtain ⟨hkey, htext⟩ := Prod.mk.inj hkv
  rw [hex2_inj hkey]
  exact ⟨data, hp, htext⟩

/-- A field that is stored is read as the limit it is. -/
theorem tiltLimit_head (h : Head cfg w s) {key : Byte} {n : ℤ} (hn : 0 ≤ n)
    (hp : ∀ data, (key, data) ∈ dataIn s.log → packInt16 n = .ok data)
    (hk : (s.wk.deviceData.lookup (hex2 key)).isSome = true) :
    tiltLimit s.wk.deviceData (hex2 key) = .ok ((n : ℚ) / 10) := by
  obtain ⟨text, ht⟩ := Option.isSome_iff_exists.1 hk
  obtain ⟨data, hdata, rfl⟩ := lookup_came h ht
  exact tiltLimit_eq ht hn (hp data hdata)

/-- A field that is not stored is a `KeyError`. -/
theorem tiltLimit_missing {dd : List (String × String)} {key : String}
    (hk : ¬ (dd.lookup key).isSome = true) : tiltLimit dd key = .error (.py .keyError key) := by
  unfold tiltLimit
  rw [Option.not_isSome_iff_eq_none.1 hk]

/-- **The limits of the antenna**, once both are known, and none until then. -/
theorem tiltLimits_head (h : Head cfg w s) {lo hi : ℤ} (hh : Holds lo hi s.log) (hlo : 0 ≤ lo)
    (hlt : lo < hi) :
    (Known s.wk → tiltLimits s.wk = .ok (some ((lo : ℚ) / 10, (hi : ℚ) / 10))) ∧
      (¬ Known s.wk → tiltLimits s.wk = .ok none) := by
  have hmin : (s.wk.deviceData.lookup (hex2 0x07)).isSome = true →
      tiltLimit s.wk.deviceData (hex2 0x07) = .ok ((lo : ℚ) / 10) :=
    tiltLimit_head h hlo fun data hd => (hh _ hd).1 rfl
  have hmax : (s.wk.deviceData.lookup (hex2 0x06)).isSome = true →
      tiltLimit s.wk.deviceData (hex2 0x06) = .ok ((hi : ℚ) / 10) :=
    tiltLimit_head h (hlo.trans hlt.le) fun data hd => (hh _ hd).2 rfl
  have hord : ¬ (hi : ℚ) / 10 ≤ (lo : ℚ) / 10 := by
    have hcast : (lo : ℚ) < hi := by exact_mod_cast hlt
    linarith
  have h₇ : hex2 0x07 = "0x07" := by decide
  have h₆ : hex2 0x06 = "0x06" := by decide
  rw [h₇] at hmin
  rw [h₆] at hmax
  unfold tiltLimits
  refine ⟨fun hk => ?_, fun hk => ?_⟩
  · rw [hmin hk.1, hmax hk.2]
    exact congrArg Except.ok (if_neg hord)
  · by_cases hk₇ : (s.wk.deviceData.lookup "0x07").isSome = true
    · rw [hmin hk₇, tiltLimit_missing fun hk₆ => hk ⟨hk₇, hk₆⟩]
      rfl
    · rw [tiltLimit_missing hk₇]
      rfl

/-- **The tilt endpoint**, for limits from 0 on.  Once the worker has read both of them, it
admits an angle exactly when it lies between them, and the command it then submits writes
no SetTilt message of a value outside them.  Until then it admits every angle. -/
theorem setTilt_limits (h : Head cfg w s) {lo hi : ℤ} (hh : Holds lo hi s.log) (hlo : 0 ≤ lo)
    (hlt : lo < hi) (degrees : ℚ) :
    (Known s.wk →
      (Admits s.wk degrees ↔ (lo : ℚ) / 10 ≤ degrees ∧ degrees ≤ (hi : ℚ) / 10) ∧
        ∀ now call, setTilt (some s.wk) degrees now = .ok call →
          ∀ sh, ∀ cmd ∈ (Shared.apply sh call).queue, cmd ∉ sh.queue →
            ∀ u : St W, Writes (Between lo hi) u (execute cfg cmd u).2) ∧
      (¬ Known s.wk → Admits s.wk degrees) := by
  obtain ⟨hknown, hunknown⟩ := tiltLimits_head h hh hlo hlt
  refine ⟨fun hk => ?_, fun hk => ?_⟩
  · have hlimits := hknown hk
    refine ⟨(admits_iff hlimits degrees).trans (by simp), ?_⟩
    intro now call hcall sh cmd hcmd hnew u
    obtain ⟨l, hl, hcheck, rfl⟩ := setTilt_ok_iff.1 hcall
    cases hlimits.symm.trans hl
    obtain ⟨hmin, hmax⟩ := checkTilt_ok_iff.1 hcheck _ rfl
    have hcmd : cmd ∈ sh.queue ++ [⟨priorityUser, sh.nextSeq, .setTilt,
      [("degrees", .float degrees)], now + ms 20000⟩] := hcmd
    have hcmd := (List.mem_append.1 hcmd).resolve_left hnew
    rw [List.mem_singleton.1 hcmd]
    exact (writes_setTilt rfl rfl u).mono fun p hp => between_of_sets hmin hmax hp
  · exact (admits_iff (hunknown hk) degrees).2 fun _ hl => nomatch hl

end Runs

/-! ## Runs on the bench -/

/-- An antenna with these octets in fields 0x07 and 0x06.  The reply to a read of one field
may be lost. -/
def antenna (lo hi : Bytes) (lost : Option Byte := none) : Bench ClientCall :=
  { plan :=
    { answer := fun _ m => match m with
        | [code, _, _, fid] =>
            if code = getDeviceData then
              if lost = some fid then none
              else some (okResponse code (if fid = 0x07 then lo else if fid = 0x06 then hi else []))
            else deviceAnswer [] m
        | m => deviceAnswer [] m
      reply := fun _ => deviceReply } }

/-- The head after the first connection. -/
def sweptHead (b : Bench ClientCall) : St (Bench ClientCall) := runPasses attentive 1 (St.init b)

theorem head_sweptHead (b : Bench ClientCall) : Head attentive b (sweptHead b) :=
  reaches_runPasses attentive 1 _

/-- The values of the SetTilt messages in a log. -/
def tiltsOf (log : List WireEvent) : List ℤ :=
  log.filterMap fun
    | .tx f => match tiltData f.payload with
        | some [a, b] => some (unpackInt16 a b)
        | _ => none
    | _ => none

/-- The values that the command of an angle writes at a head. -/
def tiltsAt (s : St (Bench ClientCall)) (degrees : ℚ) : List ℤ :=
  tiltsOf (execute attentive ⟨priorityUser, 0, .setTilt, [("degrees", .float degrees)], ms 20000⟩
    s).2.log

/-- Limits of 0 and 10 degrees. -/
theorem setTilt_limits_ten :
    Admits (sweptHead (antenna [0, 0] [100, 0])).wk 5 ↔
      ((0 : ℤ) : ℚ) / 10 ≤ 5 ∧ (5 : ℚ) ≤ ((100 : ℤ) : ℚ) / 10 :=
  ((setTilt_limits (reaches_runPasses attentive 1 (St.init (antenna [0, 0] [100, 0])))
    (by unfold Holds; decide +kernel) le_rfl (by decide) 5).1 (by decide +kernel)).1

/-- **Angles outside the limits, and a rejected one between them.**  The reply to the read of
field 0x06 is lost, and 50 degrees go out to an antenna whose limit is 10.  Read unsigned, a
negative lower limit is above the upper one and both are dropped; two negative limits make
a range that no angle of the antenna lies in. -/
theorem limits_bypassed :
    (∃ s, Head attentive (antenna [0, 0] [100, 0] (some 0x06)) s ∧ s.wk.state = .connected ∧
      Holds 0 100 s.log ∧ Admits s.wk 50 ∧ tiltsAt s 50 = [500]) ∧
    (∃ s, Head attentive (antenna [0xCE, 0xFF] [50, 0]) s ∧ s.wk.state = .connected ∧
      Holds (-50) 50 s.log ∧ Admits s.wk 20 ∧ tiltsAt s 20 = [200]) ∧
    (∃ s, Head attentive (antenna [0x9C, 0xFF] [0xCE, 0xFF]) s ∧ s.wk.state = .connected ∧
      Holds (-100) (-50) s.log ∧ ¬ Admits s.wk (-15 / 2)) := by
  refine ⟨?_, ?_, ?_⟩
  · have hrun : (sweptHead (antenna [0, 0] [100, 0] (some 0x06))).wk.state = .connected ∧
        Holds 0 100 (sweptHead (antenna [0, 0] [100, 0] (some 0x06))).log ∧
        tiltLimits (sweptHead (antenna [0, 0] [100, 0] (some 0x06))).wk = .ok none ∧
        tiltsAt (sweptHead (antenna [0, 0] [100, 0] (some 0x06))) 50 = [500] := by
      unfold Holds
      decide +kernel
    obtain ⟨hst, hholds, hlimits, hout⟩ := hrun
    refine ⟨_, head_sweptHead _, hst, hholds, ?_, hout⟩
    exact (admits_iff hlimits 50).2 fun _ h => nomatch h
  · have hrun : (sweptHead (antenna [0xCE, 0xFF] [50, 0])).wk.state = .connected ∧
        Holds (-50) 50 (sweptHead (antenna [0xCE, 0xFF] [50, 0])).log ∧
        tiltLimits (sweptHead (antenna [0xCE, 0xFF] [50, 0])).wk = .ok none ∧
        tiltsAt (sweptHead (antenna [0xCE, 0xFF] [50, 0])) 20 = [200] := by
      unfold Holds
      decide +kernel
    obtain ⟨hst, hholds, hlimits, hout⟩ := hrun
    refine ⟨_, head_sweptHead _, hst, hholds, ?_, hout⟩
    exact (admits_iff hlimits 20).2 fun _ h => nomatch h
  · have hrun : (sweptHead (antenna [0x9C, 0xFF] [0xCE, 0xFF])).wk.state = .connected ∧
        Holds (-100) (-50) (sweptHead (antenna [0x9C, 0xFF] [0xCE, 0xFF])).log ∧
        tiltLimits (sweptHead (antenna [0x9C, 0xFF] [0xCE, 0xFF])).wk =
          .ok (some (65436 / 10, 65486 / 10)) := by
      unfold Holds
      decide +kernel
    obtain ⟨hst, hholds, hlimits⟩ := hrun
    refine ⟨_, head_sweptHead _, hst, hholds, fun h => ?_⟩
    have hin := (admits_iff hlimits (-15 / 2)).1 h _ rfl
    norm_num at hin

end OpenAisg.Api
