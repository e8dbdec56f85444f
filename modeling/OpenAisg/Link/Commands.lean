import OpenAisg.Link.Line

/-!
# The one-shot path: scan, address assignment, connection management

`AisgLink._command` sends one XID or U-frame and parses whatever raw octets come
back; a bad checksum anywhere in the reply is a `FrameError`, which `scan` reads
as a bus collision and nobody else expects.

* `xfer`, `command` — the one transfer all of these share: nothing is numbered,
  nothing is retried, and the sequence state of no peer is consulted.
* `scanOnce`, `probe`, `scanBus` — the scan, a recursion over bits of the unique
  id that halves the devices until a reply comes through whole.
* `assignAddress`, `connect`, `disconnect`, `probeAddress`, `scanAssigned` — the
  rest of the path.  A `connect` that is answered and a `disconnect` whose reply
  parses start the numbering over.
* `openError` — what the constructor makes of a port that does not open.
* `wp_command`, `wp_disconnect` — what the path does, for proofs that need the
  reply.
* `OneShot` — the three things the path can do to the state, and from them, for
  proofs that do not need the reply, that every operation stays in a relation
  which allows those three (`moves_scanBus`, `moves_connect`, …).
-/

namespace OpenAisg.Link

open Hdlc Prog

variable {W υ : Type} [Line W]

/-- `link.Device`. -/
structure Device where
  uniqueId : Bytes
  deviceType : Option Byte
  vendor : Option Bytes
  address : Option Byte := none
  deriving DecidableEq, Repr

/-- `data.decode("ascii", "replace")`. -/
def decodeAscii (data : Bytes) : String :=
  String.ofList (data.map fun b =>
    if b.toNat < 128 then Char.ofNat b.toNat else Char.ofNat 0xFFFD)

/-- `Device.__repr__`, for an identity of plain text. -/
def Device.repr (d : Device) : String :=
  "<Device vendor=" ++ (d.vendor.map decodeAscii).getD "??" ++ " uid='" ++
    decodeAscii d.uniqueId ++ "' type=" ++
    (d.deviceType.map fun t => toString t.toNat).getD "None" ++ " addr=" ++
    (d.address.map fun a => toString a.toNat).getD "None" ++ ">"

/-- `_xfer`: the frame goes out, and the octets of the reply come back as the port found them. -/
def xfer (f : Frame) (timeout : Option Time) : LinkProg W υ Bytes := do
  let own ← Prog.read (·.link.timeout)
  let budget := match timeout with
    | some t => if t = 0 then own else t
    | none => own
  let raw ← portOp (Line.xfer f budget) []
  logEvent (.raw f raw)
  pure raw

/-- `_command`: a transfer whose reply is parsed, and logged as it came. -/
def command (addr ctrl : Byte) (payload : Bytes := []) (timeout : Option Time := none) :
    LinkProg W υ (List Frame) := do
  let raw ← xfer ⟨addr, ctrl, payload⟩ timeout
  ofExcept (parseFrames raw)

/-! ## Device scan and address assignment -/

/-- What `scan_once` makes of the frames of a reply: a device for each XID response, and an error
for a payload that is none or has an empty device type. -/
def scanDevices : List Frame → Except Exn (List Device)
  | [] => .ok []
  | f :: fs =>
      if f.ctrl &&& ~~~pf ≠ ctrlXid then scanDevices fs
      else do
        let p ← xidDecode f.payload
        match (p.lookup piDeviceType).getD [0xFF] with
        | [] => .error (.py .indexError "index out of range")
        | t :: _ =>
            let found ← scanDevices fs
            .ok (⟨(p.lookup piUniqueId).getD [], some t, p.lookup piVendorCode, none⟩ :: found)

/-- `scan_once`. -/
def scanOnce (uid mask : Bytes) : LinkProg W υ (List Device) := do
  let payload ← ofExcept (xidEncode [(piUniqueId, uid), (piBitmask, mask)])
  let frames ← command addrBroadcast (ctrlXid ||| pf) payload
  ofExcept (scanDevices frames)

/-- `data.ljust(n, b"\x00")`. -/
def ljust (data : Bytes) (n : ℕ) : Bytes := data ++ List.replicate (n - data.length) 0

/-- `data[-1] |= bit`, on octets that are not empty. -/
def orLast (data : Bytes) (bit : Byte) : Bytes :=
  data.dropLast ++ (data.getLast?.map (· ||| bit)).toList

theorem length_ljust (data : Bytes) (n : ℕ) : (ljust data n).length = max data.length n := by
  rw [ljust, List.length_append, List.length_replicate]
  omega

theorem orLast_concat (data : Bytes) (x b : Byte) : orLast (data ++ [x]) b = data ++ [x ||| b] := by
  simp [orLast]

theorem length_orLast (data : Bytes) (b : Byte) : (orLast data b).length = data.length := by
  rcases List.eq_nil_or_concat data with rfl | ⟨init, x, rfl⟩
  · rfl
  · rw [List.concat_eq_append, orLast_concat, List.length_append, List.length_append,
      List.length_singleton, List.length_singleton]

/-- The devices found so far, keyed by unique id. -/
abbrev Results := List (Bytes × Device)

/-- The recursion of `scan`, with `left` levels of bisection left below the depth limit.  A reply
that does not parse is taken for a collision, and both halves are asked. -/
def probe (maxDepth : ℕ) : ℕ → Bytes → Bytes → Results → LinkProg W υ Results
  | left, uid, mask, results =>
      handle (do
        let devs ← scanOnce uid mask
        pure (devs.foldl (fun r d => dictSet d.uniqueId d r) results))
      (fun e => match e with
        | .frameError _ => some (match left with
            | 0 => raise (.aisgError "scan collision could not be resolved")
            | n + 1 => do
                let depth := maxDepth - (n + 1)
                let nbytes := if mask = [] ∨ mask.getLast? = some 0xFF then mask.length + 1
                  else mask.length
                let bit : Byte := 1 <<< (7 - depth % 8)
                let baseUid := ljust uid nbytes
                let baseMask := orLast (ljust mask nbytes) bit
                let r₀ ← probe maxDepth n baseUid baseMask results
                probe maxDepth n (orLast baseUid bit) baseMask r₀)
        | _ => none)

/-- `scan`. -/
def scanBus (maxDepth : ℕ := 24) : LinkProg W υ (List Device) := do
  let results ← probe maxDepth maxDepth [] [] []
  pure (results.map Prod.snd)

/-- `assign_address`; the device comes back with its new address. -/
def assignAddress (dev : Device) (addr : ℕ) : LinkProg W υ Device := do
  let a ← ofExcept (pyByte addr)
  let payload ← ofExcept (xidEncode [(piUniqueId, dev.uniqueId), (piHdlcAddr, [a])])
  let frames ← command addrBroadcast (ctrlXid ||| pf) payload
  if frames.any fun f => f.ctrl &&& ~~~pf = ctrlXid && f.addr = a then
    pure { dev with address := some a }
  else raise (.aisgError ("no XID response to address assignment for " ++ dev.repr))

/-! ## Connection management -/

/-- `connect`: an SNRM, and the numbering starts over when a UA from the address comes back. -/
def connect (addr : Byte) : LinkProg W υ Unit := do
  let frames ← command addr (ctrlSnrm ||| pf)
  if frames.any fun f => f.addr = addr && f.ctrl &&& ~~~pf = ctrlUa then
    setPeer addr fun p => { p.reset with connected := true }
  else raise (.aisgError ("no UA to SNRM from address " ++ hex2 addr))

/-- The frame `disconnect` sends. -/
def discFrame (addr : Byte) : Frame := ⟨addr, ctrlDisc ||| pf, []⟩

/-- `disconnect`: a DISC, and the numbering starts over whatever came back, if it parses. -/
def disconnect (addr : Byte) (timeout : Option Time := none) : LinkProg W υ Unit := do
  let _ ← command addr (ctrlDisc ||| pf) [] timeout
  setPeer addr fun p => { p.reset with connected := false }

/-- `except AisgError: …`. -/
def onAisg {σ α : Type} (d : Prog σ Exn α) (e : Exn) : Option (Prog σ Exn α) :=
  if e.isAisg then some d else none

/-- `probe_address`. -/
def probeAddress (addr : Byte) (hangUp : Bool := false) : LinkProg W υ Bool := do
  let up ← handle (do connect addr; pure true) (onAisg (pure false))
  onlyIf (up && hangUp) (handle (disconnect addr) (onAisg (pure ())))
  pure up

/-- The loop of `scan_assigned`. -/
def scanFrom : ℕ → ℕ → LinkProg W υ (List Device)
  | _, 0 => pure []
  | first, count + 1 => do
      let a ← ofExcept (pyByte first)
      let up ← probeAddress a
      let rest ← scanFrom (first + 1) count
      pure (if up then ⟨[], none, none, some a⟩ :: rest else rest)

/-- `scan_assigned`. -/
def scanAssigned (first count : ℕ) : LinkProg W υ (List Device) := scanFrom first count

/-! ## Opening the port -/

/-- The errors of `serial.Serial` that `__init__` reads as contention
(`EWOULDBLOCK`, `EAGAIN`, `EACCES`). -/
def busyErrnos : List ℕ := [11, 13]

/-- Those it reads as a dead adapter (`EIO`, `ENXIO`, `ENODEV`, `EPROTO`). -/
def lostErrnos : List ℕ := [5, 6, 19, 71]

/-- The exception `__init__` turns a failed open into: one class for contention, one for an adapter
that is gone, one for the rest. -/
def openError (port : String) (e : SerialException) : Exn :=
  match e.errno with
  | some n =>
      if n ∈ busyErrnos then .portBusy (port ++
        " is locked by another process (the openaisg service holds it while its AISG session is up)")
      else if n ∈ lostErrnos then .portLost (port ++
        " exists but the adapter is not responding (" ++ e.msg ++ ")")
      else .aisgError ("cannot open " ++ port ++ ": " ++ e.msg)
  | none => .aisgError ("cannot open " ++ port ++ ": " ++ e.msg)

/-! ## What the one-shot path does -/

section Wp

variable {E : Exn → LinkSt W υ → Prop} {S : LinkSt W υ → Prop} {s : LinkSt W υ}

/-- `_command` sends, logs the reply and parses it. -/
theorem wp_command {addr ctrl : Byte} {pl : Bytes} {t : Option Time}
    {Q : List Frame → LinkSt W υ → Prop}
    (reply : ∀ frames raw w, parseFrames raw = .ok frames → Q frames { s with
      world := w, log := s.log ++ [.raw ⟨addr, ctrl, pl⟩ raw] })
    (garbled : ∀ e raw w, parseFrames raw = .error e → E e { s with
      world := w, log := s.log ++ [.raw ⟨addr, ctrl, pl⟩ raw] })
    (fault : ∀ msg w, E (.osError msg) { s with world := w })
    (stalled : ∀ w, S { s with world := w }) : wp (command addr ctrl pl t) Q E S s := by
  unfold command xfer
  rw [wp_bind, wp_bind, wp_read, wp_bind, wp_portOp]
  refine wp_any (fun raw w => ?_) (fun msg w => ?_) (fun w => ?_) _
  · rw [wp_bind, wp_logEvent, wp_pure, wp_ofExcept]
    cases hraw : parseFrames raw with
    | ok frames => exact reply frames raw w hraw
    | error e => exact garbled e raw w hraw
  · simpa using fault msg w
  · simpa using stalled w

/-- A DISC ends in the reply's `FrameError` if the reply is garbled, in the port's
`OSError`, or with the peer's state reset. -/
theorem wp_disconnect {addr : Byte} {Q : Unit → LinkSt W υ → Prop} :
    wp (disconnect addr) Q E S s ↔
      wp (Line.xfer (discFrame addr) s.link.timeout : Prog W String Bytes)
        (fun raw w => match parseFrames raw with
          | .ok _ => wp (setPeer addr fun p => { p.reset with connected := false }) Q E S
              { s with world := w, log := s.log ++ [.raw (discFrame addr) raw] }
          | .error e => E e { s with world := w, log := s.log ++ [.raw (discFrame addr) raw] })
        (fun msg w => E (.osError msg) { s with world := w })
        (fun w => S { s with world := w }) s.world := by
  have hframe : (⟨addr, ctrlDisc ||| pf, []⟩ : Frame) = discFrame addr := rfl
  unfold disconnect command xfer
  rw [wp_bind, wp_bind, wp_bind, wp_read, wp_bind, wp_portOp, hframe]
  simp only [List.append_nil]
  have hpost : ∀ raw w, wp (do
        logEvent (.raw (discFrame addr) raw)
        pure raw : LinkProg W υ Bytes) (fun raw t => wp (ofExcept (parseFrames raw))
          (fun _ t => wp (setPeer addr fun p => { p.reset with connected := false }) Q E S t) E S t)
        E S { s with world := w } ↔
      match parseFrames raw with
      | .ok _ => wp (setPeer addr fun p => { p.reset with connected := false }) Q E S
          { s with world := w, log := s.log ++ [.raw (discFrame addr) raw] }
      | .error e => E e { s with world := w, log := s.log ++ [.raw (discFrame addr) raw] } := by
    intro raw w
    rw [wp_bind, wp_logEvent, wp_pure, wp_ofExcept]
    cases parseFrames raw <;> rfl
  simp only [hpost]

end Wp

/-! ## What the one-shot path can change -/

/-- A handler of `AisgError` stays in the relation when both of its bodies do. -/
theorem moves_onAisg {σ α : Type} {R : σ → σ → Prop} [IsPreorder σ R] {c d : Prog σ Exn α}
    (hc : Moves R c) (hd : Moves R d) : Moves R (handle c (onAisg d)) := by
  refine moves_handle hc fun e d' h => ?_
  unfold onAisg at h
  split_ifs at h
  cases h
  exact hd

section Moves

variable {R : LinkSt W υ → LinkSt W υ → Prop} [IsPreorder (LinkSt W υ) R]

/-- What the one-shot operations are made of: the world moves, replies are
logged, and a peer's state is reset. -/
structure OneShot (R : LinkSt W υ → LinkSt W υ → Prop) : Prop where
  world : ∀ s w, R s { s with world := w }
  raw : ∀ s f r, R s { s with log := s.log ++ [.raw f r] }
  reset : ∀ addr c, Moves R (setPeer addr fun p => { p.reset with connected := c })

theorem moves_xfer (h : OneShot R) (f : Frame) (t : Option Time) : Moves R (xfer f t) := by
  unfold xfer
  refine moves_bind (moves_read _) fun own => ?_
  refine moves_bind (moves_portOp h.world fun s w => ?_) fun raw => ?_
  · simpa using h.world s w
  · exact moves_bind (moves_logEvent fun s => h.raw s f raw) fun _ => moves_pure _

theorem moves_command (h : OneShot R) (addr ctrl : Byte) (pl : Bytes) (t : Option Time) :
    Moves R (command addr ctrl pl t) :=
  moves_bind (moves_xfer h _ t) fun _ => moves_ofExcept _

theorem moves_scanOnce (h : OneShot R) (uid mask : Bytes) : Moves R (scanOnce uid mask) :=
  moves_bind (moves_ofExcept _) fun _ =>
    moves_bind (moves_command h _ _ _ _) fun _ => moves_ofExcept _

/-- The scan's recursion, by induction on the levels that are left. -/
theorem moves_probe (h : OneShot R) (maxDepth : ℕ) :
    ∀ left uid mask results, Moves R (probe maxDepth left uid mask results) := by
  intro left
  induction left with
  | zero =>
      intro uid mask results
      unfold probe
      refine moves_handle (moves_bind (moves_scanOnce h _ _) fun _ => moves_pure _) ?_
      intro e d hd
      cases e <;> simp only [reduceCtorEq, Option.some.injEq] at hd
      subst hd
      exact moves_raise _
  | succ n ih =>
      intro uid mask results
      unfold probe
      refine moves_handle (moves_bind (moves_scanOnce h _ _) fun _ => moves_pure _) ?_
      intro e d hd
      cases e <;> simp only [reduceCtorEq, Option.some.injEq] at hd
      subst hd
      exact moves_bind (ih _ _ _) fun _ => ih _ _ _

theorem moves_scanBus (h : OneShot R) (maxDepth : ℕ) : Moves R (scanBus maxDepth) :=
  moves_bind (moves_probe h _ _ _ _ _) fun _ => moves_pure _

theorem moves_assignAddress (h : OneShot R) (dev : Device) (addr : ℕ) :
    Moves R (assignAddress dev addr) :=
  moves_bind (moves_ofExcept _) fun _ => moves_bind (moves_ofExcept _) fun _ =>
    moves_bind (moves_command h _ _ _ _) fun _ =>
      moves_ite (fun _ => moves_pure _) fun _ => moves_raise _

theorem moves_connect (h : OneShot R) (addr : Byte) : Moves R (connect addr) :=
  moves_bind (moves_command h _ _ _ _) fun _ =>
    moves_ite (fun _ => h.reset addr true) fun _ => moves_raise _

theorem moves_disconnect (h : OneShot R) (addr : Byte) (t : Option Time) :
    Moves R (disconnect addr t) :=
  moves_bind (moves_command h _ _ _ _) fun _ => h.reset addr false

theorem moves_probeAddress (h : OneShot R) (addr : Byte) (d : Bool) :
    Moves R (probeAddress addr d) := by
  unfold probeAddress
  refine moves_bind (moves_onAisg (moves_bind (moves_connect h _) fun _ => moves_pure _)
    (moves_pure _)) fun up => moves_bind (moves_onlyIf fun _ => ?_) fun _ => moves_pure _
  exact moves_onAisg (moves_disconnect h _ _) (moves_pure _)

theorem moves_scanAssigned (h : OneShot R) (first count : ℕ) :
    Moves R (scanAssigned first count) := by
  unfold scanAssigned
  induction count generalizing first with
  | zero => exact moves_pure _
  | succ n ih =>
      exact moves_bind (moves_ofExcept _) fun _ => moves_bind (moves_probeAddress h _ _) fun _ =>
        moves_bind (ih _) fun _ => moves_pure _

end Moves

end OpenAisg.Link
