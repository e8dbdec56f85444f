import OpenAisg.Link.Bench

/-!
# What the one-shot operations raise

The callers of `scan`, `assign_address`, `connect`, `disconnect`, `probe_address` and
`scan_assigned` guard them with `except AisgError` only.  Whether anything else comes
out of a call can be read off the replies that the port delivered during it.

* `Operation` — one of the six, with its arguments.
* `Guarded` — a run returns or raises an `AisgError`, an `OSError` of the port aside.
* `Clear`, `Marred` — no reply of a run was bad, or one was; `bad` is a parameter, since
  the scan expects replies that the others do not.
* `Tells` — what a run raises tells whether a bad reply came in.  It has a rule for each
  construct, and so one short proof for each operation.
* `xidEncode_pair_iff` — the one error that comes from the arguments and not from the bus:
  a unique id that does not fit into the frame.
* `guarded_iff` — an operation is guarded exactly when the id fits and none of the replies
  is one that it does not expect.
* `Texted` — the `AisgError` that is caught has a text.
-/

namespace OpenAisg.Link

open Hdlc Prog

variable {W υ α β : Type} [Line W]

/-! ## Reading a run off its replies -/

/-- The log has gone on, and no reply in the new part is bad. -/
def Clear (bad : Bytes → Bool) (s t : LinkSt W υ) : Prop :=
  ∃ new, t.log = s.log ++ new ∧ ∀ f reply, .raw f reply ∈ new → bad reply = false

/-- The log has gone on, and a reply in the new part is bad. -/
def Marred (bad : Bytes → Bool) (s t : LinkSt W υ) : Prop :=
  ∃ new, t.log = s.log ++ new ∧ ∃ f reply, .raw f reply ∈ new ∧ bad reply = true

section Clear

variable {bad : Bytes → Bool} {s t u : LinkSt W υ}

omit [Line W]

/-- Nothing was logged. -/
theorem Clear.of_eq (h : t.log = s.log) : Clear bad s t :=
  ⟨[], by rw [h, List.append_nil], fun _ _ h => nomatch h⟩

/-- A reply that is not bad. -/
theorem Clear.concat {f : Frame} {reply : Bytes} (h : t.log = s.log ++ [.raw f reply])
    (hr : bad reply = false) : Clear bad s t := by
  refine ⟨_, h, fun g r hmem => ?_⟩
  cases List.mem_singleton.1 hmem
  exact hr

/-- One that is. -/
theorem Marred.concat {f : Frame} {reply : Bytes} (h : t.log = s.log ++ [.raw f reply])
    (hr : bad reply = true) : Marred bad s t :=
  ⟨_, h, f, reply, List.mem_singleton_self _, hr⟩

theorem Clear.trans (h : Clear bad s t) (h' : Clear bad t u) : Clear bad s u := by
  obtain ⟨new, ht, hnew⟩ := h
  obtain ⟨new', hu, hnew'⟩ := h'
  refine ⟨new ++ new', by rw [hu, ht, List.append_assoc], fun f reply hmem => ?_⟩
  exact (List.mem_append.1 hmem).elim (hnew f reply) (hnew' f reply)

/-- A good beginning does not help. -/
theorem Clear.marred (h : Clear bad s t) (h' : Marred bad t u) : Marred bad s u := by
  obtain ⟨new, ht, -⟩ := h
  obtain ⟨new', hu, f, reply, hmem, hr⟩ := h'
  exact ⟨new ++ new', by rw [hu, ht, List.append_assoc], f, reply, List.mem_append_right _ hmem, hr⟩

/-- A log is not both. -/
theorem Marred.not_clear (h : Marred bad s t) : ¬ Clear bad s t := by
  rintro ⟨new, ht, hnew⟩
  obtain ⟨new', ht', f, reply, hmem, hr⟩ := h
  rw [ht] at ht'
  rw [← List.append_cancel_left ht'] at hmem
  exact absurd hr (by rw [hnew f reply hmem]; decide)

end Clear

/-- A run that raises something which is not `ok` has met a bad reply, and any other run has not.
It raises at the first bad reply, so the log tells the one from the other. -/
def Tells (ok : Exn → Bool) (bad : Bytes → Bool) (c : LinkProg W υ α) : Prop :=
  ∀ s, wp c (fun _ t => Clear bad s t)
    (fun e t => if ok e then Clear bad s t else Marred bad s t) (Clear bad s) s

section Tells

variable {ok ok' : Exn → Bool} {bad : Bytes → Bool}

omit [Line W]

theorem tells_pure (a : α) : Tells ok bad (pure a : LinkProg W υ α) := fun _ => Clear.of_eq rfl

theorem tells_raise {e : Exn} (h : ok e = true) : Tells ok bad (raise e : LinkProg W υ α) := by
  intro s
  rw [wp_raise, if_pos h]
  exact Clear.of_eq rfl

theorem tells_setPeer (addr : Byte) (g : PeerState → PeerState) :
    Tells ok bad (setPeer addr g : LinkProg W υ Unit) := fun _ => Clear.of_eq rfl

theorem tells_onlyIf {b : Bool} {c : LinkProg W υ Unit} (h : Tells ok bad c) :
    Tells ok bad (onlyIf b c) := by
  cases b with
  | false => exact tells_pure ()
  | true => exact h

theorem tells_ite {p : Prop} [Decidable p] {c d : LinkProg W υ α} (hc : Tells ok bad c)
    (hd : Tells ok bad d) : Tells ok bad (if p then c else d) := by
  split_ifs
  · exact hc
  · exact hd

/-- What comes after a run without a bad reply. -/
theorem Tells.after {c : LinkProg W υ α} (h : Tells ok bad c) {s t : LinkSt W υ}
    (hs : Clear bad s t) :
    wp c (fun _ u => Clear bad s u) (fun e u => if ok e then Clear bad s u else Marred bad s u)
      (Clear bad s) t := by
  refine (h t).mono (fun _ u hu => hs.trans hu) (fun e u hu => ?_) fun u hu => hs.trans hu
  split_ifs at hu ⊢
  · exact hs.trans hu
  · exact hs.marred hu

/-- Two parts of which each tells, and the second begins only where the first met no bad reply. -/
theorem Tells.bind {c : LinkProg W υ α} {f : α → LinkProg W υ β} (hc : Tells ok bad c)
    (hf : ∀ a, Tells ok bad (f a)) : Tells ok bad (c >>= f) := by
  intro s
  rw [wp_bind]
  exact (hc s).mono (fun a t ht => (hf a).after ht) (fun _ _ h => h) fun _ h => h

/-- A handler takes up exceptions that are no sign of a bad reply. -/
theorem Tells.handle {c : LinkProg W υ α} {h : Exn → Option (LinkProg W υ α)}
    (hc : Tells ok' bad c) (hsome : ∀ e d, h e = some d → ok' e = true ∧ Tells ok bad d)
    (hnone : ∀ e, h e = none → ok e = ok' e) : Tells ok bad (handle c h) := by
  intro s
  rw [wp_handle]
  refine (hc s).mono (fun _ _ h => h) (fun e t ht => ?_) fun _ h => h
  cases he : h e with
  | none => exact (hnone e he) ▸ ht
  | some d =>
      obtain ⟨hok, hd⟩ := hsome e d he
      rw [if_pos hok] at ht
      exact hd.after ht

end Tells

/-! ## The operations that expect no garbled reply -/

section Garbled

/-- A garbled reply is a `FrameError`, which nobody here expects. -/
theorem tells_command (addr ctrl : Byte) (pl : Bytes) (t : Option Time) :
    Tells Exn.isOsOrAisg garbled (command addr ctrl pl t : LinkProg W υ (List Frame)) := by
  intro s
  refine wp_command (fun frames raw w h => ?_) (fun e raw w h => ?_) (fun msg w => ?_) fun w => ?_
  · refine Clear.concat rfl (Bool.eq_false_iff.2 fun hg => ?_)
    obtain ⟨e, he⟩ := (parseFrames_error_iff raw).2 hg
    rw [h] at he
    cases he
  · obtain ⟨msg, rfl⟩ := parseFrames_error h
    exact Marred.concat rfl ((parseFrames_error_iff raw).1 ⟨_, h⟩)
  · exact Clear.of_eq rfl
  · exact Clear.of_eq rfl

theorem tells_connect (addr : Byte) :
    Tells Exn.isOsOrAisg garbled (connect addr : LinkProg W υ Unit) :=
  (tells_command _ _ _ _).bind fun _ => tells_ite (tells_setPeer _ _) (tells_raise rfl)

theorem tells_disconnect (addr : Byte) (t : Option Time) :
    Tells Exn.isOsOrAisg garbled (disconnect addr t : LinkProg W υ Unit) :=
  (tells_command _ _ _ _).bind fun _ => tells_setPeer _ _

omit [Line W] in
theorem tells_onAisg {c d : LinkProg W υ α} (hc : Tells Exn.isOsOrAisg garbled c)
    (hd : Tells Exn.isOsOrAisg garbled d) : Tells Exn.isOsOrAisg garbled (handle c (onAisg d)) := by
  refine hc.handle (fun e d' h => ?_) fun _ _ => rfl
  unfold onAisg at h
  split_ifs at h with he
  cases h
  refine ⟨?_, hd⟩
  cases e <;> simp_all [Exn.isAisg, Exn.isOsOrAisg]

/-- An `AisgError` of the probe means that nobody answered; a garbled reply comes through. -/
theorem tells_probeAddress (addr : Byte) (hangUp : Bool) :
    Tells Exn.isOsOrAisg garbled (probeAddress addr hangUp : LinkProg W υ Bool) := by
  refine (tells_onAisg ((tells_connect _).bind fun _ => tells_pure _) (tells_pure _)).bind
    fun up => (tells_onlyIf ?_).bind fun _ => tells_pure _
  exact tells_onAisg (tells_disconnect _ _) (tells_pure _)

/-- So with each address that is probed. -/
theorem tells_scanAssigned (count : ℕ) :
    ∀ first, first + count ≤ 256 →
      Tells Exn.isOsOrAisg garbled (scanAssigned first count : LinkProg W υ (List Device)) := by
  unfold scanAssigned
  induction count with
  | zero => intro first _; exact tells_pure _
  | succ n ih =>
      intro first h
      unfold scanFrom
      rw [pyByte_ok (by omega)]
      exact (tells_pure _).bind fun _ => (tells_probeAddress _ _).bind fun _ =>
        (ih (first + 1) (by omega)).bind fun _ => tells_pure _

end Garbled

/-! ## `assign_address` -/

/-- What `xid_encode` raises is no error its callers expect. -/
theorem xidEncode_error {params : List (Byte × Bytes)} {e : Exn}
    (h : xidEncode params = .error e) : e.isOsOrAisg = false := by
  have hpy : ∀ {n : ℕ} {e : Exn}, pyByte n = .error e → e.isOsOrAisg = false := by
    intro n e h
    unfold pyByte at h
    split_ifs at h
    cases h
    rfl
  have hfield : ∀ {params : List (Byte × Bytes)} {e : Exn}, xidField params = .error e →
      e.isOsOrAisg = false := by
    intro params
    induction params with
    | nil => intro e h; cases h
    | cons p params ih =>
        intro e h
        rw [xidField] at h
        cases hn : pyByte p.2.length with
        | error e' => rw [hn] at h; cases h; exact hpy hn
        | ok n =>
            cases hp : xidField params with
            | error e' => rw [hn, hp] at h; cases h; exact ih hp
            | ok rest => rw [hn, hp] at h; cases h
  unfold xidEncode at h
  cases hf : xidField params with
  | error e' => rw [hf] at h; cases h; exact hfield hf
  | ok field =>
      cases hn : pyByte field.length with
      | error e' =>
          rw [hf] at h
          change (pyByte field.length >>= fun n => _) = _ at h
          rw [hn] at h
          cases h
          exact hpy hn
      | ok n =>
          rw [hf] at h
          change (pyByte field.length >>= fun n => _) = _ at h
          rw [hn] at h
          cases h

/-- Two parameters are encoded exactly if they fit into the parameter group. -/
theorem xidEncode_pair_iff {pi pi' : Byte} {v v' : Bytes} :
    (∃ payload, xidEncode [(pi, v), (pi', v')] = .ok payload) ↔ v.length + v'.length < 252 := by
  constructor
  · rintro ⟨payload, h⟩
    by_contra hlen
    cases hf : xidField [(pi, v), (pi', v')] with
    | error e => rw [xidEncode, hf] at h; cases h
    | ok field =>
        obtain ⟨-, rfl⟩ := xidField_ok_iff.1 hf
        have hpy : pyByte (xidBody [(pi, v), (pi', v')]).length =
            .error (.py .valueError "bytes must be in range(0, 256)") := by
          refine if_neg ?_
          simp [xidBody]
          omega
        rw [xidEncode, hf] at h
        change (pyByte (xidBody [(pi, v), (pi', v')]).length >>= fun n => _) = _ at h
        rw [hpy] at h
        cases h
  · intro h
    refine ⟨_, xidEncode_ok (fun p hp => ?_) ?_⟩
    · simp only [List.mem_cons, List.not_mem_nil, or_false] at hp
      rcases hp with rfl | rfl <;> simp only <;> omega
    · simp [xidBody]
      omega

/-- The reply to an assignment, when the id leaves room for the address. -/
theorem tells_assignAddress {dev : Device} {addr : ℕ} (ha : addr < 256)
    (h : dev.uniqueId.length < 251) :
    Tells Exn.isOsOrAisg garbled (assignAddress dev addr : LinkProg W υ Device) := by
  obtain ⟨payload, hp⟩ := (@xidEncode_pair_iff piUniqueId piHdlcAddr dev.uniqueId
    [BitVec.ofNat 8 addr]).2 (by simp only [List.length_singleton]; omega)
  unfold assignAddress
  rw [pyByte_ok ha]
  change Tells Exn.isOsOrAisg garbled (do
    let payload ← ofExcept (xidEncode [(piUniqueId, dev.uniqueId), (piHdlcAddr, [BitVec.ofNat 8 addr])])
    let frames ← command addrBroadcast (ctrlXid ||| pf) payload
    if frames.any fun f => f.ctrl &&& ~~~pf = ctrlXid && f.addr = BitVec.ofNat 8 addr then
      pure { dev with address := some (BitVec.ofNat 8 addr) }
    else raise (.aisgError ("no XID response to address assignment for " ++ dev.repr)))
  rw [hp]
  exact (tells_pure _).bind fun _ => (tells_command _ _ _ _).bind fun _ =>
    tells_ite (tells_pure _) (tells_raise rfl)

/-! ## `scan` -/

/-- The error is `hdlc.FrameError`. -/
def isFrameError : Exn → Bool
  | .frameError _ => true
  | _ => false

/-- Among the frames is an XID reply whose device type has no octet, and every XID
reply before it can be decoded. -/
def bareType : List Frame → Bool
  | [] => false
  | f :: fs =>
      if f.ctrl &&& ~~~pf ≠ ctrlXid then bareType fs
      else match xidDecode f.payload with
        | .error _ => false
        | .ok p => p.lookup piDeviceType = some [] || bareType fs

/-- The reply is one that `scan` does not expect. -/
def bareReply (reply : Bytes) : Bool :=
  match parseFrames reply with
  | .ok frames => bareType frames
  | .error _ => false

/-- What does not decode is a `FrameError`. -/
theorem xidDecode_error {payload : Bytes} {e : Exn} (h : xidDecode payload = .error e) :
    isFrameError e = true := by
  unfold xidDecode at h
  split at h
  · split_ifs at h
    cases h
    rfl
  · cases h
    rfl

/-- `scan_once` fails on the frames of a reply with a `FrameError`, or with an error of
its own where a device type has no octet. -/
theorem scanDevices_told (frames : List Frame) :
    match scanDevices frames with
    | .ok _ => bareType frames = false
    | .error e => if isFrameError e then bareType frames = false
        else e.isOsOrAisg = false ∧ bareType frames = true := by
  induction frames with
  | nil => rfl
  | cons f fs ih =>
      rw [scanDevices, bareType]
      split_ifs with hx
      · exact ih
      · cases hp : xidDecode f.payload with
        | error e => simp [xidDecode_error hp, Bind.bind, Except.bind]
        | ok p =>
            dsimp only [Bind.bind, Except.bind]
            cases hl : p.lookup piDeviceType with
            | none =>
                simp only [Option.getD_none, reduceCtorEq, decide_false, Bool.false_or]
                cases hs : scanDevices fs with
                | ok ds => rw [hs] at ih; exact ih
                | error e => rw [hs] at ih; exact ih
            | some ty =>
                cases ty with
                | nil => simp [isFrameError, Exn.isOsOrAisg, Exn.isAisg]
                | cons t ts =>
                    simp only [Option.getD_some, Option.some.injEq, reduceCtorEq, decide_false,
                      Bool.false_or]
                    cases hs : scanDevices fs with
                    | ok ds => rw [hs] at ih; exact ih
                    | error e => rw [hs] at ih; exact ih

/-- Inside `scan` a `FrameError` is no sign of a bad reply. -/
def scanOk (e : Exn) : Bool := e.isOsOrAisg || isFrameError e

/-- Inside a probe the checksum is no bad sign, and a bare device type is. -/
theorem tells_scanOnce {uid mask : Bytes} (h : uid.length + mask.length < 252) :
    Tells scanOk bareReply (scanOnce uid mask : LinkProg W υ (List Device)) := by
  obtain ⟨payload, hp⟩ := (@xidEncode_pair_iff piUniqueId piBitmask _ _).2 h
  intro s
  unfold scanOnce
  rw [hp, wp_bind, wp_ofExcept]
  dsimp only
  rw [wp_bind]
  refine wp_command (fun frames raw w hraw => ?_) (fun e raw w hraw => ?_) (fun msg w => ?_)
    fun w => ?_
  · have hbare : bareReply raw = bareType frames := by rw [bareReply, hraw]
    have htold := scanDevices_told frames
    rw [wp_ofExcept]
    cases hs : scanDevices frames with
    | ok ds =>
        rw [hs] at htold
        exact Clear.concat rfl (hbare.trans htold)
    | error e =>
        rw [hs] at htold
        dsimp only at htold ⊢
        unfold scanOk
        split_ifs at htold with hf
        · rw [if_pos (by simp [hf])]
          exact Clear.concat rfl (hbare.trans htold)
        · rw [if_neg (by simp [hf, htold.1])]
          exact Marred.concat rfl (hbare.trans htold.2)
  · obtain ⟨msg, rfl⟩ := parseFrames_error hraw
    exact Clear.concat rfl (by rw [bareReply, hraw])
  · exact Clear.of_eq rfl
  · exact Clear.of_eq rfl

/-- The patterns of `scan` grow by an octet at most with each level. -/
theorem tells_probe (maxDepth : ℕ) :
    ∀ left uid mask results, uid.length + left < 126 → mask.length + left < 126 →
      Tells Exn.isOsOrAisg bareReply (probe maxDepth left uid mask results : LinkProg W υ Results) := by
  intro left
  induction left with
  | zero =>
      intro uid mask results hu hm
      unfold probe
      refine ((tells_scanOnce (by omega)).bind fun _ => tells_pure _).handle (fun e d h => ?_)
        fun e h => ?_
      · cases e <;> simp only [reduceCtorEq, Option.some.injEq] at h
        subst h
        exact ⟨rfl, tells_raise rfl⟩
      · cases e <;> first | rfl | cases h
  | succ n ih =>
      intro uid mask results hu hm
      unfold probe
      refine ((tells_scanOnce (by omega)).bind fun _ => tells_pure _).handle (fun e d h => ?_)
        fun e h => ?_
      · cases e <;> simp only [reduceCtorEq, Option.some.injEq] at h
        subst h
        -- the pattern gets one octet longer at most
        have hgrow : ∀ data : Bytes, data.length + (n + 1) < 126 →
            (ljust data (if mask = [] ∨ mask.getLast? = some 0xFF then mask.length + 1
              else mask.length)).length + n < 126 := by
          intro data hd
          rw [length_ljust]
          split_ifs <;> omega
        have hbit : ∀ (data : Bytes) (bit : Byte), data.length + n < 126 →
            (orLast data bit).length + n < 126 := by
          intro data bit hd
          rw [length_orLast]
          exact hd
        exact ⟨rfl, (ih _ _ _ (hgrow _ hu) (hbit _ _ (hgrow _ hm))).bind fun _ =>
          ih _ _ _ (hbit _ _ (hgrow _ hu)) (hbit _ _ (hgrow _ hm))⟩
      · cases e <;> first | rfl | cases h

/-- The whole scan: patterns that grow by an octet a level stay far below what a frame can hold. -/
theorem tells_scanBus : Tells Exn.isOsOrAisg bareReply (scanBus : LinkProg W υ (List Device)) :=
  (tells_probe _ _ _ _ _ (by simp) (by simp)).bind fun _ => tells_pure _

/-! ## When a call is guarded by `except AisgError` -/

/-- The run returns or raises an `AisgError`, an `OSError` of the port aside. -/
def Guarded (c : LinkProg W υ α) (s : LinkSt W υ) : Prop :=
  wp c (fun _ _ => True) (fun e _ => e.isOsOrAisg = true) (fun _ => True) s

omit [Line W] in
/-- A run that tells is guarded exactly if its replies are clear. -/
theorem Tells.guarded {bad : Bytes → Bool} {c : LinkProg W υ α}
    (h : Tells Exn.isOsOrAisg bad c) (s : LinkSt W υ) :
    Guarded c s ↔ Clear bad s (c s).2 := by
  have hs := h s
  unfold Guarded
  unfold wp at hs ⊢
  rcases hc : c s with ⟨o, t⟩
  rw [hc] at hs
  cases o with
  | ret a => exact iff_of_true trivial hs
  | stall => exact iff_of_true trivial hs
  | raise e =>
      dsimp only at hs ⊢
      split_ifs at hs with he
      · exact iff_of_true he hs
      · exact iff_of_false he hs.not_clear

/-- One of the one-shot operations, and its arguments. -/
inductive Operation where
  | scan
  | assignAddress (dev : Device) (addr : ℕ)
  | connect (addr : Byte)
  | disconnect (addr : Byte) (timeout : Option Time)
  | probeAddress (addr : Byte) (hangUp : Bool)
  | scanAssigned (first count : ℕ)

namespace Operation

/-- The call; what it returns does not matter here. -/
def run : Operation → LinkProg W υ Unit
  | .scan => do let _ ← scanBus; pure ()
  | .assignAddress dev addr => do let _ ← Link.assignAddress dev addr; pure ()
  | .connect addr => Link.connect addr
  | .disconnect addr timeout => Link.disconnect addr timeout
  | .probeAddress addr hangUp => do let _ ← Link.probeAddress addr hangUp; pure ()
  | .scanAssigned first count => do let _ ← Link.scanAssigned first count; pure ()

/-- Its addresses are in 1..254. -/
def Addressed : Operation → Prop
  | .scan => True
  | .assignAddress _ addr => 1 ≤ addr ∧ addr ≤ 254
  | .connect addr | .disconnect addr _ | .probeAddress addr _ => 1 ≤ addr.toNat ∧ addr.toNat ≤ 254
  | .scanAssigned first count => 1 ≤ first ∧ first + count ≤ 255

/-- The unique id of a device fits into an XID frame beside the address. -/
def Fits : Operation → Prop
  | .assignAddress dev _ => dev.uniqueId.length ≤ 250
  | _ => True

/-- The replies that an operation does not expect: a device type without an octet for
`scan`, which reads a bad checksum as a collision, and a bad checksum for the others. -/
def unexpected : Operation → Bytes → Bool
  | .scan => bareReply
  | _ => garbled

end Operation

/-- Each of the six tells, by its own lemma. -/
theorem Operation.tells {o : Operation} (h : o.Addressed) (hfits : o.Fits) :
    Tells Exn.isOsOrAisg o.unexpected (o.run : LinkProg W υ Unit) := by
  cases o with
  | scan => exact tells_scanBus.bind fun _ => tells_pure _
  | assignAddress dev addr =>
      have hlen : dev.uniqueId.length ≤ 250 := hfits
      have haddr : addr ≤ 254 := h.2
      exact (tells_assignAddress (by omega) (by omega)).bind fun _ => tells_pure _
  | connect addr => exact tells_connect addr
  | disconnect addr timeout => exact tells_disconnect addr timeout
  | probeAddress addr hangUp => exact (tells_probeAddress addr hangUp).bind fun _ => tells_pure _
  | scanAssigned first count =>
      have hlast : first + count ≤ 255 := h.2
      exact (tells_scanAssigned count first (by omega)).bind fun _ => tells_pure _

/-- A unique id that does not fit is a `ValueError`. -/
theorem Operation.not_guarded {o : Operation} (hfits : ¬ o.Fits) (s : LinkSt W υ) :
    ¬ Guarded (o.run : LinkProg W υ Unit) s := by
  cases o with
  | assignAddress dev addr =>
      have hlen : ¬ dev.uniqueId.length ≤ 250 := hfits
      unfold Operation.run Guarded
      dsimp only
      unfold Link.assignAddress
      rw [wp_bind, wp_bind, wp_ofExcept]
      cases ha : pyByte addr with
      | error e =>
          unfold pyByte at ha
          split_ifs at ha
          cases ha
          dsimp only
          decide
      | ok a =>
          dsimp only
          rw [wp_bind, wp_ofExcept]
          cases hp : xidEncode [(piUniqueId, dev.uniqueId), (piHdlcAddr, [a])] with
          | error e => simp [xidEncode_error hp]
          | ok payload =>
              have hlt := xidEncode_pair_iff.1 ⟨payload, hp⟩
              simp only [List.length_singleton] at hlt
              omega
  | _ => exact absurd trivial hfits

/-- **What `except AisgError` guards.**  A one-shot operation returns or raises an `AisgError`
exactly when the unique id fits and no reply of the run is one that the operation does not expect.
The replies are those in the log, up to the one at which the operation ends. -/
theorem Operation.guarded_iff {o : Operation} (h : o.Addressed) (s : LinkSt W υ) :
    Guarded (o.run : LinkProg W υ Unit) s ↔ o.Fits ∧ Clear o.unexpected s (o.run s).2 := by
  by_cases hfits : o.Fits
  · rw [(Operation.tells h hfits).guarded s, and_iff_right hfits]
  · exact iff_of_false (Operation.not_guarded hfits s) fun hc => hfits hc.1

/-- A bench whose device answers every transfer with these octets. -/
def replying (reply : Bytes) : LinkSt (Bench Unit) Unit :=
  ⟨{ plan := { reply := fun _ _ => reply } }, {}, [], ()⟩

/-- A UA with its checksum is one that `connect` takes. -/
theorem Operation.guarded_connect :
    Guarded (Operation.run (.connect 1)) (replying (buildFrame ⟨1, ctrlUa, []⟩)) := by
  refine (Operation.guarded_iff (o := .connect 1) ⟨by decide, by decide⟩ _).2 ⟨trivial, ?_⟩
  refine ⟨[.raw ⟨1, ctrlSnrm ||| pf, []⟩ (buildFrame ⟨1, ctrlUa, []⟩)], rfl, fun f reply h => ?_⟩
  cases List.mem_singleton.1 h
  decide +kernel

/-- A frame whose checksum is wrong. -/
def badChecksum : Bytes := [flag, 0x01, 0x73, 0x00, 0x00, flag]

/-- An XID reply whose device type has no octet. -/
def untyped : Bytes := buildFrame ⟨0xFF, ctrlXid, [xidFi, xidGi, 0x02, piDeviceType, 0x00]⟩

/-- The operations raise what their callers do not expect. -/
theorem Operation.raises :
    (Operation.run (.connect 1) (replying badChecksum)).1 =
        .raise (.frameError "bad FCS in frame: 01 73 00 00") ∧
      (Operation.run (.disconnect 1 none) (replying badChecksum)).1 =
        .raise (.frameError "bad FCS in frame: 01 73 00 00") ∧
      (Operation.run (.probeAddress 1 false) (replying badChecksum)).1 =
        .raise (.frameError "bad FCS in frame: 01 73 00 00") ∧
      (Operation.run (.scanAssigned 1 8) (replying badChecksum)).1 =
        .raise (.frameError "bad FCS in frame: 01 73 00 00") ∧
      (Operation.run (.assignAddress ⟨[0x41], some 1, none, none⟩ 1) (replying badChecksum)).1 =
        .raise (.frameError "bad FCS in frame: 01 73 00 00") ∧
      (Operation.run .scan (replying untyped)).1 =
        .raise (.py .indexError "index out of range") ∧
      ¬ Guarded (Operation.run (.connect 1)) (replying badChecksum) := by
  have hconnect : (Operation.run (.connect 1) (replying badChecksum)).1 =
      .raise (.frameError "bad FCS in frame: 01 73 00 00") := by decide +kernel
  refine ⟨hconnect, ?_, ?_, ?_, ?_, ?_, fun h => ?_⟩
  · decide +kernel
  · decide +kernel
  · decide +kernel
  · decide +kernel
  · decide +kernel
  · exact absurd ((wp_iff.1 h).2.1 _ _ (Prod.ext hconnect rfl)) (by decide)

/-! ## The texts -/

/-- An error that is caught has a text. -/
def Texted (caught : Exn → Bool) (e : Exn) : Prop := caught e = true → e.str ≠ ""

/-- A text with something in front is not empty. -/
theorem texted_aisgError {caught : Exn → Bool} {text rest : String} (h : text ≠ "") :
    Texted caught (.aisgError (text ++ rest)) := by
  intro _ hstr
  exact h (String.append_eq_empty_iff.1 hstr).1

section Texted

theorem texted_of_not {caught : Exn → Bool} {e : Exn} (h : caught e = false) :
    Texted caught e := by
  intro he
  rw [h] at he
  cases he

theorem isAisg_of_not_isOsOrAisg {e : Exn} (h : e.isOsOrAisg = false) : e.isAisg = false := by
  cases e <;> simp_all [Exn.isOsOrAisg, Exn.isAisg]

omit [Line W] in
theorem raises_ofExcept {σ : Type} {P : Exn → Prop} {x : Except Exn α}
    (h : ∀ e, x = .error e → P e) : Raises P (ofExcept x : Prog σ Exn α) := by
  intro s
  rw [wp_ofExcept]
  cases x with
  | ok a => trivial
  | error e => exact h e rfl

theorem raises_command (addr ctrl : Byte) (pl : Bytes) (t : Option Time) :
    Raises (Texted Exn.isAisg) (command addr ctrl pl t : LinkProg W υ (List Frame)) := by
  intro s
  refine wp_command (fun _ _ _ _ => trivial) (fun e raw w h => ?_) (fun _ _ => texted_of_not rfl)
    fun _ => trivial
  obtain ⟨msg, rfl⟩ := parseFrames_error h
  exact texted_of_not rfl

theorem raises_connect (addr : Byte) :
    Raises (Texted Exn.isAisg) (connect addr : LinkProg W υ Unit) :=
  (raises_command _ _ _ _).bind fun _ => raises_ite (raises_modify _)
    (raises_raise (texted_aisgError (by decide)))

theorem raises_disconnect (addr : Byte) (t : Option Time) :
    Raises (Texted Exn.isAisg) (disconnect addr t : LinkProg W υ Unit) :=
  (raises_command _ _ _ _).bind fun _ => raises_modify _

omit [Line W] in
theorem raises_onAisg {P : Exn → Prop} {c d : LinkProg W υ α} (hc : Raises P c)
    (hd : Raises P d) : Raises P (handle c (onAisg d)) := by
  refine hc.handle (fun e d' h _ => ?_) fun _ _ h => h
  unfold onAisg at h
  split_ifs at h
  cases h
  exact hd

omit [Line W] in
theorem raises_pyByte (n : ℕ) :
    Raises (Texted Exn.isAisg) (ofExcept (pyByte n) : LinkProg W υ Byte) := by
  refine raises_ofExcept fun e h => ?_
  unfold pyByte at h
  split_ifs at h
  cases h
  exact texted_of_not rfl

omit [Line W] in
theorem raises_xidEncode (params : List (Byte × Bytes)) :
    Raises (Texted Exn.isAisg) (ofExcept (xidEncode params) : LinkProg W υ Bytes) :=
  raises_ofExcept fun _ h => texted_of_not (isAisg_of_not_isOsOrAisg (xidEncode_error h))

theorem raises_scanAssigned (first count : ℕ) :
    Raises (Texted Exn.isAisg) (scanAssigned first count : LinkProg W υ (List Device)) := by
  unfold scanAssigned
  induction count generalizing first with
  | zero => exact raises_pure _
  | succ count ih =>
      unfold scanFrom probeAddress
      refine (raises_pyByte _).bind fun a => Raises.bind (Raises.bind ?_ fun up => ?_) fun up =>
        (ih _).bind fun _ => raises_pure _
      · exact raises_onAisg ((raises_connect _).bind fun _ => raises_pure _) (raises_pure _)
      · refine Raises.bind (raises_onlyIf ?_) fun _ => raises_pure _
        exact raises_onAisg (raises_disconnect _ _) (raises_pure _)

theorem raises_assignAddress (dev : Device) (addr : ℕ) :
    Raises (Texted Exn.isAisg) (assignAddress dev addr : LinkProg W υ Device) :=
  (raises_pyByte _).bind fun _ => (raises_xidEncode _).bind fun _ => (raises_command _ _ _ _).bind
    fun _ => raises_ite (raises_pure _) (raises_raise (texted_aisgError (by decide)))

theorem raises_scanOnce (uid mask : Bytes) :
    Raises (Texted Exn.isAisg) (scanOnce uid mask : LinkProg W υ (List Device)) := by
  refine (raises_xidEncode _).bind fun _ => (raises_command _ _ _ _).bind fun frames =>
    raises_ofExcept fun e h => texted_of_not ?_
  have htold := scanDevices_told frames
  rw [h] at htold
  dsimp only at htold
  split_ifs at htold with hframe
  · cases e <;> simp_all [isFrameError, Exn.isAisg]
  · exact isAisg_of_not_isOsOrAisg htold.1

/-- Every error of the scan that is caught has a text. -/
theorem raises_probe (maxDepth left : ℕ) (uid mask : Bytes) (results : Results) :
    Raises (Texted Exn.isAisg) (probe maxDepth left uid mask results : LinkProg W υ Results) := by
  induction left generalizing uid mask results with
  | zero =>
      unfold probe
      refine ((raises_scanOnce _ _).bind fun _ => raises_pure _).handle (fun e d h _ => ?_)
        fun _ _ h => h
      cases e <;> simp only [reduceCtorEq, Option.some.injEq] at h
      subst h
      exact raises_raise fun _ => by decide
  | succ left ih =>
      unfold probe
      refine ((raises_scanOnce _ _).bind fun _ => raises_pure _).handle (fun e d h _ => ?_)
        fun _ _ h => h
      cases e <;> simp only [reduceCtorEq, Option.some.injEq] at h
      subst h
      exact (ih _ _ _).bind fun _ => ih _ _ _

theorem raises_scanBus (maxDepth : ℕ) :
    Raises (Texted Exn.isAisg) (scanBus maxDepth : LinkProg W υ (List Device)) :=
  (raises_probe _ _ _ _ _).bind fun _ => raises_pure _

end Texted

end OpenAisg.Link
