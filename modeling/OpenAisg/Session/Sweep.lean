import OpenAisg.Link.Faults
import OpenAisg.Session.Run

/-!
# What the device-data sweep reads

`_sweep_device_data` files the answer to each GetDeviceData under the number of the field
it asked for, and skips a field that fails.  Whoever reads the device data later relies on
nothing being in it that no device has said.

* `datum`, `dataIn` — the fields and octets that came in, read off the log.
* `Swept` — a dictionary made of them.  It stays one when the log goes on.
* `Logging` — a transport whose log has every response that it returned.
* `Logging.getDeviceData` — one field, and what the log has of it.
* `wp_sweepFrom`, `Logging.callCommand` — the sweep, and the command, return what came in.
-/

namespace OpenAisg.Session

open Hdlc Link Retap Prog

variable {W : Type} [Line W] [Clients W]

/-! ## What came in -/

/-- An OK response to GetDeviceData: the field that was asked for, and its octets. -/
def datum : WireEvent → Option (Byte × Bytes)
  | .accepted [code, _, _, fid] f =>
      if code = getDeviceData then
        match procResult none code f.payload with
        | .ok d => some (fid, d)
        | .error _ => none
      else none
  | _ => none

/-- The device data that came in. -/
def dataIn (log : List WireEvent) : List (Byte × Bytes) := log.filterMap datum

/-- Every entry is the rendering of something that came in. -/
def Swept (log : List WireEvent) (d : List (String × String)) : Prop :=
  ∀ kv ∈ d, ∃ p ∈ dataIn log, kv = (hex2 p.1, hexSp p.2)

/-- What came in stays so. -/
theorem dataIn_mono {log log' : List WireEvent} (h : log <+: log') : dataIn log <+: dataIn log' :=
  h.filterMap datum

/-- An empty dictionary. -/
theorem swept_nil (log : List WireEvent) : Swept log [] := fun _ h => nomatch h

/-- A dictionary of what came in, when the log has gone on. -/
theorem Swept.mono {log log' : List WireEvent} {d : List (String × String)} (h : Swept log d)
    (hl : log <+: log') : Swept log' d := by
  intro kv hkv
  obtain ⟨p, hp, hkv⟩ := h kv hkv
  exact ⟨p, (dataIn_mono hl).subset hp, hkv⟩

/-- Two of them. -/
theorem Swept.append {log : List WireEvent} {d d' : List (String × String)} (h : Swept log d)
    (h' : Swept log d') : Swept log (d ++ d') := fun kv hkv =>
  (List.mem_append.1 hkv).elim (h kv) (h' kv)

/-! ## The sweep -/

/-- The responses that a transport returns are in its log. -/
structure Logging (r : Ret (St W)) : Prop where
  antenna : r.antenna = none
  request : ∀ m t s, wp (r.request m t)
    (fun pl u => s.log <+: u.log ∧ ∃ f, .accepted m f ∈ u.log ∧ f.payload = pl)
    (fun _ u => s.log <+: u.log) (fun _ => True) s

omit [Clients W] in
/-- The transport of the session logs its responses: the link object does. -/
theorem logging_ret (cfg : Config) (a : Option Byte) (p : ℕ → Bool → Worker → Worker) :
    Logging (W := W) (ret cfg a p) := by
  refine ⟨rfl, fun m t s => ?_⟩
  show wp (transport cfg p a m t) _ _ _ s
  unfold transport
  rw [wp_bind]
  cases a with
  | none => exact List.prefix_rfl
  | some a =>
      refine wp_onLink (fun _ _ _ => List.prefix_rfl) fun l _ => ?_
      refine (exchange_told cfg.fuel _).mono (fun pl b hb => ?_) (fun e b hb => ?_) fun _ h => h
      · obtain ⟨u, f, ⟨new, hu, -⟩, hlog, hf⟩ := hb
        refine ⟨⟨new ++ [.accepted m f], ?_⟩, f, ?_, hf⟩
        · show s.log ++ (new ++ [.accepted m f]) = b.log
          rw [hlog, hu, List.append_assoc]
          rfl
        · show WireEvent.accepted m f ∈ b.log
          rw [hlog]
          exact List.mem_append_right _ (List.mem_singleton_self _)
      · rcases hb with ⟨-, new, hb, -⟩ | ⟨-, new, hb, -⟩
        · exact ⟨new, hb.symm⟩
        · exact ⟨new, hb.symm⟩

section Sweep

variable {r : Ret (St W)} (h : Logging r)

include h

omit [Line W] [Clients W] in
/-- A field that is read came in. -/
theorem Logging.getDeviceData (fid : ℕ) (s : St W) :
    wp (r.getDeviceData fid)
      (fun d u => s.log <+: u.log ∧ (BitVec.ofNat 8 fid, d) ∈ dataIn u.log)
      (fun _ u => s.log <+: u.log) (fun _ => True) s := by
  have hmsg : procMessage none Retap.getDeviceData [BitVec.ofNat 8 fid] =
      .ok [Retap.getDeviceData, 1, 0, BitVec.ofNat 8 fid] := by
    unfold procMessage packUint16
    simp only [Option.toList_none, List.length_nil, List.length_singleton, Nat.zero_add]
    rfl
  unfold Ret.getDeviceData pyByte
  rw [wp_bind, wp_ofExcept]
  by_cases hf : fid < 256
  swap
  · simpa only [if_neg hf] using List.prefix_rfl
  simp only [if_pos hf]
  unfold Ret.proc Ret.code
  rw [h.antenna, if_neg (by decide)]
  rw [hmsg, wp_bind, wp_ofExcept]
  dsimp only
  rw [wp_bind]
  refine (h.request _ _ s).mono (fun pl u hu => ?_) (fun _ _ h => h) fun _ h => h
  obtain ⟨hlog, f, hf, rfl⟩ := hu
  rw [wp_ofExcept]
  cases hres : procResult none Retap.getDeviceData f.payload with
  | error e => exact hlog
  | ok d =>
      refine ⟨hlog, List.mem_filterMap.2 ⟨_, hf, ?_⟩⟩
      simp only [datum, hres, if_true]

omit [Line W] [Clients W] in
/-- **The sweep files what came in.** -/
theorem wp_sweepFrom (first n : ℕ) (s : St W) :
    wp (sweepFrom r first n) (fun d t => s.log <+: t.log ∧ Swept t.log d)
      (fun _ t => s.log <+: t.log) (fun _ => True) s := by
  induction n generalizing first s with
  | zero => exact ⟨List.prefix_rfl, swept_nil _⟩
  | succ n ih =>
      have hrest : ∀ (d : List (String × String)) (t : St W), s.log <+: t.log → Swept t.log d →
          wp (do
            let rest ← sweepFrom r (first + 1) n
            pure (d ++ rest)) (fun d t => s.log <+: t.log ∧ Swept t.log d)
            (fun _ t => s.log <+: t.log) (fun _ => True) t := by
        intro d t hst hd
        rw [wp_bind]
        refine (ih (first + 1) t).mono (fun rest u hu => ?_) (fun _ u hu => hst.trans hu)
          fun _ h => h
        exact ⟨hst.trans hu.1, (hd.mono hu.1).append hu.2⟩
      unfold sweepFrom
      rw [wp_bind, wp_handle, wp_bind]
      refine (h.getDeviceData first s).mono (fun d t ht => hrest _ t ht.1 ?_) (fun e t ht => ?_)
        fun _ h => h
      · intro kv hkv
        exact ⟨_, ht.2, List.mem_singleton.1 hkv⟩
      · unfold onAisg
        by_cases he : e.isAisg = true
        · rw [if_pos he]
          exact hrest [] t ht (swept_nil _)
        · rw [if_neg he]
          exact ht

omit [Line W] [Clients W] in
/-- Only the sweep returns device data. -/
theorem Logging.callCommand (name : CommandName) (args : List (String × PyVal)) (s : St W) :
    wp (callCommand r name args) (fun x t => ∀ d, x = Result.deviceData d → Swept t.log d)
      (fun _ _ => True) (fun _ => True) s := by
  have hother : ∀ {α : Type} {c : WorkerProg W α} {g : α → Result},
      (∀ a d, g a ≠ .deviceData d) → wp (c >>= fun a => pure (g a))
        (fun x t => ∀ d, x = Result.deviceData d → Swept t.log d) (fun _ _ => True)
        (fun _ => True) s := by
    intro α c g hg
    rw [wp_bind]
    exact wp_any (fun a t d hd => absurd hd (hg a d)) (fun _ _ => trivial) (fun _ => trivial) s
  have hsweep : ∀ last, wp (do
      let d ← sweepDeviceData r last
      pure (Result.deviceData d)) (fun x t => ∀ d, x = Result.deviceData d → Swept t.log d)
      (fun _ _ => True) (fun _ => True) s := by
    intro last
    rw [wp_bind]
    refine (wp_sweepFrom h 1 last s).mono (fun d t ht d' hd' => ?_) (fun _ _ _ => trivial)
      fun _ _ => trivial
    cases hd'
    exact ht.2
  unfold Session.callCommand
  split
  · exact hother fun _ _ h => nomatch h
  · exact hother fun _ _ h => nomatch h
  · exact hother fun _ _ h => nomatch h
  · exact hsweep _
  · exact hsweep _
  · rw [wp_bind]
    refine wp_any (fun units t => ?_) (fun _ _ => trivial) (fun _ => trivial) s
    rw [wp_bind]
    exact wp_any (fun _ _ d hd => nomatch hd) (fun _ _ => trivial) (fun _ => trivial) t
  · exact hother fun _ _ h => nomatch h
  · exact hother fun _ _ h => nomatch h
  · exact hother fun _ _ h => nomatch h
  · exact hother fun _ _ h => nomatch h
  · trivial

omit [Line W] [Clients W] in
/-- Handlers that have no result of their own do not change that. -/
theorem Logging.handled {name : CommandName} {args : List (String × PyVal)}
    {k : Exn → Option (WorkerProg W (Option Result))}
    (hk : ∀ e c, k e = some c → ∀ t, wp c (fun x _ => x = none) (fun _ _ => True) (fun _ => True) t)
    (s : St W) :
    wp (handle (do
      let x ← Session.callCommand r name args
      pure (some x)) k) (fun x t => ∀ d, x = some (Result.deviceData d) → Swept t.log d)
      (fun _ _ => True) (fun _ => True) s := by
  rw [wp_handle, wp_bind]
  refine (h.callCommand name args s).mono (fun x t ht d hd => ht d (Option.some.inj hd))
    (fun e t _ => ?_) fun _ h => h
  cases hc : k e with
  | none => trivial
  | some c =>
      refine (hk e c hc t).mono (fun x u hx d hd => ?_) (fun _ _ h => h) fun _ h => h
      rw [hx] at hd
      cases hd

end Sweep

end OpenAisg.Session
