import OpenAisg.Link.Stations
import OpenAisg.Session.Methods

/-!
# The addresses that discovery hands out

`_discover` counts the new addresses up from `first_address`.  `_clear_stale_links` frees two
addresses before, `first_address` and the one this worker held; who holds another one keeps it.

* `findDevices` — `_clear_stale_links` and `_discover`, as `_open_and_connect` runs them.
* `takers` — how many devices `_discover` will hand an address to.
* `Vacant` — none of their new addresses is kept by someone else.
* `wp_clearStaleLinks`, `wp_assignAll`, `wp_discover` — what each part does to the stations of
  a bus that loses nothing.
* `findDevices_distinct_iff` — the addresses are distinct afterwards exactly when they were
  vacant.
* `findDevices_clashes` — two devices that an earlier session gave addresses to, and a third
  that gets the second one's.
-/

namespace OpenAisg.Session

open Hdlc Link Prog

variable {W : Type} {cfg : Config} {stations : W → List Station} {s : St W}

/-- `_open_and_connect` from the open port to the end of the discovery. -/
def findDevices [Line W] [Clients W] (cfg : Config) : WorkerProg W (Option Byte) := do
  clearStaleLinks cfg
  setState .discovering
  discover cfg

/-- How many devices have no address once the stale ones are cleared. -/
def takers (cfg : Config) (held : Option Byte) (sts : List Station) : ℕ :=
  sts.countP fun st => st.address.all fun a => a.toNat ∈ staleAddresses cfg held

/-- Nobody keeps an address that one of them gets. -/
def Vacant (cfg : Config) (held : Option Byte) (sts : List Station) : Prop :=
  ∀ a ∈ addresses sts, a.toNat ∉ staleAddresses cfg held →
    a.toNat < cfg.firstAddress ∨ cfg.firstAddress + takers cfg held sts ≤ a.toNat

/-! ## The steps -/

/-- A method of the link object; without one there is an `AttributeError`. -/
theorem wp_onLink_world {α : Type} {c : LinkProg W Worker α} {Q : α → W → Prop} {E : W → Prop}
    (h : ∀ l, wp c (fun a u => Q a u.world) (fun _ u => E u.world) (fun _ => False)
      ⟨s.world, l, s.log, s.wk⟩) :
    wp (onLink c) (fun a t => Q a t.world) (fun e t => e.isAisg = true → E t.world)
      (fun _ => False) s := by
  cases hl : s.link with
  | none =>
      have hraise : onLink c s =
          (.raise (.py .attributeError "'NoneType' object has no attribute"), s) := by
        simp [onLink, hl]
      simp [wp, hraise, Exn.isAisg]
  | some l =>
      refine wp_onLink (fun hn => absurd (hn.symm.trans hl) (by simp)) fun l' _ => ?_
      exact (h l').mono (fun _ _ h => h) (fun _ _ h _ => h) fun _ h => h

variable [Line W]

/-- A DISC that may go unanswered. -/
theorem wp_hangUp (hbus : Wired stations) (a : Byte) (t : Option Time) :
    wp (handle (onLink (disconnect a t)) (onAisg (pure ())))
      (fun _ u => stations u.world = (stations s.world).map (.drop a)) (fun _ _ => True)
      (fun _ => False) s := by
  rw [wp_handle]
  refine (wp_onLink_world (Q := fun _ w => stations w = (stations s.world).map (.drop a))
    (E := fun w => stations w = (stations s.world).map (.drop a))
    fun l => hbus.wp_disconnect a t).mono (fun _ _ h => h) (fun e u h => ?_) fun _ h => h
  unfold onAisg
  split_ifs with he
  · exact h he
  · trivial

/-- `_clear_stale_links` clears its addresses, one DISC each. -/
theorem wp_clearStaleLinks (hbus : Wired stations) :
    wp (clearStaleLinks cfg) (fun _ t => (∀ n ∈ staleAddresses cfg s.wk.address, n < 256) ∧
        stations t.world = cleared ((staleAddresses cfg s.wk.address).map (BitVec.ofNat 8))
          (stations s.world))
      (fun _ _ => True) (fun _ => False) s := by
  unfold clearStaleLinks
  rw [wp_bind, wp_self, wp_bind]
  -- what is left to clear of the loop's addresses, as long as those before it fit an octet
  refine (wp_forEach (fun left t => (∀ n ∈ staleAddresses cfg s.wk.address, n ∈ left ∨ n < 256) ∧
    cleared (left.map (BitVec.ofNat 8)) (stations t.world) =
      cleared ((staleAddresses cfg s.wk.address).map (BitVec.ofNat 8)) (stations s.world))
    (fun n left t h => ?_) _ s ⟨fun n hn => Or.inl hn, rfl⟩).mono (fun _ t h => ?_)
    (fun _ _ h => h) fun _ h => h
  · obtain ⟨hfit, hleft⟩ := h
    by_cases hn : n < 256
    · rw [pyByte_ok hn]
      refine (wp_hangUp (s := t) hbus (BitVec.ofNat 8 n) (some (ms 300))).mono
        (fun _ u hu => ⟨fun m hm => ?_, ?_⟩) (fun _ _ h => h) fun _ h => h
      · rcases hfit m hm with hm | hm
        · rcases List.mem_cons.1 hm with rfl | hm
          · exact Or.inr hn
          · exact Or.inl hm
        · exact Or.inr hm
      · rw [hu]
        exact hleft
    · rw [pyByte, if_neg hn]
      trivial
  · exact ⟨fun n hn => (h.1 n hn).resolve_left List.not_mem_nil, h.2⟩

/-- The assignments, when all of them are answered. -/
theorem wp_assignAll (hbus : Wired stations) (devs : List Device) : ∀ (n : ℕ) (s : St W),
    wp (assignAll n devs) (fun _ t => (devs = [] ∨ n + devs.length ≤ 256) ∧
        stations t.world = assigned n devs (stations s.world))
      (fun _ _ => True) (fun _ => False) s := by
  induction devs with
  | nil => exact fun _ _ => ⟨Or.inl rfl, rfl⟩
  | cons dev devs ih =>
      intro n s
      unfold assignAll
      rw [wp_bind]
      refine (wp_onLink_world (Q := fun _ w => n < 256 ∧
        stations w = (stations s.world).map (.assign dev.uniqueId (BitVec.ofNat 8 n)))
        (E := fun _ => True) fun l => hbus.wp_assignAddress dev n).mono
        (fun _ t h => ?_) (fun _ _ _ => trivial) fun _ h => h
      rw [wp_bind]
      refine (ih (n + 1) t).mono (fun _ u hu => ⟨Or.inr ?_, ?_⟩) (fun _ _ h => h) fun _ h => h
      · have hn := h.1
        rcases hu.1 with rfl | hlen
        · exact hn
        · rw [List.length_cons]
          omega
      · rw [hu.2, h.2]
        rfl

/-- **`_discover`** keeps the addresses distinct exactly when nobody holds one that it hands
out. -/
theorem wp_discover (hbus : Wired stations) (huid : (uids (stations s.world)).Nodup)
    (hnd : (addresses (stations s.world)).Nodup) :
    wp (discover cfg) (fun _ t => (addresses (stations t.world)).Nodup ↔
        ∀ a ∈ addresses (stations s.world), a.toNat < cfg.firstAddress ∨
          cfg.firstAddress + (unaddressed (stations s.world)).length ≤ a.toNat)
      (fun _ _ => True) (fun _ => False) s := by
  unfold discover
  rw [wp_bind]
  refine (wp_onLink_world (Q := fun devs w => stations w = stations s.world ∧
    devs.Perm ((unaddressed (stations s.world)).map Secondary.device))
    (E := fun _ => True) fun l => hbus.wp_scanBus).mono (fun devs t h => ?_)
    (fun _ _ _ => trivial) fun _ h => h
  obtain ⟨ht, hperm⟩ := h
  have hlen : devs.length = (unaddressed (stations s.world)).length := by
    rw [hperm.length_eq, List.length_map]
  cases devs with
  | nil =>
      -- everyone has an address: a device found by its address may lose it again, no more
      dsimp only
      rw [wp_bind]
      refine (wp_onLink_world (Q := fun _ w => stations w = stations t.world)
        (E := fun _ => True) fun l => hbus.wp_scanAssigned _ _).mono
        (fun found u hu => ?_) (fun _ _ _ => trivial) fun _ h => h
      rw [wp_bind]
      refine (wp_forEach (fun _ v => (addresses (stations v.world)).Nodup)
        (fun dev left v hv => ?_) _ u (by rwa [hu, ht])).mono (fun _ v hv => ?_)
        (fun _ _ h => h) fun _ h => h
      · cases dev.address with
        | none => exact hv
        | some a =>
            refine (wp_hangUp hbus a none).mono (fun _ w hw => ?_) (fun _ _ h => h) fun _ h => h
            rw [hw, addresses_drop]
            exact hv.filter _
      · refine iff_of_true hv fun a _ => ?_
        rw [← hlen, List.length_nil]
        omega
  | cons dev devs =>
      dsimp only
      rw [wp_bind]
      refine (wp_assignAll hbus (dev :: devs) cfg.firstAddress t).mono (fun _ u hu => ?_)
        (fun _ _ h => h) fun _ h => h
      rw [wp_bind, wp_update, wp_pure, hu.2, ht, ← hlen,
        ← nodup_given_append (hu.1.resolve_left (List.cons_ne_nil _ _)) hnd]
      refine (addresses_assigned huid ?_).nodup_iff
      have huids := (hperm.map Device.uniqueId).symm
      rwa [List.map_map] at huids

/-- **The addresses are distinct** after `_clear_stale_links` and `_discover` exactly when none of
those handed out was kept by a device that `_clear_stale_links` did not clear.  The new addresses
are counted up from the first one, and nobody asks who holds them. -/
theorem findDevices_distinct_iff [Clients W] (hbus : Wired stations)
    (huid : (uids (stations s.world)).Nodup) (hnd : (addresses (stations s.world)).Nodup)
    {found : Option Byte} {t : St W} (hrun : findDevices cfg s = (.ret found, t)) :
    (addresses (stations t.world)).Nodup ↔ Vacant cfg s.wk.address (stations s.world) := by
  have hw : wp (findDevices cfg) (fun _ t => (addresses (stations t.world)).Nodup ↔
      Vacant cfg s.wk.address (stations s.world)) (fun _ _ => True) (fun _ => False) s := by
    unfold findDevices
    rw [wp_bind]
    refine (wp_clearStaleLinks hbus).mono (fun _ t h => ?_) (fun _ _ h => h) fun _ h => h
    obtain ⟨hfit, ht⟩ := h
    rw [wp_bind, wp_setState]
    have hmem : ∀ a : Byte, a ∈ (staleAddresses cfg s.wk.address).map (BitVec.ofNat 8) ↔
        a.toNat ∈ staleAddresses cfg s.wk.address := by
      intro a
      constructor
      · intro ha
        obtain ⟨n, hn, rfl⟩ := List.mem_map.1 ha
        rwa [BitVec.toNat_ofNat, Nat.mod_eq_of_lt (hfit n hn)]
      · intro ha
        exact List.mem_map.2 ⟨a.toNat, ha, by simp⟩
    have hcount : (unaddressed (stations t.world)).length =
        takers cfg s.wk.address (stations s.world) := by
      rw [ht, length_unaddressed_cleared, clearable, takers]
      simp only [hmem]
    refine (wp_discover hbus (s := { t with wk := t.wk.setState .discovering "" })
      ?_ ?_).mono (fun _ u hu => hu.trans ?_) (fun _ _ h => h) fun _ h => h
    · show (uids (stations t.world)).Nodup
      rwa [ht, uids_cleared]
    · show (addresses (stations t.world)).Nodup
      rw [ht, addresses_cleared]
      exact hnd.filter _
    · show (∀ a ∈ addresses (stations t.world), _) ↔ _
      rw [hcount, Vacant, ht, addresses_cleared]
      simp only [List.mem_filter, hmem, decide_eq_true_eq, and_imp]
  exact (wp_iff.1 hw).1 found t hrun

/-! ## An earlier session and a newcomer -/

/-- A bus, on which the ids leave room for the rest of a reply. -/
structure Bus where
  stations : List Station
  plain : ∀ st ∈ stations, st.secondary.uid.length ≤ 250 ∧ st.secondary.vendor = none

namespace Bus

/-- Something happens to the addresses. -/
def map (b : Bus) (g : Station → Station) (hg : ∀ st, (g st).secondary = st.secondary) : Bus where
  stations := b.stations.map g
  plain st hst := by
    obtain ⟨st', hst', rfl⟩ := List.mem_map.1 hst
    rw [hg]
    exact b.plain st' hst'

/-- The assignment in a frame. -/
def assignment (f : Frame) : Option (Bytes × Byte) :=
  match xidDecode f.payload with
  | .ok p =>
      match p.lookup piUniqueId, p.lookup piHdlcAddr with
      | some uid, some [a] => some (uid, a)
      | _, _ => none
  | .error _ => none

/-- One transfer: who is addressed answers. -/
def transfer (b : Bus) (f : Frame) : Bytes × Bus :=
  if f.ctrl = ctrlXid ||| pf then
    match assignment f with
    | some (uid, a) =>
        (if uid ∈ uids b.stations then buildFrame ⟨a, ctrlXid ||| pf, []⟩ else [],
          b.map (.assign uid a) (Station.secondary_assign uid a))
    | none => (busReply (unaddressed b.stations) f, b)
  else
    (if f.addr ∈ addresses b.stations then buildFrame ⟨f.addr, ctrlUa ||| pf, []⟩ else [],
      if f.ctrl = ctrlDisc ||| pf then b.map (.drop f.addr) (Station.secondary_drop f.addr) else b)

instance : Line Bus where
  monotonic b := (0, b)
  sleep _ b := b
  serialOpen b := (.ok (), b)
  setDtr := pure ()
  readFrames _ := pure []
  write _ := pure ()
  xfer f _ := fun b => (.ret (b.transfer f).1, (b.transfer f).2)
  serialClose := pure ()

instance : Clients Bus where
  others b := ([], b)

/-- This bus loses nothing, and only who is addressed answers. -/
theorem wired : Wired Bus.stations where
  probe sts := by
    rintro b rfl uid mask f hf budget
    have hnone : b.transfer f = (busReply (unaddressed b.stations) f, b) := by
      obtain ⟨payload, hpayload, rfl⟩ := hf
      have hp := xidDecode_encode hpayload (show [piUniqueId, piBitmask].Nodup by decide)
      have hassign : assignment ⟨addrBroadcast, ctrlXid ||| pf, payload⟩ = none := by
        rw [assignment, hp]
        rfl
      rw [transfer, if_pos rfl, hassign]
    show (b.transfer f).2.stations = b.stations ∧ Replies _ (b.transfer f).1
    rw [hnone]
    refine ⟨rfl, replies_busReply (fun a ha => ?_) hf⟩
    obtain ⟨st, hst, rfl⟩ := List.mem_map.1 ha
    exact b.plain st (List.mem_filter.1 hst).1
  assign b uid a f hf budget := by
    obtain ⟨payload, hpayload, rfl⟩ := hf
    have hp := xidDecode_encode hpayload (show [piUniqueId, piHdlcAddr].Nodup by decide)
    have hassign : assignment ⟨addrBroadcast, ctrlXid ||| pf, payload⟩ = some (uid, a) := by
      rw [assignment, hp]
      rfl
    show (b.transfer ⟨addrBroadcast, ctrlXid ||| pf, payload⟩).2.stations = _
    rw [transfer, if_pos rfl, hassign]
    rfl
  disc _ _ _ := rfl
  snrm _ _ _ := rfl

end Bus

/-- A device with an id of two octets. -/
def station (uid : Byte) (address : Option Byte) : Station := ⟨⟨[0x41, uid], 1, none⟩, address⟩

/-- A worker that has just opened the port of a bus with these three devices. -/
def opened (a b c : Option Byte) : St Bus where
  world := ⟨[station 1 a, station 2 b, station 3 c], by simp [station]⟩
  link := some {}

/-- A device that holds 7 is in nobody's way. -/
theorem findDevices_distinct_vacant :
    ∃ t, findDevices { fuel := 0 } (opened (some 1) none (some 7)) = (.ret (some 1), t) ∧
      (addresses t.world.stations).Nodup := by
  have hrun : findDevices { fuel := 0 } (opened (some 1) none (some 7)) =
      (.ret (some 1), (findDevices { fuel := 0 } (opened (some 1) none (some 7))).2) :=
    Prod.ext (by decide +kernel) rfl
  refine ⟨_, hrun, (findDevices_distinct_iff Bus.wired ?_ ?_ hrun).2 ?_⟩
  · decide
  · decide
  · unfold Vacant
    decide

/-- **Two devices with one address.**  An earlier session gave out 1 and 2.  Address 1 is
cleared; a device without an address has been plugged in, and one of the two gets 2. -/
theorem findDevices_clashes : Wired Bus.stations ∧
    ∃ t, findDevices { fuel := 0 } (opened (some 1) (some 2) none) = (.ret (some 1), t) ∧
      (uids (opened (some 1) (some 2) none).world.stations).Nodup ∧
      (addresses (opened (some 1) (some 2) none).world.stations).Nodup ∧
      ¬ (addresses t.world.stations).Nodup :=
  ⟨Bus.wired, _, Prod.ext (by decide +kernel) rfl, by decide, by decide, by decide +kernel⟩

end OpenAisg.Session
