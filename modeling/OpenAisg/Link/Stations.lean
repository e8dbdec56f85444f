import Mathlib.Data.List.Nodup
import OpenAisg.Link.Scan

/-!
# The secondaries and their addresses

A secondary may hold an HDLC address from an earlier session.  The sweep of a new session
hangs up on some addresses and gives out others; whether two devices end up with the same
one is a matter of counting.

* `Station` — a device and the address it holds.
* `Station.assign`, `Station.drop` — what an assignment and a DISC do to it.
* `unaddressed`, `addresses` — who answers the broadcast scan, and the addresses in use.
* `cleared`, `clearable` — the stations after a row of DISCs, and how many of them answer
  the scan then.
* `addresses_assigned` — a device that gets an address is one more holder of an address;
  the addresses it does not touch stay where they are.
* `nodup_given_append` — when the addresses given out and those held are all different.
* `Wired` — a bus of stations that loses nothing.  What comes back for a SNRM, a DISC or an
  assignment is left open.
* `wp_disconnect`, `wp_assignAddress`, `wp_scanBus` — what each operation does to the
  stations of such a bus.
-/

namespace OpenAisg.Link

open Hdlc Prog Bisect

/-- A device, and the address it holds. -/
structure Station where
  secondary : Secondary
  address : Option Byte := none
  deriving DecidableEq, Repr

namespace Station

/-- The unique id of the device. -/
def uid (st : Station) : Bytes := st.secondary.uid

/-- An assignment by unique id sets that device's address. -/
def assign (uid : Bytes) (a : Byte) (st : Station) : Station :=
  if st.uid = uid then { st with address := some a } else st

/-- DISC makes the device at that address drop it. -/
def drop (a : Byte) (st : Station) : Station :=
  if st.address = some a then { st with address := none } else st

@[simp] theorem secondary_assign (uid : Bytes) (a : Byte) (st : Station) :
    (st.assign uid a).secondary = st.secondary := by
  unfold assign
  split_ifs <;> rfl

@[simp] theorem uid_assign (uid : Bytes) (a : Byte) (st : Station) :
    (st.assign uid a).uid = st.uid := congrArg Secondary.uid (secondary_assign uid a st)

@[simp] theorem secondary_drop (a : Byte) (st : Station) :
    (st.drop a).secondary = st.secondary := by
  unfold drop
  split_ifs <;> rfl

@[simp] theorem uid_drop (a : Byte) (st : Station) : (st.drop a).uid = st.uid :=
  congrArg Secondary.uid (secondary_drop a st)

/-- An assignment to another device. -/
theorem assign_of_ne {uid : Bytes} {a : Byte} {st : Station} (h : st.uid ≠ uid) :
    st.assign uid a = st := if_neg h

end Station

/-- The devices that answer the broadcast scan. -/
def unaddressed (sts : List Station) : List Secondary :=
  (sts.filter fun st => st.address.isNone).map Station.secondary

/-- The addresses in use. -/
def addresses (sts : List Station) : List Byte := sts.filterMap Station.address

/-- The unique ids. -/
def uids (sts : List Station) : List Bytes := sts.map Station.uid

@[simp] theorem uids_assign (uid : Bytes) (a : Byte) (sts : List Station) :
    uids (sts.map (Station.assign uid a)) = uids sts := by
  simp [uids]

@[simp] theorem uids_drop (a : Byte) (sts : List Station) :
    uids (sts.map (Station.drop a)) = uids sts := by
  simp [uids]

/-! ## What DISC and an assignment do to the addresses -/

/-- A DISC takes its address out of use. -/
theorem addresses_drop (a : Byte) (sts : List Station) :
    addresses (sts.map (Station.drop a)) = (addresses sts).filter fun b => b ≠ a := by
  induction sts with
  | nil => rfl
  | cons st sts ih =>
      simp only [addresses] at ih ⊢
      obtain ⟨sec, _ | b⟩ := st
      · simpa [Station.drop] using ih
      · by_cases hb : b = a <;> simp [Station.drop, hb, ih]

/-- The stations after a DISC to each of these addresses. -/
def cleared (as : List Byte) (sts : List Station) : List Station :=
  as.foldl (fun sts a => sts.map (Station.drop a)) sts

/-- The devices that hold no address but one of these. -/
def clearable (as : List Byte) (sts : List Station) : ℕ :=
  sts.countP fun st => st.address.all (· ∈ as)

@[simp] theorem uids_cleared (as : List Byte) (sts : List Station) :
    uids (cleared as sts) = uids sts := by
  induction as generalizing sts with
  | nil => rfl
  | cons a as ih => exact (ih _).trans (uids_drop a sts)

/-- The addresses of the row are out of use. -/
theorem addresses_cleared (as : List Byte) (sts : List Station) :
    addresses (cleared as sts) = (addresses sts).filter fun b => b ∉ as := by
  induction as generalizing sts with
  | nil => simp [cleared]
  | cons a as ih =>
      calc addresses (cleared (a :: as) sts)
          = (addresses (sts.map (Station.drop a))).filter fun b => b ∉ as := ih _
        _ = ((addresses sts).filter fun b => b ≠ a).filter fun b => b ∉ as := by
            rw [addresses_drop]
        _ = (addresses sts).filter fun b => b ∉ a :: as := by
            rw [List.filter_filter]
            exact List.filter_congr fun b _ => by simp [Bool.and_comm]

/-- They are the ones that answer the broadcast scan afterwards. -/
theorem length_unaddressed_cleared (as : List Byte) (sts : List Station) :
    (unaddressed (cleared as sts)).length = clearable as sts := by
  induction as generalizing sts with
  | nil =>
      rw [cleared, List.foldl_nil, unaddressed, List.length_map, ← List.countP_eq_length_filter]
      refine List.countP_congr fun st _ => ?_
      cases st.address <;> simp
  | cons a as ih =>
      refine (ih _).trans ?_
      rw [clearable, clearable, List.countP_map]
      refine List.countP_congr fun st _ => ?_
      obtain ⟨sec, _ | b⟩ := st
      · simp [Station.drop]
      · by_cases hb : b = a <;> simp [Station.drop, hb]

/-- No station has the id. -/
theorem assign_of_notMem {uid : Bytes} {a : Byte} {sts : List Station} (h : uid ∉ uids sts) :
    sts.map (Station.assign uid a) = sts := by
  induction sts with
  | nil => rfl
  | cons st sts ih =>
      simp only [uids, List.map_cons, List.mem_cons, not_or] at h ih
      rw [List.map_cons, ih h.2, Station.assign_of_ne (Ne.symm h.1)]

/-- One station more. -/
theorem unaddressed_cons (st : Station) (sts : List Station) :
    unaddressed (st :: sts) =
      if st.address.isNone then st.secondary :: unaddressed sts else unaddressed sts := by
  unfold unaddressed
  rw [List.filter_cons]
  split_ifs <;> simp

/-- Who answers the scan is on the bus. -/
theorem mem_uids_of_unaddressed {uid : Bytes} {sts : List Station}
    (h : uid ∈ (unaddressed sts).map Secondary.uid) : uid ∈ uids sts := by
  simp only [unaddressed, List.map_map, List.mem_map, List.mem_filter] at h
  obtain ⟨st, ⟨hst, -⟩, rfl⟩ := h
  exact List.mem_map_of_mem hst

/-- The address of one station more, if it holds one. -/
theorem addresses_cons (st : Station) (sts : List Station) :
    addresses (st :: sts) = st.address.toList ++ addresses sts := by
  cases h : st.address <;> simp [addresses, h]

/-- **An assignment** to an unaddressed device puts one address more in use, and leaves one
device less unaddressed. -/
theorem assign_unaddressed {uid : Bytes} (a : Byte) {sts : List Station} (hnd : (uids sts).Nodup)
    (h : uid ∈ (unaddressed sts).map Secondary.uid) :
    (addresses (sts.map (Station.assign uid a))).Perm (a :: addresses sts) ∧
      ((unaddressed sts).map Secondary.uid).Perm
        (uid :: (unaddressed (sts.map (Station.assign uid a))).map Secondary.uid) := by
  induction sts with
  | nil => simp [unaddressed] at h
  | cons st sts ih =>
      obtain ⟨hst, hnd⟩ := List.nodup_cons.1 (show (st.uid :: uids sts).Nodup from hnd)
      rw [List.map_cons, unaddressed_cons]
      by_cases hu : st.uid = uid
      · -- the device itself: the others are left alone
        subst hu
        rw [assign_of_notMem hst]
        have hnone : st.address = none := by
          cases haddr : st.address with
          | none => rfl
          | some b =>
              rw [unaddressed_cons, haddr] at h
              exact (hst (mem_uids_of_unaddressed h)).elim
        rw [unaddressed_cons, addresses_cons, addresses_cons, Station.assign, if_pos rfl, hnone]
        exact ⟨List.Perm.refl _, List.Perm.refl _⟩
      · rw [Station.assign_of_ne hu, unaddressed_cons, addresses_cons, addresses_cons]
        have hrest : uid ∈ (unaddressed sts).map Secondary.uid := by
          rw [unaddressed_cons] at h
          split_ifs at h
          · exact (List.mem_cons.1 h).resolve_left (Ne.symm hu)
          · exact h
        obtain ⟨haddr, huids⟩ := ih hnd hrest
        cases st.address with
        | none => exact ⟨haddr, (huids.cons st.uid).trans (List.Perm.swap _ _ _)⟩
        | some b => exact ⟨(haddr.cons b).trans (List.Perm.swap _ _ _), huids⟩

/-- The stations after `n, n + 1, …` were assigned to these devices. -/
def assigned : ℕ → List Device → List Station → List Station
  | _, [], sts => sts
  | n, dev :: devs, sts =>
      assigned (n + 1) devs (sts.map (Station.assign dev.uniqueId (BitVec.ofNat 8 n)))

/-- The addresses given out. -/
def given (n count : ℕ) : List Byte := (List.range' n count).map (BitVec.ofNat 8)

/-- **Assignments to all unaddressed devices** add the addresses given out. -/
theorem addresses_assigned {devs : List Device} : ∀ {n : ℕ} {sts : List Station},
    (uids sts).Nodup → ((unaddressed sts).map Secondary.uid).Perm (devs.map Device.uniqueId) →
    (addresses (assigned n devs sts)).Perm (given n devs.length ++ addresses sts) := by
  induction devs with
  | nil => exact fun _ _ => List.Perm.refl _
  | cons dev devs ih =>
      intro n sts hnd hp
      have hmem : dev.uniqueId ∈ (unaddressed sts).map Secondary.uid :=
        hp.symm.subset (List.mem_cons_self ..)
      obtain ⟨haddr, huids⟩ := assign_unaddressed (BitVec.ofNat 8 n) hnd hmem
      have hrest := @ih (n + 1) (sts.map (Station.assign dev.uniqueId (BitVec.ofNat 8 n)))
        (by rwa [uids_assign]) ((huids.symm.trans hp).cons_inv)
      calc (addresses (assigned n (dev :: devs) sts)).Perm _ := hrest
        List.Perm _ (given (n + 1) devs.length ++ BitVec.ofNat 8 n :: addresses sts) :=
          haddr.append_left _
        List.Perm _ (given n (dev :: devs).length ++ addresses sts) := List.perm_middle

/-- The addresses given out are different, and so are two lists of addresses joined that have
none in common. -/
theorem nodup_given_append {n count : ℕ} (h : n + count ≤ 256) {as : List Byte} (hnd : as.Nodup) :
    (given n count ++ as).Nodup ↔ ∀ a ∈ as, a.toNat < n ∨ n + count ≤ a.toNat := by
  have hgiven : (given n count).Nodup := by
    refine List.Nodup.map_on (fun i hi j hj hij => ?_) (List.nodup_range' ..)
    rw [List.mem_range'_1] at hi hj
    have hnat := congrArg BitVec.toNat hij
    rw [BitVec.toNat_ofNat, BitVec.toNat_ofNat, Nat.mod_eq_of_lt (by omega),
      Nat.mod_eq_of_lt (by omega)] at hnat
    exact hnat
  have hmem : ∀ a : Byte, a ∈ given n count ↔ n ≤ a.toNat ∧ a.toNat < n + count := by
    intro a
    simp only [given, List.mem_map, List.mem_range'_1]
    constructor
    · rintro ⟨i, hi, rfl⟩
      rw [BitVec.toNat_ofNat, Nat.mod_eq_of_lt (by omega)]
      exact hi
    · intro ha
      exact ⟨a.toNat, ha, by simp⟩
  rw [List.nodup_append', and_iff_right hgiven, and_iff_right hnd, List.disjoint_right]
  refine forall₂_congr fun a _ => ?_
  rw [hmem]
  omega

/-! ## The bus -/

/-- The frame of an assignment. -/
def IsAssignment (uid : Bytes) (a : Byte) (f : Frame) : Prop :=
  ∃ payload, xidEncode [(piUniqueId, uid), (piHdlcAddr, [a])] = .ok payload ∧
    f = ⟨addrBroadcast, ctrlXid ||| pf, payload⟩

/-- The frame of a SNRM. -/
def snrmFrame (addr : Byte) : Frame := ⟨addr, ctrlSnrm ||| pf, []⟩

/-- A transfer of the frame comes back, and leaves these stations. -/
def Leaves {W : Type} [Line W] (stations : W → List Station) (w : W) (f : Frame)
    (sts : List Station) : Prop :=
  ∀ budget, wp (Line.xfer f budget : Prog W String Bytes) (fun _ w' => stations w' = sts)
    (fun _ _ => False) (fun _ => False) w

/-- The stations on the bus: only unaddressed ones answer the broadcast scan, an assignment by
unique id sets that device's address, and DISC makes the device at that address drop it. -/
structure Wired {W : Type} [Line W] (stations : W → List Station) : Prop where
  probe : ∀ sts, OnBus (unaddressed sts) fun w => stations w = sts
  assign : ∀ w uid a f, IsAssignment uid a f →
    Leaves stations w f ((stations w).map (.assign uid a))
  disc : ∀ w a, Leaves stations w (discFrame a) ((stations w).map (.drop a))
  snrm : ∀ w a, Leaves stations w (snrmFrame a) (stations w)

section Wired

variable {W υ : Type} [Line W] {stations : W → List Station} {s : LinkSt W υ}

/-- One frame on the one-shot path. -/
theorem Leaves.wp_command {addr ctrl : Byte} {payload : Bytes} {t : Option Time}
    {sts : List Station} (h : Leaves stations s.world ⟨addr, ctrl, payload⟩ sts) :
    wp (command addr ctrl payload t) (fun _ u => stations u.world = sts)
      (fun _ u => stations u.world = sts) (fun _ => False) s := by
  unfold command xfer
  rw [wp_bind, wp_bind, wp_read, wp_bind, wp_portOp]
  refine (h _).mono (fun raw w hw => ?_) (fun _ _ h => h.elim) fun _ h => h.elim
  rw [wp_bind, wp_logEvent, wp_pure, wp_ofExcept]
  cases parseFrames raw <;> exact hw

namespace Wired

variable (hbus : Wired stations)

include hbus

/-- DISC takes its address out of use, also where the reply is garbled. -/
theorem wp_disconnect (a : Byte) (t : Option Time) :
    wp (disconnect a t) (fun _ u => stations u.world = (stations s.world).map (.drop a))
      (fun _ u => stations u.world = (stations s.world).map (.drop a)) (fun _ => False) s := by
  unfold disconnect
  rw [wp_bind]
  exact (hbus.disc s.world a).wp_command.mono (fun _ _ h => h) (fun _ _ h => h) fun _ h => h

/-- SNRM changes no address. -/
theorem wp_connect (a : Byte) :
    wp (connect a) (fun _ u => stations u.world = stations s.world)
      (fun _ u => stations u.world = stations s.world) (fun _ => False) s := by
  unfold connect
  rw [wp_bind]
  refine (hbus.snrm s.world a).wp_command.mono (fun _ _ h => ?_) (fun _ _ h => h) fun _ h => h
  rw [wp_ite]
  exact ⟨fun _ => h, fun _ => h⟩

/-- An assignment that is answered. -/
theorem wp_assignAddress (dev : Device) (n : ℕ) :
    wp (assignAddress dev n) (fun _ u => n < 256 ∧ stations u.world =
        (stations s.world).map (.assign dev.uniqueId (BitVec.ofNat 8 n)))
      (fun _ _ => True) (fun _ => False) s := by
  unfold assignAddress
  rw [wp_bind, wp_ofExcept]
  by_cases hn : n < 256
  · rw [pyByte_ok hn]
    dsimp only
    rw [wp_bind, wp_ofExcept]
    cases hp : xidEncode [(piUniqueId, dev.uniqueId), (piHdlcAddr, [BitVec.ofNat 8 n])] with
    | error e => trivial
    | ok payload =>
        dsimp only
        rw [wp_bind]
        refine (hbus.assign s.world _ _ _ ⟨payload, hp, rfl⟩).wp_command.mono (fun frames u h => ?_)
          (fun _ _ _ => trivial) fun _ h => h
        rw [wp_ite]
        exact ⟨fun _ => ⟨hn, h⟩, fun _ => trivial⟩
  · rw [pyByte, if_neg hn]
    trivial

/-- The search for an addressed device changes no address. -/
theorem wp_scanAssigned (first count : ℕ) :
    wp (scanAssigned first count) (fun _ u => stations u.world = stations s.world)
      (fun _ _ => True) (fun _ => False) s := by
  unfold scanAssigned
  induction count generalizing first s with
  | zero => exact rfl
  | succ count ih =>
      unfold scanFrom
      rw [wp_bind, wp_ofExcept]
      cases hbyte : pyByte first with
      | error e => trivial
      | ok a =>
          dsimp only
          unfold probeAddress
          rw [wp_bind, wp_bind, wp_handle, wp_bind]
          have hafter : ∀ (up : Bool) {u : LinkSt W υ}, stations u.world = stations s.world →
              wp (do
                let rest ← scanFrom (first + 1) count
                pure (if up then ⟨[], none, none, some a⟩ :: rest else rest))
                (fun _ u => stations u.world = stations s.world) (fun _ _ => True)
                (fun _ => False) u := by
            intro up u hu
            rw [wp_bind]
            exact (ih (s := u) (first + 1)).mono (fun _ _ h => h.trans hu) (fun _ _ h => h)
              fun _ h => h
          refine (hbus.wp_connect a).mono (fun _ u hu => ?_) (fun e u hu => ?_) fun _ h => h
          · simpa [onlyIf] using hafter true hu
          · unfold onAisg
            split_ifs
            · simpa [onlyIf] using hafter false hu
            · trivial

/-- The broadcast scan finds the unaddressed devices. -/
theorem wp_scanBus :
    wp (scanBus 24) (fun devs u => stations u.world = stations s.world ∧
        devs.Perm ((unaddressed (stations s.world)).map Secondary.device))
      (fun _ _ => True) (fun _ => False) s := by
  refine (Link.wp_scanBus (hbus.probe (stations s.world)) (by decide) rfl).mono
    (fun devs u h => ?_) (fun _ _ _ => trivial) fun _ h => h
  obtain ⟨hu, found, hfound, rfl⟩ := h
  exact ⟨hu, (search_perm hfound).map _⟩

end Wired

end Wired

end OpenAisg.Link
