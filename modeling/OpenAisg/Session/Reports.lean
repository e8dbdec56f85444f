import OpenAisg.Session.Alarms

/-!
# Reports to the alarm tracker

The tracker is fed from two sides: a GetAlarmStatus response replaces the active set, an
AlarmIndication adds to it.

* `Report`, `AlarmTracker.reports` — a report of either kind, and any sequence of them.
* `Follows` — each edge raises what is not active at its place or clears what is;
  `Follows.alternate`: then the edges of one alarm alternate.
* `report_eq` — either kind of report moves to its set and emits the edges of the move, so
  the two need not be told apart in what follows.
* `reports_edges` — the edges of any sequence of reports.
* `IndicationMessage` — an AlarmIndication in the documented format, with or without an
  antenna number.
* `indicate_adds_iff` — which octets of it end up as alarms.  Every octet behind the header
  does, also the antenna number and what the length field does not cover.
-/

namespace OpenAisg.Session

open Retap

/-! ## Edges that follow a set -/

/-- Each edge raises what is not in the set at its place, or clears what is. -/
def Follows : Finset String → List AlarmEvent → Prop
  | _, [] => True
  | s, e :: es => (e.raised = true ↔ e.name ∉ s) ∧ Follows (applyAlarm s e) es

@[simp] theorem foldAlarms_nil (s : Finset String) : foldAlarms s [] = s := rfl

@[simp] theorem foldAlarms_cons (s : Finset String) (e : AlarmEvent) (es : List AlarmEvent) :
    foldAlarms s (e :: es) = foldAlarms (applyAlarm s e) es := rfl

/-- These edges, and then those. -/
theorem follows_append {s : Finset String} {es fs : List AlarmEvent} :
    Follows s (es ++ fs) ↔ Follows s es ∧ Follows (foldAlarms s es) fs := by
  induction es generalizing s with
  | nil => simp [Follows]
  | cons e es ih => simp only [List.cons_append, Follows, foldAlarms_cons, ih, and_assoc]

/-- At any place of the list. -/
theorem Follows.at {s : Finset String} {past later : List AlarmEvent} {e : AlarmEvent}
    (h : Follows s (past ++ e :: later)) : e.raised = true ↔ e.name ∉ foldAlarms s past :=
  (follows_append.1 h).2.1

theorem mem_applyAlarm_self (s : Finset String) (e : AlarmEvent) :
    e.name ∈ applyAlarm s e ↔ e.raised = true := by
  unfold applyAlarm
  cases e.raised <;> simp

/-- An edge is about one alarm. -/
theorem mem_applyAlarm_of_ne {n : String} {e : AlarmEvent} (s : Finset String)
    (h : e.name ≠ n) : n ∈ applyAlarm s e ↔ n ∈ s := by
  unfold applyAlarm
  cases e.raised <;> simp [Ne.symm h]

/-- The edges of one alarm: raised or cleared, one after the other. -/
def edgesOf (n : String) (es : List AlarmEvent) : List Bool :=
  (es.filter fun e => e.name = n).map AlarmEvent.raised

/-- Raised and cleared alternate, and the first edge is a raised one if the alarm is not
active to begin with. -/
theorem Follows.alternate_from {s : Finset String} {es : List AlarmEvent} (n : String)
    (h : Follows s es) : (decide (n ∈ s) :: edgesOf n es).IsChain (· ≠ ·) := by
  induction es generalizing s with
  | nil => simp [edgesOf]
  | cons e es ih =>
      obtain ⟨hedge, hrest⟩ := h
      have hnext := ih hrest
      by_cases hn : e.name = n
      · subst hn
        have hnow : edgesOf e.name (e :: es) = e.raised :: edgesOf e.name es := by
          simp [edgesOf]
        rw [hnow, List.isChain_cons_cons]
        have hset : decide (e.name ∈ applyAlarm s e) = e.raised := by
          simp [mem_applyAlarm_self]
        rw [hset] at hnext
        refine ⟨?_, hnext⟩
        by_cases hin : e.name ∈ s <;> simp [hin] at hedge ⊢ <;> simp [hedge]
      · have hnow : edgesOf n (e :: es) = edgesOf n es := by simp [edgesOf, hn]
        rwa [hnow, ← decide_eq_decide.2 (mem_applyAlarm_of_ne s hn)]

/-- So the edges of one alarm alternate. -/
theorem Follows.alternate {s : Finset String} {es : List AlarmEvent} (h : Follows s es)
    (n : String) : (edgesOf n es).IsChain (· ≠ ·) :=
  (h.alternate_from n).of_cons

theorem nodup_sorted (s : Finset String) : (sorted s).Nodup := by
  obtain ⟨v, hv⟩ := s
  induction v using Quot.ind with
  | mk l => exact (List.perm_insertionSort (· ≤ ·) l).nodup_iff.2 hv

/-- Raised edges of different alarms that are not active. -/
theorem follows_raised {s : Finset String} {ns : List String} (hns : ns.Nodup)
    (h : ∀ n ∈ ns, n ∉ s) : Follows s (ns.map (⟨true, ·⟩)) := by
  induction ns generalizing s with
  | nil => trivial
  | cons n ns ih =>
      obtain ⟨hn, hrest⟩ := List.nodup_cons.1 hns
      refine ⟨by simpa using h n (by simp), ih hrest fun m hm => ?_⟩
      have hne : n ≠ m := fun heq => hn (heq ▸ hm)
      rw [mem_applyAlarm_of_ne s (by simpa using hne)]
      exact h m (by simp [hm])

/-- Cleared edges of different alarms that are. -/
theorem follows_cleared {s : Finset String} {ns : List String} (hns : ns.Nodup)
    (h : ∀ n ∈ ns, n ∈ s) : Follows s (ns.map (⟨false, ·⟩)) := by
  induction ns generalizing s with
  | nil => trivial
  | cons n ns ih =>
      obtain ⟨hn, hrest⟩ := List.nodup_cons.1 hns
      refine ⟨by simpa using h n (by simp), ih hrest fun m hm => ?_⟩
      have hne : n ≠ m := fun heq => hn (heq ▸ hm)
      rw [mem_applyAlarm_of_ne s (by simpa using hne)]
      exact h m (by simp [hm])

/-- The edges from one set to another follow the first one. -/
theorem follows_edges (old new : Finset String) : Follows old (edges old new) := by
  unfold edges
  rw [follows_append]
  constructor
  · exact follows_raised (nodup_sorted _) fun n hn => by simp_all
  · refine follows_cleared (nodup_sorted _) fun n hn => ?_
    rw [mem_foldAlarms_raised]
    simp_all

/-! ## Sequences of reports -/

/-- A report to the tracker. -/
inductive Report
  | snapshot (names : List String)
  | indicate (payload : Bytes)
  deriving DecidableEq, Repr

/-- One report, as the worker passes it on. -/
def AlarmTracker.report (t : AlarmTracker) : Report → List AlarmEvent × AlarmTracker
  | .snapshot names => t.snapshot names.toFinset
  | .indicate payload => t.indicate payload

/-- One report after the other, and all edges they emit. -/
def AlarmTracker.reports (t : AlarmTracker) : List Report → List AlarmEvent × AlarmTracker
  | [] => ([], t)
  | r :: rs =>
      ((t.report r).1 ++ ((t.report r).2.reports rs).1, ((t.report r).2.reports rs).2)

/-- What the report makes of the active set. -/
def Report.names (old : Finset String) : Report → Finset String
  | .snapshot names => reported names.toFinset
  | .indicate payload => reported (old ∪ reported ((payload.drop 3).map rcName).toFinset)

/-- Either report moves to its set, and emits the edges of the move. -/
theorem report_eq (t : AlarmTracker) (r : Report) :
    t.report r = (edges t.active (r.names t.active), ⟨r.names t.active⟩) := by
  cases r <;> rfl

@[simp] theorem reported_reported (names : Finset String) :
    reported (reported names) = reported names := by
  ext n
  simp only [reported, Finset.mem_filter, and_self_right]

theorem Report.names_subset (r : Report) (old : Finset String) :
    reported (r.names old) = r.names old := by
  cases r <;> exact reported_reported _

/-- A set that a report has been made of is not changed by the same report. -/
theorem Report.names_names (r : Report) (old : Finset String) :
    r.names (r.names old) = r.names old := by
  cases r with
  | snapshot names => rfl
  | indicate payload =>
      ext n
      simp only [Report.names, reported, Finset.mem_filter, Finset.mem_union]
      tauto

@[simp] theorem edges_self (s : Finset String) : edges s s = [] := by
  apply List.eq_nil_iff_forall_not_mem.2
  intro e he
  simp [edges] at he

/-- A repeated report emits nothing and changes nothing. -/
theorem report_repeated (t : AlarmTracker) (r : Report) :
    (t.report r).2.report r = ([], (t.report r).2) := by
  rw [report_eq t r, report_eq, Report.names_names, edges_self]

/-- These reports, and then those. -/
theorem reports_append (t : AlarmTracker) (rs qs : List Report) :
    t.reports (rs ++ qs) =
      ((t.reports rs).1 ++ ((t.reports rs).2.reports qs).1, ((t.reports rs).2.reports qs).2) := by
  induction rs generalizing t with
  | nil => rfl
  | cons r rs ih => simp [AlarmTracker.reports, ih]

/-- The edges of all reports lead to the set they leave. -/
theorem foldAlarms_reports (t : AlarmTracker) (rs : List Report) :
    foldAlarms t.active (t.reports rs).1 = (t.reports rs).2.active := by
  induction rs generalizing t with
  | nil => rfl
  | cons r rs ih =>
      have hstep : foldAlarms t.active (t.report r).1 = (t.report r).2.active := by
        rw [report_eq]
        exact foldAlarms_edges _ _
      simp only [AlarmTracker.reports]
      rw [foldAlarms_append, hstep, ih]

/-- And they follow the set they start from. -/
theorem follows_reports (t : AlarmTracker) (rs : List Report) :
    Follows t.active (t.reports rs).1 := by
  induction rs generalizing t with
  | nil => trivial
  | cons r rs ih =>
      have hstep : foldAlarms t.active (t.report r).1 = (t.report r).2.active := by
        rw [report_eq]
        exact foldAlarms_edges _ _
      refine follows_append.2 ⟨?_, hstep ▸ ih _⟩
      rw [report_eq]
      exact follows_edges _ _

/-- What a report leaves holds neither the empty name nor `OK`. -/
theorem mem_report {t : AlarmTracker} {r : Report} {n : String}
    (h : n ∈ (t.report r).2.active) : n ≠ "" ∧ n ≠ "OK" := by
  rw [report_eq, ← Report.names_subset] at h
  exact (Finset.mem_filter.1 h).2

/-- **Any sequence of reports.**  From any start set, the emitted edges lead to the set that is
active in the end; every edge raises an alarm that is not active at its place or clears one
that is, so the edges of one alarm alternate; a report that is repeated emits nothing; and
after a report neither the empty name nor `OK` is active. -/
theorem reports_edges (t : AlarmTracker) (rs : List Report) :
    foldAlarms t.active (t.reports rs).1 = (t.reports rs).2.active ∧
      (∀ past e later, (t.reports rs).1 = past ++ e :: later →
        (e.raised = true ↔ e.name ∉ foldAlarms t.active past)) ∧
      (∀ n, (edgesOf n (t.reports rs).1).IsChain (· ≠ ·)) ∧
      (∀ r, t.reports (rs ++ [r, r]) = t.reports (rs ++ [r])) ∧
      ∀ r, "" ∉ (t.reports (rs ++ [r])).2.active ∧ "OK" ∉ (t.reports (rs ++ [r])).2.active := by
  refine ⟨foldAlarms_reports t rs, fun past e later h => ?_, (follows_reports t rs).alternate,
    fun r => ?_, fun r => ?_⟩
  · exact (h ▸ follows_reports t rs).at
  · simp only [reports_append, AlarmTracker.reports, report_repeated, List.append_nil]
  · rw [reports_append]
    exact ⟨fun h => (mem_report h).1 rfl, fun h => (mem_report h).2 rfl⟩

/-! ## What an indication reports -/

/-- An AlarmIndication in the documented format: the procedure code, the number of data octets,
the data, and whatever follows them in the frame.  The data of the multi-antenna indication
begin with the antenna's number; then come the return code and the alarm codes. -/
structure IndicationMessage where
  antenna : Option Byte
  rc : Byte
  codes : Bytes
  trailing : Bytes
  /-- The number of data octets fits its field. -/
  fits : antenna.toList.length + 1 + codes.length < 65536

namespace IndicationMessage

variable (m : IndicationMessage)

/-- The procedure code. -/
def code : Byte := if m.antenna.isSome then antAlarmIndication else alarmIndication

/-- The data octets. -/
def data : Bytes := m.antenna.toList ++ m.rc :: m.codes

/-- The payload of the frame. -/
def payload : Bytes :=
  m.code :: BitVec.ofNat 8 (m.data.length % 256) :: BitVec.ofNat 8 (m.data.length / 256) ::
    (m.data ++ m.trailing)

/-- The return code and the alarm codes: what can be an alarm. -/
def covered : Bytes := m.rc :: m.codes

/-- The octets that are no alarm codes: the antenna's number, and what the length field does not
cover. -/
def others : Bytes := m.antenna.toList ++ m.trailing

/-- The router lets it through. -/
theorem isIndication_payload : isIndication m.payload = true := by
  simp only [payload, isIndication, code]
  split <;> rfl

/-- The length field covers exactly the data. -/
theorem take_data : ∃ lo hi rest, m.payload = m.code :: lo :: hi :: rest ∧
    rest.take (unpackUint16 lo hi) = m.data := by
  refine ⟨_, _, _, rfl, ?_⟩
  have hfits : m.data.length < 65536 := by
    have := m.fits
    simp only [data, List.length_append, List.length_cons]
    omega
  have hlen : unpackUint16 (BitVec.ofNat 8 (m.data.length % 256))
      (BitVec.ofNat 8 (m.data.length / 256)) = m.data.length := by
    unfold unpackUint16
    rw [BitVec.toNat_ofNat, BitVec.toNat_ofNat]
    omega
  rw [hlen, List.take_left]

end IndicationMessage

/-- The alarms a list of codes names: every code but the one for OK. -/
def alarmNames (codes : Bytes) : Finset String := ((codes.filter (· ≠ 0)).map rcName).toFinset

/-- An alarm of a list of codes is the name of one that is not 0. -/
theorem mem_alarmNames {codes : Bytes} {n : String} :
    n ∈ alarmNames codes ↔ ∃ c ∈ codes, c ≠ 0 ∧ rcName c = n := by
  simp only [alarmNames, List.mem_toFinset, List.mem_map, List.mem_filter, decide_eq_true_eq,
    and_assoc]

/-- Every code has a name, and only 0 is named OK. -/
theorem rcName_reported : ∀ c : Byte, rcName c ≠ "" ∧ (rcName c = "OK" ↔ c = 0) := by
  decide +kernel

/-- The names that are reported are those of the codes other than OK. -/
theorem reported_rcName (codes : Bytes) :
    reported (codes.map rcName).toFinset = alarmNames codes := by
  ext n
  simp only [reported, Finset.mem_filter, List.mem_toFinset, List.mem_map, mem_alarmNames]
  constructor
  · rintro ⟨⟨c, hc, rfl⟩, -, hok⟩
    exact ⟨c, hc, fun h0 => hok ((rcName_reported c).2.2 h0), rfl⟩
  · rintro ⟨c, hc, h0, rfl⟩
    exact ⟨⟨c, hc, rfl⟩, (rcName_reported c).1, fun hok => h0 ((rcName_reported c).2.1 hok)⟩

theorem mem_reported {names : Finset String} {n : String} :
    n ∈ reported names ↔ n ∈ names ∧ n ≠ "" ∧ n ≠ "OK" := Finset.mem_filter

theorem ne_of_mem_alarmNames {codes : Bytes} {n : String} (h : n ∈ alarmNames codes) :
    n ≠ "" ∧ n ≠ "OK" := by
  rw [← reported_rcName] at h
  exact (mem_reported.1 h).2

theorem alarmNames_append (cs ds : Bytes) :
    alarmNames (cs ++ ds) = alarmNames cs ∪ alarmNames ds := by
  ext n
  simp only [mem_alarmNames, Finset.mem_union, List.mem_append, or_and_right, exists_or]

/-- The active set after an indication: every octet after the header counts as a code. -/
theorem mem_indicate (t : AlarmTracker) (m : IndicationMessage) (n : String) :
    n ∈ (t.indicate m.payload).2.active ↔
      (n ∈ t.active ∧ n ≠ "" ∧ n ≠ "OK") ∨ n ∈ alarmNames m.covered ∨ n ∈ alarmNames m.others := by
  have hstep : (t.indicate m.payload).2.active =
      reported (t.active ∪ reported ((m.data ++ m.trailing).map rcName).toFinset) := rfl
  have halarms : alarmNames (m.data ++ m.trailing) =
      alarmNames m.covered ∪ alarmNames m.others := by
    rw [IndicationMessage.others, alarmNames_append m.antenna.toList, Finset.union_left_comm,
      ← alarmNames_append, ← alarmNames_append, IndicationMessage.data, List.append_assoc]
    rfl
  rw [hstep, reported_rcName, mem_reported, Finset.mem_union, halarms, Finset.mem_union,
    or_and_right]
  have hnames : ∀ codes, n ∈ alarmNames codes → n ≠ "" ∧ n ≠ "OK" := fun _ h =>
    ne_of_mem_alarmNames h
  constructor
  · exact Or.imp_right And.left
  · exact Or.imp_right fun h => ⟨h, h.elim (hnames _) (hnames _)⟩

/-- The indication adds the alarms of these codes and reports nothing else. -/
def AddsExactly (codes : Bytes) (t : AlarmTracker) (r : List AlarmEvent × AlarmTracker) : Prop :=
  r.2.active = t.active ∪ alarmNames codes ∧
    ∀ e ∈ r.1, e.raised = true → e.name ∈ alarmNames codes

/-- **What an indication reports.**  It adds exactly the alarms of the codes that its length
field covers if and only if the active set was one that a report leaves, and the antenna's
number and the octets after the data are OK or name alarms that are active anyway. -/
theorem indicate_adds_iff (t : AlarmTracker) (m : IndicationMessage) :
    AddsExactly m.covered t (t.indicate m.payload) ↔
      "" ∉ t.active ∧ "OK" ∉ t.active ∧
        ∀ b ∈ m.others, b = 0 ∨ rcName b ∈ t.active ∪ alarmNames m.covered := by
  constructor
  · rintro ⟨hactive, -⟩
    have hclean : ∀ n ∈ t.active, n ≠ "" ∧ n ≠ "OK" := by
      intro n hn
      have hin : n ∈ (t.indicate m.payload).2.active := by
        rw [hactive]
        exact Finset.mem_union_left _ hn
      rcases (mem_indicate t m n).1 hin with h | h | h
      · exact h.2
      · exact ne_of_mem_alarmNames h
      · exact ne_of_mem_alarmNames h
    refine ⟨fun h => (hclean _ h).1 rfl, fun h => (hclean _ h).2 rfl, fun b hb => ?_⟩
    by_cases h0 : b = 0
    · exact Or.inl h0
    · right
      rw [← hactive, mem_indicate]
      exact Or.inr (Or.inr (mem_alarmNames.2 ⟨b, hb, h0, rfl⟩))
  · rintro ⟨hempty, hok, hothers⟩
    have hactive : (t.indicate m.payload).2.active = t.active ∪ alarmNames m.covered := by
      ext n
      rw [mem_indicate, Finset.mem_union]
      constructor
      · rintro (h | h | h)
        · exact Or.inl h.1
        · exact Or.inr h
        · obtain ⟨b, hb, h0, rfl⟩ := mem_alarmNames.1 h
          exact Finset.mem_union.1 ((hothers b hb).resolve_left h0)
      · rintro (h | h)
        · exact Or.inl ⟨h, fun hn => hempty (hn ▸ h), fun hn => hok (hn ▸ h)⟩
        · exact Or.inr (Or.inl h)
    refine ⟨hactive, fun e he hraised => ?_⟩
    have hedge : e ∈ edges t.active (t.indicate m.payload).2.active := he
    rw [hactive] at hedge
    simp only [edges, List.mem_append, List.mem_map, mem_sorted, Finset.mem_sdiff,
      Finset.mem_union] at hedge
    rcases hedge with ⟨n, ⟨hin, hout⟩, rfl⟩ | ⟨n, -, rfl⟩
    · exact hin.resolve_left hout
    · cases hraised

/-- An indication of antenna 2 without an alarm: the antenna's number is reported as a motor
jam. -/
theorem indicate_antenna_two : ∃ m : IndicationMessage,
    m.payload = [0x85, 2, 0, 2, 0] ∧
      (AlarmTracker.indicate {} m.payload).1 = [⟨true, "MotorJam"⟩] ∧
      ¬ AddsExactly m.covered {} (AlarmTracker.indicate {} m.payload) := by
  refine ⟨⟨some 2, 0, [], [], by decide⟩, by decide, by decide +kernel, ?_⟩
  rintro ⟨-, hraised⟩
  have hjam := hraised ⟨true, "MotorJam"⟩ (by decide +kernel) rfl
  revert hjam
  decide +kernel

end OpenAisg.Session
