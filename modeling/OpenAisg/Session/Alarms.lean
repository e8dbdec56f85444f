import Mathlib.Data.Finset.Basic
import Mathlib.Data.List.Sort
import Mathlib.Data.String.Basic
import OpenAisg.Retap.Ret

/-!
# The layer-7 demultiplexer and the alarm tracker

The part of `openaisg/session.py` that is pure: which inbound payload is an indication,
and what the reports of a device make of the set of active alarms.

* `retapRouter` — `RetapRouter`: an indication code is an indication whatever was
  asked, the expected procedure code is the response, the rest is stale.
* `AlarmTracker` — the active alarm set; `snapshot` and `indicate` return the
  edges they emit.
* `edges` — the edges from one set to another, in the order in which they are sent.
* `foldAlarms` — what a listener makes of the emitted edges, and `foldAlarms_snapshot`,
  `foldAlarms_indicate`: folding the edges of an update over the old set gives
  the new one.  A listener who began with the same set therefore knows it at any time.
-/

namespace OpenAisg.Session

open Link Retap

/-! ## Routing -/

/-- `INDICATION_CODES`. -/
def indicationCodes : List Byte := [alarmIndication, antAlarmIndication]

/-- The payload is an AlarmIndication. -/
def isIndication : Bytes → Bool
  | [] => false
  | code :: _ => decide (code ∈ indicationCodes)

/-- `RetapRouter(expected)(payload)`. -/
def retapRouter (expected : Option Byte) : Bytes → Verdict
  | [] => .unexpected
  | code :: _ =>
      if code ∈ indicationCodes then .indication
      else if expected = none ∨ expected = some code then .accept
      else .unexpected

/-- The router hands on exactly the indications. -/
theorem retapRouter_indication_iff (expected : Option Byte) (pl : Bytes) :
    retapRouter expected pl = .indication ↔ isIndication pl = true := by
  cases pl with
  | nil => simp [retapRouter, isIndication]
  | cons c cs =>
      by_cases hc : c ∈ indicationCodes
      · simp [retapRouter, isIndication, hc]
      · by_cases he : expected = none ∨ expected = some c <;>
          simp [retapRouter, isIndication, hc, he]

/-- What the router accepts for a request is what carries its procedure code. -/
theorem retapRouter_accept_iff (code : Byte) (pl : Bytes) :
    retapRouter (some code) pl = .accept ↔ pl.head? = some code ∧ isIndication pl = false := by
  cases pl with
  | nil => simp [retapRouter]
  | cons c cs =>
      by_cases hc : c ∈ indicationCodes
      · simp [retapRouter, isIndication, hc]
      · by_cases he : code = c
        · simp [retapRouter, isIndication, hc, he]
        · simp [retapRouter, isIndication, hc, he, Ne.symm he]

/-! ## The tracker -/

/-- The order of two sorted lists of the same names is the same. -/
theorem insertionSort_eq_of_perm {a b : List String} (h : a.Perm b) :
    a.insertionSort (· ≤ ·) = b.insertionSort (· ≤ ·) := by
  have hp : (a.insertionSort (· ≤ ·)).Perm (b.insertionSort (· ≤ ·)) :=
    (List.perm_insertionSort _ a).trans (h.trans (List.perm_insertionSort _ b).symm)
  have ha : (a.insertionSort (· ≤ ·)).Pairwise (· ≤ ·) := List.pairwise_insertionSort _ a
  have hb : (b.insertionSort (· ≤ ·)).Pairwise (· ≤ ·) := List.pairwise_insertionSort _ b
  exact hp.eq_of_pairwise (fun x y _ _ hxy hyx => le_antisymm hxy hyx) ha hb

/-- `sorted(s)`. -/
def sorted (s : Finset String) : List String :=
  Quot.liftOn s.val (List.insertionSort (· ≤ ·)) fun _ _ => insertionSort_eq_of_perm

@[simp] theorem mem_sorted (s : Finset String) (n : String) : n ∈ sorted s ↔ n ∈ s := by
  obtain ⟨v, hv⟩ := s
  induction v using Quot.ind with
  | mk l => exact (List.perm_insertionSort (· ≤ ·) l).mem_iff

/-- An alarm edge: raised or cleared, and the alarm's name. -/
structure AlarmEvent where
  raised : Bool
  name : String
  deriving DecidableEq, Repr

/-- `AlarmTracker`.  The set never holds an empty name or `OK`, since `reported` drops them. -/
structure AlarmTracker where
  active : Finset String := ∅
  deriving DecidableEq

/-- `{n for n in names if n and n != "OK"}`. -/
def reported (names : Finset String) : Finset String := names.filter fun n => n ≠ "" ∧ n ≠ "OK"

/-- The edges from one set to another: the raised ones first, each in order. -/
def edges (old new : Finset String) : List AlarmEvent :=
  (sorted (new \ old)).map (⟨true, ·⟩) ++ (sorted (old \ new)).map (⟨false, ·⟩)

/-- `AlarmTracker.snapshot`: the reported names replace the set.  With `emit` off the change is
silent. -/
def AlarmTracker.snapshot (t : AlarmTracker) (names : Finset String) (emit : Bool := true) :
    List AlarmEvent × AlarmTracker :=
  if !emit then ([], ⟨reported names⟩)
  else (edges t.active (reported names), ⟨reported names⟩)

/-- `AlarmTracker.indicate`: `proc | len16 | [antenna] | rc | codes`. -/
def AlarmTracker.indicate (t : AlarmTracker) (payload : Bytes) :
    List AlarmEvent × AlarmTracker :=
  t.snapshot (t.active ∪ reported ((payload.drop 3).map rcName).toFinset)

/-! ## Folding the edges -/

/-- One edge, as a listener applies it. -/
def applyAlarm (s : Finset String) (e : AlarmEvent) : Finset String :=
  if e.raised then insert e.name s else s.erase e.name

/-- All edges in order. -/
def foldAlarms (s : Finset String) (es : List AlarmEvent) : Finset String := es.foldl applyAlarm s

/-- A listener goes on where it stood. -/
theorem foldAlarms_append (s : Finset String) (es fs : List AlarmEvent) :
    foldAlarms s (es ++ fs) = foldAlarms (foldAlarms s es) fs := List.foldl_append ..

/-- Raised edges add their names. -/
theorem mem_foldAlarms_raised (ns : List String) (s : Finset String) (n : String) :
    n ∈ foldAlarms s (ns.map (⟨true, ·⟩)) ↔ n ∈ s ∨ n ∈ ns := by
  induction ns generalizing s with
  | nil => simp [foldAlarms]
  | cons m ms ih =>
      rw [List.map_cons, show foldAlarms s (⟨true, m⟩ :: ms.map (⟨true, ·⟩)) =
        foldAlarms (insert m s) (ms.map (⟨true, ·⟩)) from rfl, ih]
      simp only [Finset.mem_insert, List.mem_cons]
      tauto

/-- Cleared edges take theirs out. -/
theorem mem_foldAlarms_cleared (ns : List String) (s : Finset String) (n : String) :
    n ∈ foldAlarms s (ns.map (⟨false, ·⟩)) ↔ n ∈ s ∧ n ∉ ns := by
  induction ns generalizing s with
  | nil => simp [foldAlarms]
  | cons m ms ih =>
      rw [List.map_cons, show foldAlarms s (⟨false, m⟩ :: ms.map (⟨false, ·⟩)) =
        foldAlarms (s.erase m) (ms.map (⟨false, ·⟩)) from rfl, ih]
      simp only [Finset.mem_erase, List.mem_cons]
      tauto

/-- The edges lead from the old set to the new one. -/
theorem foldAlarms_edges (old new : Finset String) : foldAlarms old (edges old new) = new := by
  ext n
  rw [edges, foldAlarms_append, mem_foldAlarms_cleared, mem_foldAlarms_raised]
  simp only [mem_sorted, Finset.mem_sdiff]
  tauto

/-- So do the edges of a full report, -/
theorem foldAlarms_snapshot (t : AlarmTracker) (names : Finset String) :
    foldAlarms t.active (t.snapshot names).1 = (t.snapshot names).2.active := by
  simp only [AlarmTracker.snapshot, Bool.not_true, Bool.false_eq_true, if_false]
  exact foldAlarms_edges _ _

/-- and those of an indication. -/
theorem foldAlarms_indicate (t : AlarmTracker) (pl : Bytes) :
    foldAlarms t.active (t.indicate pl).1 = (t.indicate pl).2.active :=
  foldAlarms_snapshot t _

end OpenAisg.Session
