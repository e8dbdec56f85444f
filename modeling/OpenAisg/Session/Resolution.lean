import OpenAisg.Session.Futures
import OpenAisg.Session.Release

/-!
# Every command is answered

`run` clears `head` only after `_try_execute` has returned, and `_execute` resolves the
future after an `AisgError` but not after any other exception.  So whether a command is
answered depends on what can raise something else: arguments that the command cannot be
called with, and three kinds of event on the bus.

* `answerable` — the arguments the command can be called with.
* `Within`, `Breaks` — a command keeps the link and a clean log, or says why not.  The two
  are a walk over the procedures (`Honest.proc`, `Honest.sweepFrom`, `Honest.callCommand`).
* `wp_execute` — a claimed command is resolved exactly when its arguments are answerable
  and nothing fatal came in.
* `Settled`, `PassEnds` — every submitted command waits unclaimed or has ended with one
  result; and how a pass ends, from a head where that is so.
* `wp_finish_execute`, `wp_lastResort_idle` — the two sides of a pass: it executes a
  command, or none.
* `head_settled` — so, at every head of the loop, no future is left claimed.
* `Stuck`, `settled_or_stuck` — a head that is not settled holds a claimed command, and no
  pass gets rid of it.
-/

namespace OpenAisg.Session

open Hdlc Link Retap Prog

variable {W : Type} [Line W] [Clients W]

/-! ## Requests -/

/-- The link object is still there, and the log is clean. -/
def Within (s t : St W) : Prop := s.link.isSome = true → t.link.isSome = true ∧ Clean s t

instance : IsPreorder (St W) Within where
  refl _ h := ⟨h, Std.Refl.refl _⟩
  trans _ _ _ h h' hs :=
    ⟨(h' (h hs).1).1, IsTrans.trans (r := Clean) _ _ _ (h hs).2 (h' (h hs).1).2⟩

/-- An `AisgError` leaves it so; anything else leaves a fatal event in the log. -/
def Breaks (e : Exn) (s t : St W) : Prop :=
  s.link.isSome = true → (e.isAisg = true ∧ t.link.isSome = true ∧ Clean s t) ∨
    (e.isAisg = false ∧ Spoilt s t)

omit [Line W] [Clients W] in
/-- A clean beginning takes nothing from what is raised after it. -/
theorem absorbs_breaks : Absorbs (Within (W := W)) Breaks := by
  intro e s t u h h' hs
  obtain ⟨ht, hc⟩ := h hs
  rcases h' ht with ⟨he, hu, hc'⟩ | ⟨he, hsp⟩
  · exact Or.inl ⟨he, hu, IsTrans.trans (r := Clean) _ _ _ hc hc'⟩
  · exact Or.inr ⟨he, hc.spoilt hsp⟩

omit [Line W] [Clients W] in
/-- To raise an `AisgError` is to break nothing. -/
theorem walks_raise {α : Type} {e : Exn} (he : e.isAisg = true) :
    Walks Within Breaks (raise e : WorkerProg W α) :=
  fun _ hs => Or.inl ⟨he, hs, Std.Refl.refl _⟩

omit [Line W] [Clients W] in
/-- A pure computation that fails with an `AisgError` only. -/
theorem walks_ofExcept {α : Type} {r : Except Exn α} (hr : ∀ e, r = .error e → e.isAisg = true) :
    Walks Within Breaks (ofExcept r : WorkerProg W α) := by
  cases r with
  | ok a => exact walks_pure a
  | error e => exact walks_raise (hr e rfl)

/-- A response was the last thing logged, over a clean log. -/
def Answered (m : Bytes) (s : St W) (pl : Bytes) (t : St W) : Prop :=
  s.link.isSome = true → t.link.isSome = true ∧
    ∃ u f, Clean s u ∧ t.log = u.log ++ [.accepted m f] ∧ f.payload = pl

/-- A transport whose log tells what it did. -/
def Honest (r : Ret (St W)) : Prop :=
  r.antenna = none ∧ ∀ m t s, wp (r.request m t) (Answered m s) (fun e u => Breaks e s u)
    (fun _ => True) s

omit [Clients W] in
/-- The transport of the session logs what it does, because the link object does. -/
theorem honest_ret (cfg : Config) (a : Byte) (p : ℕ → Bool → Worker → Worker) :
    Honest (W := W) (ret cfg (some a) p) := by
  refine ⟨rfl, fun m t s => ?_⟩
  refine wp_onLink (fun hn e he hs => absurd (hn ▸ hs) (by simp)) fun l hl => ?_
  have hclean : ∀ {b : LinkSt W Worker}, Harmless ⟨s.world, l, s.log, s.wk⟩ b →
      Clean s (around b s.ports s.nextIdent s.shared) := by
    rintro b ⟨new, hb, hnew⟩
    exact ⟨new, hb, fun e he => fatal_of_harmless (hnew e he)⟩
  refine (exchange_told cfg.fuel _).mono (fun pl b hb _ => ?_) (fun e b hb _ => ?_) fun _ h => h
  · obtain ⟨u, f, hu, hlog, hf⟩ := hb
    exact ⟨rfl, around u s.ports s.nextIdent s.shared, f, hclean hu, hlog, hf⟩
  · rcases hb with ⟨he, hb⟩ | ⟨he, new, hb, a, ha, hf⟩
    · exact Or.inl ⟨he, rfl, hclean hb⟩
    · exact Or.inr ⟨he, new, hb, a, ha, fatal_of_failed hf⟩

/-- A message with two octets of data can be packed. -/
theorem procMessage_ok (code : Byte) {data : Bytes} (hd : data.length ≤ 2) :
    ∃ m, procMessage none code data = .ok m := by
  unfold procMessage packUint16
  rw [if_pos (by simp only [Option.toList_none, List.length_nil]; omega)]
  exact ⟨_, rfl⟩

section Procedures

variable {r : Ret (St W)} (h : Honest r)

include h

omit [Line W] [Clients W] in
/-- A procedure, and what its caller makes of the data.  If that fails with anything but an
`AisgError`, the procedure is GetTilt and its response was too short. -/
theorem Honest.proc_then {α : Type} {code : Byte} {data : Bytes} {t : Time}
    {g : Bytes → Except Exn α} (hd : data.length ≤ 2)
    (hg : ∀ d, ∀ e, g d = .error e → e.isAisg = false ∧ code = Retap.getTilt ∧ d.length < 2)
    (hok : code = Retap.getTilt → ∀ d a, g d = .ok a → 2 ≤ d.length) :
    Walks Within Breaks (r.proc code data t >>= fun d => ofExcept (g d) : WorkerProg W α) := by
  intro s
  by_cases hs : s.link.isSome = true
  swap
  · exact wp_any (fun _ _ h => absurd h hs) (fun _ _ h => absurd h hs) (fun _ => trivial) s
  obtain ⟨m, hm⟩ := procMessage_ok code hd
  have hhead : m.head? = some code := procMessage_head hm
  unfold Ret.proc
  rw [h.1, hm, wp_bind, wp_bind, wp_ofExcept]
  dsimp only
  rw [wp_bind]
  refine (h.2 m t s).mono (fun pl u hu => ?_) (fun _ _ h => h) fun _ h => h
  obtain ⟨hul, v, f, hv, hlog, hf⟩ := hu hs
  -- the response is fatal exactly when the caller cannot use its data
  have hclean : fatal (.accepted m f) = false → Clean s u := fun hfat =>
    IsTrans.trans (r := Clean) _ _ _ hv ⟨_, hlog, fun e he => by
      rw [List.mem_singleton.1 he]; exact hfat⟩
  have hspoilt : fatal (.accepted m f) = true → Spoilt s u := fun hfat =>
    hv.spoilt ⟨_, hlog, _, List.mem_singleton_self _, hfat⟩
  have hfatal : fatal (.accepted m f) = (decide (code = Retap.getTilt) &&
      noTilt (procResult none Retap.getTilt pl)) := by
    simp only [fatal, shortTilt, hhead, hf, Option.some.injEq]
  rw [wp_ofExcept]
  cases hres : procResult none code pl with
  | error e =>
      refine fun _ => Or.inl ⟨procResult_isAisg hres, hul, hclean ?_⟩
      rw [hfatal]
      by_cases hc : code = Retap.getTilt
      · subst hc
        simp [hres, noTilt]
      · simp [hc]
  | ok d =>
      dsimp only
      rw [wp_ofExcept]
      cases hgd : g d with
      | ok a =>
          refine fun _ => ⟨hul, hclean ?_⟩
          rw [hfatal]
          by_cases hc : code = Retap.getTilt
          · have hlen := hok hc d a hgd
            subst hc
            simp only [hres, noTilt, decide_true, Bool.true_and, decide_eq_false_iff_not]
            omega
          · simp [hc]
      | error e =>
          obtain ⟨he, hc, hlen⟩ := hg d e hgd
          refine fun _ => Or.inr ⟨he, hspoilt ?_⟩
          rw [hfatal]
          subst hc
          simp only [hres, noTilt, decide_true, Bool.true_and, decide_eq_true_eq]
          exact hlen

omit [Line W] [Clients W] in
/-- A procedure whose caller does not look at the data. -/
theorem Honest.proc {code : Byte} {data : Bytes} {t : Time} (hd : data.length ≤ 2)
    (hc : code ≠ Retap.getTilt) : Walks Within Breaks (r.proc code data t : WorkerProg W Bytes) := by
  have hthen := h.proc_then (g := fun d => .ok d) (t := t) hd (fun _ _ h => (nomatch h))
    fun hc' => absurd hc' hc
  intro s
  have hs := hthen s
  rwa [wp_bind] at hs

omit [Line W] [Clients W] in
/-- GetTilt, which does. -/
theorem Honest.getTilt : Walks Within Breaks r.getTilt := by
  unfold Ret.getTilt Ret.code
  rw [h.1]
  refine h.proc_then (Nat.zero_le _) (fun d e hd => ?_) fun _ d a hd => ?_
  · rcases d with _ | ⟨a, _ | ⟨b, d⟩⟩
    · cases hd
      exact ⟨rfl, rfl, Nat.zero_lt_two⟩
    · cases hd
      exact ⟨rfl, rfl, Nat.one_lt_two⟩
    · cases hd
  · rcases d with _ | ⟨a, _ | ⟨b, d⟩⟩
    · cases hd
    · cases hd
    · exact Nat.le_add_left 2 d.length

omit [Line W] [Clients W] in
/-- The procedures that return nothing. -/
theorem Honest.perform {code : Byte} {data : Bytes} {t : Time} (hd : data.length ≤ 2)
    (hc : code ≠ Retap.getTilt) : Walks Within Breaks (r.perform code data t : WorkerProg W Unit) :=
  (h.proc hd hc).bind absorbs_breaks fun _ => walks_pure _

omit [Line W] [Clients W] in
/-- A field number that fits an octet. -/
theorem Honest.getDeviceData {fid : ℕ} (hf : fid ≤ 255) :
    Walks Within Breaks (r.getDeviceData fid) := by
  obtain ⟨b, hb⟩ : ∃ b, pyByte fid = .ok b := by
    unfold pyByte
    rw [if_pos (by omega)]
    exact ⟨_, rfl⟩
  unfold Ret.getDeviceData Ret.code
  rw [hb, h.1]
  exact (walks_ofExcept fun _ h => by cases h).bind absorbs_breaks fun _ =>
    h.proc (Nat.succ_le_succ (Nat.zero_le _)) (by decide)

omit [Line W] [Clients W] in
/-- A sweep that stays below 256 skips the fields that fail with an `AisgError`. -/
theorem Honest.sweepFrom {first n : ℕ} (hn : first + n ≤ 256) :
    Walks Within Breaks (sweepFrom r first n) := by
  induction n generalizing first with
  | zero => exact walks_pure _
  | succ n ih =>
      have hfield : Walks Within Breaks (handle (do
          let d ← r.getDeviceData first
          pure [(hex2 (BitVec.ofNat 8 first), hexSp d)]) (onAisg (pure []))) := by
        refine Walks.handle ((h.getDeviceData (by omega)).bind absorbs_breaks fun _ =>
          walks_pure _) fun e d s t hd ht => ?_
        unfold onAisg at hd
        split_ifs at hd with he
        cases hd
        intro hs
        rcases ht hs with ⟨-, hl, hc⟩ | ⟨he', -⟩
        · exact ⟨hl, hc⟩
        · rw [he] at he'
          cases he'
      exact hfield.bind absorbs_breaks fun d => (ih (by omega)).bind absorbs_breaks fun _ =>
        walks_pure _

end Procedures

omit [Line W] [Clients W] in
/-- A sweep that comes to field 256 cannot return. -/
theorem wp_sweepFrom_far {r : Ret (St W)} {first n : ℕ} (h₁ : first ≤ 256) (h₂ : 256 < first + n)
    (s : St W) :
    wp (sweepFrom r first n) (fun _ _ => False) (fun e _ => e.isAisg = false) (fun _ => True) s := by
  induction n generalizing first s with
  | zero => omega
  | succ n ih =>
      unfold sweepFrom
      rw [wp_bind, wp_handle]
      by_cases hf : first = 256
      · subst hf
        have hb : pyByte 256 = .error (.py .valueError "bytes must be in range(0, 256)") := rfl
        unfold Ret.getDeviceData
        rw [hb]
        rfl
      · have hrest : ∀ (d : List (String × String)) (t : St W), wp (do
            let rest ← sweepFrom r (first + 1) n
            pure (d ++ rest)) (fun _ _ => False) (fun e _ => e.isAisg = false) (fun _ => True) t := by
          intro d t
          rw [wp_bind]
          exact ih (by omega) (by omega) t
        refine wp_any (fun d t => hrest d t) (fun e t => ?_) (fun _ => trivial) _
        unfold onAisg
        by_cases he : e.isAisg = true
        · rw [if_pos he]
          exact hrest [] t
        · rw [if_neg he]
          simpa using he

/-! ## Commands -/

/-- A value that `set_tilt` can pack: a number of at most 3276.7 degrees. -/
def tiltFits (v : PyVal) : Bool :=
  match pyFloat (some v), pyRoundTenths v with
  | .ok _, .ok n => decide (-32768 ≤ n ∧ n ≤ 32767)
  | _, _ => false

/-- The arguments a command can be called with.  Clients are not kept from others: `submit` takes
what it is given. -/
def answerable (name : CommandName) (args : List (String × PyVal)) : Bool :=
  match name, args with
  | .setTilt, [("degrees", v)] => tiltFits v
  | .getDeviceData, [("last", .int n)] => decide (n ≤ 255)
  | .setTilt, _ => false
  | _, [] => true
  | _, _ => false

/-- `target_tilt` can be assigned. -/
theorem tiltFits_float {v : PyVal} (h : tiltFits v = true) : ∃ x, pyFloat (some v) = .ok x := by
  unfold tiltFits at h
  cases hf : pyFloat (some v) with
  | ok x => exact ⟨x, rfl⟩
  | error e => rw [hf] at h; cases h

/-- The target of an answerable `set_tilt` is a number. -/
theorem answerable_float {args : List (String × PyVal)}
    (h : answerable .setTilt args = true) : ∃ x, pyFloat (args.lookup "degrees") = .ok x := by
  unfold answerable at h
  split at h
  · simpa using tiltFits_float h
  all_goals simp_all

/-- It can be packed. -/
theorem tiltFits_units {v : PyVal} (h : tiltFits v = true) :
    ∃ n data, pyRoundTenths v = .ok n ∧ packInt16 n = .ok data ∧ data.length = 2 := by
  unfold tiltFits at h
  cases hf : pyFloat (some v) with
  | error e => rw [hf] at h; cases h
  | ok x =>
      cases hr : pyRoundTenths v with
      | error e => rw [hf, hr] at h; cases h
      | ok n =>
          rw [hf, hr] at h
          have hn : -32768 ≤ n ∧ n ≤ 32767 := of_decide_eq_true h
          exact ⟨n, _, rfl, if_pos hn, rfl⟩

omit [Line W] [Clients W] in
/-- A command that can be called keeps the link and a clean log, or says why not. -/
theorem Honest.callCommand {r : Ret (St W)} (h : Honest r) {name : CommandName}
    {args : List (String × PyVal)} (ha : answerable name args = true) :
    Walks Within Breaks (callCommand r name args) := by
  have hb := absorbs_breaks (W := W)
  have hperform : ∀ {code : Byte} (t : Time), code ≠ Retap.getTilt →
      Walks Within Breaks (r.perform code [] t >>= fun _ => pure Result.none) :=
    fun t hc => (h.perform (Nat.zero_le _) hc).bind hb fun _ => walks_pure _
  have hcode : ∀ ant single, r.code ant single = single := fun _ _ => by
    rw [Ret.code, h.1]
    rfl
  unfold Session.callCommand
  split
  · exact ((h.proc (Nat.zero_le _) (by decide)).bind hb fun _ => walks_pure _).bind hb fun _ =>
      walks_pure _
  · exact h.getTilt.bind hb fun _ => walks_pure _
  · exact ((h.proc (Nat.zero_le _) (by rw [hcode]; decide)).bind hb fun _ => walks_pure _).bind hb
      fun _ => walks_pure _
  · exact (h.sweepFrom (by decide)).bind hb fun _ => walks_pure _
  · have hn := of_decide_eq_true ha
    exact (h.sweepFrom (by omega)).bind hb fun _ => walks_pure _
  · obtain ⟨n, data, hn, hdata, hlen⟩ := tiltFits_units ha
    rw [hn]
    have hset : Walks Within Breaks (r.setTiltUnits n) := by
      unfold Ret.setTiltUnits
      rw [hdata]
      exact h.perform (by omega) (by rw [hcode]; decide)
    exact (hset.bind hb fun _ => h.getTilt).bind hb fun _ => walks_pure _
  · exact hperform _ (by rw [hcode]; decide)
  · exact hperform _ (by rw [hcode]; decide)
  · exact hperform _ (by decide)
  · exact hperform _ (by decide)
  · -- no other arguments are answerable
    exfalso
    unfold answerable at ha
    split at ha
    · solve_by_elim
    · solve_by_elim
    · cases ha
    · cases name <;> solve_by_elim
    · cases ha

/-- An angle that cannot be rounded is an error of the language. -/
theorem pyRoundTenths_error {v : PyVal} {e : Exn} (h : pyRoundTenths v = .error e) :
    e.isAisg = false := by
  cases v <;> cases h <;> rfl

omit [Line W] [Clients W] in
/-- Without such arguments the call fails, if it ends, with an error of the language.  The cases
are the commands. -/
theorem wp_callCommand_bad {r : Ret (St W)} {name : CommandName} {args : List (String × PyVal)}
    (ha : answerable name args = false)
    (hf : name = .setTilt → ∃ x, pyFloat (args.lookup "degrees") = .ok x) (s : St W) :
    wp (callCommand r name args) (fun _ _ => False) (fun e _ => e.isAisg = false)
      (fun _ => True) s := by
  unfold Session.callCommand
  split
  · cases ha
  · cases ha
  · cases ha
  · cases ha
  · have hn := of_decide_eq_false ha
    rw [wp_bind]
    exact (wp_sweepFrom_far (Nat.le_add_left 1 255) (by omega) s).mono (fun _ _ h => h.elim)
      (fun _ _ h => h) fun _ h => h
  · rename_i v
    obtain ⟨x, hx⟩ := hf rfl
    have hx' : pyFloat (some v) = .ok x := by simpa using hx
    rw [wp_bind, wp_ofExcept]
    have ha' : tiltFits v = false := ha
    unfold tiltFits at ha'
    rw [hx'] at ha'
    cases hn : pyRoundTenths v with
    | error e => exact pyRoundTenths_error hn
    | ok n =>
        rw [hn] at ha'
        obtain ⟨msg, hpack⟩ := packInt16_error (of_decide_eq_false ha')
        dsimp only
        unfold setTiltCommand Ret.setTiltUnits
        rw [hpack]
        rfl
  · cases ha
  · cases ha
  · cases ha
  · cases ha
  · rfl

/-! ## Executing a command -/

/-- The answer is folded into the cached state and nothing is raised. -/
theorem wp_absorb (x : Result) (s : St W) :
    wp (absorb x) (fun _ t => t.log = s.log ∧ Aside s t) (fun _ _ => False) (fun _ => False) s := by
  unfold absorb snapshot
  rw [wp_bind, wp_update, wp_bind, wp_bind, wp_shared, wp_bind, wp_clock, wp_bind, wp_read,
    wp_bind, wp_self, wp_pure, wp_update]
  have hbooks : (s.wk.store x).head = s.wk.head := by cases x <;> rfl
  exact ⟨rfl, hbooks, fun held busy h => h.calls _⟩

/-- How the method of a claimed command ends: resolved over a clean log, or claimed still. -/
def Resolves (held : List Command) (seq : ℕ) (good : Prop) (s : St W) (raised : Bool)
    (t : St W) : Prop :=
  t.wk.head = s.wk.head ∧ if raised = true
    then (good → Spoilt s t) ∧ Tracked held [seq] t.shared
    else (good ∧ Clean s t) ∧ Tracked held [] t.shared ∧ (t.shared.futures seq).Ended

omit [Line W] in
/-- Resolving the claimed command ends the method well. -/
theorem resolves_resolve {held : List Command} {seq : ℕ} {good : Prop} {s t : St W}
    (hgood : good) (hclean : Clean s t) (hhead : t.wk.head = s.wk.head)
    (h : Tracked held [seq] t.shared) (o : Except Exn Result) {E : Exn → St W → Prop}
    {S : St W → Prop} :
    wp (resolve seq o) (fun _ u => Resolves held seq good s false u) E S t := by
  refine (wp_resolve h o).mono (fun _ u hu => ?_) (fun _ _ h => h) fun _ h => h
  obtain ⟨w, sh, rfl, hu⟩ := hu
  exact ⟨hhead, ⟨hgood, hclean⟩, hu⟩

omit [Clients W] in
/-- The body of the `try`: a result, or an exception whose class tells what came in. -/
theorem wp_callCommand (cfg : Config) (a : Byte) (cmd : Command) {s : St W}
    (hl : s.link.isSome = true)
    (hf : cmd.name = .setTilt → ∃ x, pyFloat (cmd.args.lookup "degrees") = .ok x) :
    wp (callCommand (ret cfg (some a) (onPoll cmd.name)) cmd.name cmd.args)
      (fun _ t => Aside s t ∧ answerable cmd.name cmd.args = true ∧ Clean s t)
      (fun e t => Aside s t ∧ if e.isAisg = true
        then answerable cmd.name cmd.args = true ∧ Clean s t
        else (answerable cmd.name cmd.args = true → Spoilt s t))
      (fun _ => True) s := by
  have hmoves : Moves Aside (callCommand (ret cfg (some a) (onPoll cmd.name)) cmd.name cmd.args
      : WorkerProg W Result) :=
    moves_callCommand (aside_closed.ret cfg (some a) (Books.onPoll cmd.name)) _ _
  by_cases hans : answerable cmd.name cmd.args = true
  · refine (((honest_ret cfg a _).callCommand hans s).and (hmoves.wp s)).mono
      (fun _ t ht => ⟨ht.2, hans, (ht.1 hl).2⟩) (fun e t ht => ⟨ht.2, ?_⟩) fun _ _ => trivial
    rcases ht.1 hl with ⟨he, -, hc⟩ | ⟨he, hsp⟩
    · rw [if_pos he]
      exact ⟨hans, hc⟩
    · rw [if_neg (by simp [he])]
      exact fun _ => hsp
  · refine ((wp_callCommand_bad (by simpa using hans) hf s).and (hmoves.wp s)).mono
      (fun _ t ht => ht.1.elim) (fun e t ht => ⟨ht.2, ?_⟩) fun _ _ => trivial
    rw [if_neg (by simp [ht.1])]
    exact fun h => absurd h hans

/-- The `try` of `_execute`, from a claimed future: resolved, or raised with the future claimed
still. -/
theorem wp_runCommand (cfg : Config) (a : Byte) {cmd : Command} {held : List Command} {s : St W}
    (hl : s.link.isSome = true)
    (hf : cmd.name = .setTilt → ∃ x, pyFloat (cmd.args.lookup "degrees") = .ok x)
    (h : Tracked held [cmd.seq] s.shared) :
    wp (runCommand cfg cmd (some a))
      (fun _ t => Resolves held cmd.seq (answerable cmd.name cmd.args = true) s false t)
      (fun _ t => Resolves held cmd.seq (answerable cmd.name cmd.args = true) s true t)
      (fun _ => True) s := by
  unfold runCommand
  rw [wp_bind, wp_handle, wp_bind]
  refine (wp_callCommand cfg a cmd hl hf).mono (fun x t ht => ?_) (fun e t ht => ?_) fun _ h => h
  · obtain ⟨haside, hans, hclean⟩ := ht
    show wp (absorb x >>= fun _ => resolve cmd.seq (.ok x)) _ _ _ t
    rw [wp_bind]
    refine (wp_absorb x t).mono (fun _ u hu => ?_) (fun _ _ h => h.elim) fun _ _ => trivial
    exact resolves_resolve hans (IsTrans.trans (r := Clean) _ _ _ hclean (Clean.of_eq hu.1))
      (hu.2.head.trans haside.head) (hu.2.tracked _ _ (haside.tracked _ _ h)) _
  obtain ⟨haside, ht⟩ := ht
  have htracked := haside.tracked _ _ h
  by_cases he : e.isAisg = true
  swap
  · -- no clause matches
    rw [if_neg he] at ht
    have hreset : e.isReset = false := by
      by_contra hr
      exact he (Exn.isAisg_of_isReset (by simpa using hr))
    unfold onReset
    rw [hreset, if_neg he]
    exact ⟨haside.head, ht, htracked⟩
  rw [if_pos he] at ht
  obtain ⟨hans, hclean⟩ := ht
  have hresolve : ∀ (u : St W) {Q : Option Result → St W → Prop} {E : Exn → St W → Prop}
      {S : St W → Prop}, Clean s u → u.wk.head = s.wk.head →
      Tracked held [cmd.seq] u.shared →
      (∀ v, Resolves held cmd.seq (answerable cmd.name cmd.args = true) s false v → Q none v) →
      wp (do
        resolve cmd.seq (.error e)
        pure none) Q E S u := by
    intro u Q E S hcu hhead hu hQ
    rw [wp_bind]
    exact (resolves_resolve hans hcu hhead hu _).mono (fun _ v hv => hQ v hv) (fun _ _ h => h)
      fun _ h => h
  unfold onReset
  by_cases hreset : e.isReset = true
  · rw [if_pos hreset]
    refine (wp_bind _ _).2 (wp_update.2 ((wp_bind _ _).2 ?_))
    -- the release of a failed link may raise, and then nothing resolves the future
    refine ((wp_failLink e.str _).and ((aside_closed.failLink e.str).wp _)).mono
      (fun _ u hu => ?_) (fun e' u hu => ?_) fun _ _ => trivial
    · have hcu : Clean s u := IsTrans.trans (r := Clean) _ _ _ hclean hu.1.2.2
      exact hresolve u hcu (hu.2.head.trans haside.head) (hu.2.tracked _ _ htracked) fun _ hv => hv
    · have hsp : Spoilt s u := hclean.spoilt hu.1.2.2
      exact ⟨hu.2.head.trans haside.head, fun _ => hsp, hu.2.tracked _ _ htracked⟩
  · rw [if_neg hreset, if_pos he]
    refine (wp_bind _ _).2 (wp_update.2 ((wp_bind _ _).2 ((wp_onlyIf _ _).2
      ⟨fun _ => wp_setState.2 ?_, fun _ => ?_⟩)))
    · exact hresolve _ hclean ((Worker.setState_head _ _ _).trans haside.head) htracked
        fun _ hv => hv
    · exact hresolve _ hclean haside.head htracked fun _ hv => hv

/-- **A claimed command is resolved** exactly when its arguments are answerable and nothing
fatal comes in. -/
theorem wp_execute (cfg : Config) {cmd : Command} {held : List Command} {s : St W}
    (hl : s.link.isSome = true) (ha : s.wk.address.isSome = true)
    (h : Tracked held [cmd.seq] s.shared) :
    wp (execute cfg cmd)
      (fun _ t => Resolves held cmd.seq (answerable cmd.name cmd.args = true) s false t)
      (fun _ t => Resolves held cmd.seq (answerable cmd.name cmd.args = true) s true t)
      (fun _ => True) s := by
  obtain ⟨a, ha⟩ := Option.isSome_iff_exists.1 ha
  have hfin : ∀ (raised : Bool) (t : St W),
      Resolves held cmd.seq (answerable cmd.name cmd.args = true) s raised t →
      wp (do
        let now ← clock
        update fun wk => { wk with lastCommandAt := now }
        update Worker.drainIndications : WorkerProg W Unit)
        (fun _ u => Resolves held cmd.seq (answerable cmd.name cmd.args = true) s raised u)
        (fun _ _ => False) (fun _ => False) t := by
    intro raised t ht
    rw [wp_bind, wp_clock, wp_bind, wp_update, wp_update]
    exact ⟨(Worker.drainIndications_head _).trans ht.1, ht.2⟩
  have hrun : ∀ t : St W, t.log = s.log → t.wk.head = s.wk.head → t.shared = s.shared →
      t.link = s.link →
      (cmd.name = .setTilt → ∃ x, pyFloat (cmd.args.lookup "degrees") = .ok x) →
      wp (ensure (runCommand cfg cmd (some a)) do
        let now ← clock
        update fun wk => { wk with lastCommandAt := now }
        update Worker.drainIndications)
        (fun _ u => Resolves held cmd.seq (answerable cmd.name cmd.args = true) s false u)
        (fun _ u => Resolves held cmd.seq (answerable cmd.name cmd.args = true) s true u)
        (fun _ => True) t := by
    intro t hlog hhead hsh hlink hf
    have hback : ∀ raised u,
        Resolves held cmd.seq (answerable cmd.name cmd.args = true) t raised u →
        Resolves held cmd.seq (answerable cmd.name cmd.args = true) s raised u := by
      intro raised u hu
      unfold Resolves Clean Spoilt at hu ⊢
      rwa [hlog, hhead] at hu
    rw [wp_ensure]
    refine (wp_runCommand cfg a (hlink ▸ hl) hf (hsh ▸ h)).mono (fun _ u hu => ?_)
      (fun _ u hu => ?_) fun _ h => h
    · exact (hfin false u (hback _ _ hu)).mono (fun _ _ h => h) (fun _ _ h => h.elim)
        fun _ _ => trivial
    · exact (hfin true u (hback _ _ hu)).mono (fun _ _ h => h) (fun _ _ h => h.elim)
        fun _ _ => trivial
  unfold execute
  rw [wp_bind, wp_self, ha, wp_bind, wp_onlyIf]
  refine ⟨fun hset => ?_, fun hset => ?_⟩
  · have hset : cmd.name = .setTilt := of_decide_eq_true hset
    rw [wp_bind, wp_ofExcept]
    cases hx : pyFloat (cmd.args.lookup "degrees") with
    | ok x =>
        exact hrun _ rfl rfl rfl rfl fun _ => ⟨x, hx⟩
    | error e =>
        -- `float()` raises before the `try`
        refine ⟨rfl, fun hgood => ?_, h⟩
        obtain ⟨x, hx'⟩ := answerable_float (hset ▸ hgood)
        rw [hx] at hx'
        cases hx'
  · exact hrun s rfl rfl rfl rfl fun hset' => absurd hset' (of_decide_eq_false hset)

/-! ## Passes -/

/-- Every submitted command waits unclaimed or has ended with one result.  None is claimed: at a
head of the loop nothing runs. -/
def Settled (s : St W) : Prop := Tracked s.wk.head.toList [] s.shared

omit [Line W] [Clients W] in
/-- What leaves the futures alone leaves them settled. -/
theorem Aside.settled {s t : St W} (h : Aside s t) (hs : Settled s) : Settled t := by
  unfold Settled at hs ⊢
  rw [h.head]
  exact h.tracked _ _ hs

/-- What a verdict promises. -/
def Decided (v : Verdict) (t : St W) : Prop :=
  match v with
  | .execute cmd => t.wk.head = some cmd ∧ Tracked [] [cmd.seq] t.shared ∧
      t.link.isSome = true ∧ t.wk.address.isSome = true
  | .finished => Tracked [] [] t.shared
  | .goOn => Settled t

/-- `_refresh_lease` keeps the pairing and leaves the futures alone. -/
theorem wp_refreshLease {s : St W} (hp : Paired s) :
    wp refreshLease (fun _ t => Paired t ∧ Aside s t) (fun _ t => Aside s t) (fun _ => True) s :=
  (wp.and (pairs_refreshLease s hp) (aside_closed.refreshLease.wp s)).mono (fun _ _ h => h)
    (fun _ _ h => h.2) fun _ _ => trivial

/-- `_try_execute` settles a command, leaves it waiting, or decides to execute it. -/
theorem wp_attempt {cmd : Command} {s : St W} (hp : Paired s) (hh : s.wk.head = some cmd)
    (h : Settled s) : wp (attempt cmd) Decided (fun _ t => Settled t) (fun _ => True) s := by
  unfold attempt
  rw [wp_bind]
  refine (wp_refreshLease hp).mono (fun _ t ht => ?_) (fun _ t ht => ht.settled h) fun _ h => h
  obtain ⟨hpt, haside⟩ := ht
  have hht : t.wk.head = some cmd := haside.head.trans hh
  have hset : Settled t := haside.settled h
  have htracked : Tracked [cmd] [] t.shared := by
    unfold Settled at hset
    rwa [hht] at hset
  rw [wp_bind, wp_self, wp_ite, wp_ite]
  refine ⟨fun hst => ?_, fun _ => ⟨fun _ => ?_, fun _ => ?_⟩⟩
  · have hup : Up t := hpt.up (by rw [hst]; decide)
    obtain ⟨l, hl, -⟩ := hup.2.1
    rw [wp_bind]
    refine (wp_claim htracked).mono (fun claimed u hu => ?_) (fun _ _ h => h) fun _ h => h
    obtain ⟨w, sh, rfl, hu⟩ := hu
    cases claimed with
    | false => exact (by simpa using hu : Tracked [] [] sh)
    | true =>
        exact ⟨hht, by simpa using hu, by rw [hl]; rfl, hup.2.2.address⟩
  · rw [wp_bind, wp_self, wp_bind]
    refine (wp_abandon htracked _).mono (fun _ u hu => ?_) (fun _ _ h => h) fun _ h => h
    obtain ⟨w, sh, rfl, hu⟩ := hu
    exact hu
  · rw [wp_bind, wp_clock, wp_ite]
    refine ⟨fun _ => ?_, fun _ => ?_⟩
    · rw [wp_bind]
      refine (wp_abandon (s := { t with world := (Line.monotonic t.world).2 }) htracked _).mono
        (fun _ u hu => ?_) (fun _ _ h => h) fun _ h => h
      obtain ⟨w, sh, rfl, hu⟩ := hu
      exact hu
    · exact hset

/-- So does the first half of a pass, whatever it takes from the queue. -/
theorem wp_dispatch (cfg : Config) {s : St W} (hp : Paired s) (h : Settled s) :
    wp (dispatch cfg) Decided (fun _ t => Settled t) (fun _ => True) s := by
  unfold dispatch
  rw [wp_bind]
  refine (wp_refreshLease hp).mono (fun _ t ht => ?_) (fun _ t ht => ht.settled h) fun _ h => h
  obtain ⟨hpt, haside⟩ := ht
  have hset : Settled t := haside.settled h
  rw [wp_bind, wp_self, wp_bind]
  have htake : wp (onlyIf t.wk.head.isNone do
      let c ← take cfg
      setHead c : WorkerProg W Unit) (fun _ u => Paired u ∧ Settled u) (fun _ u => Settled u)
      (fun _ => True) t := by
    rw [wp_onlyIf]
    refine ⟨fun hnone => ?_, fun _ => ⟨hpt, hset⟩⟩
    have hnone : t.wk.head = none := by simpa using hnone
    have htracked : Tracked [] [] t.shared := by
      unfold Settled at hset
      rwa [hnone] at hset
    rw [wp_bind]
    refine (wp_take cfg htracked).mono (fun c u hu => ?_) (fun _ u hu => hu ▸ hset) fun _ h => h
    obtain ⟨w, sh, rfl, hu⟩ := hu
    have hkeep : Keep t { t with world := w, shared := sh, wk := { t.wk with head := c } } :=
      Keep.of_eq rfl rfl rfl rfl rfl
    refine ⟨hkeep.paired hpt, ?_⟩
    simpa [Settled] using hu
  refine htake.mono (fun _ u hu => ?_) (fun _ _ h => h) fun _ h => h
  rw [wp_bind, wp_self]
  cases hh : u.wk.head with
  | none => exact hu.2
  | some cmd => exact wp_attempt hu.1 hh hu.2

/-- A pass of `run`, up to its verdict. -/
def opening (cfg : Config) : WorkerProg W Verdict := do
  let stop ← shared (·.stop)
  if stop then pure .goOn
  else do
    let now ← clock
    update fun wk => { wk with heartbeat := now }
    dispatch cfg

/-- The pass from `s` executes a command, from state `u` on. -/
def Executes (cfg : Config) (s : St W) (cmd : Command) (u : St W) : Prop :=
  opening cfg s = (.ret (.execute cmd), u)

/-- The command that the pass executes, if any, has answerable arguments, and nothing
fatal came in. -/
def Met (cfg : Config) (s t : St W) : Prop :=
  ∀ cmd u, Executes cfg s cmd u → answerable cmd.name cmd.args = true ∧ Clean u t

/-- A pass that does not come to a command meets this. -/
theorem met_of_opening {cfg : Config} {s t : St W} {v : Verdict}
    (h : (opening cfg s).1 = .ret v) (hv : ∀ cmd, v = .execute cmd →
      answerable cmd.name cmd.args = true ∧ Clean (opening cfg s).2 t) : Met cfg s t := by
  intro cmd u hx
  have hx : opening cfg s = (.ret (.execute cmd), u) := hx
  rw [hx] at h hv
  cases h
  exact hv cmd rfl

/-- The worker holds a command that it has claimed already. -/
def Stuck (s : St W) : Prop := ∃ cmd, s.wk.head = some cmd ∧ Tracked [] [cmd.seq] s.shared

omit [Line W] [Clients W] in
/-- Its future is RUNNING. -/
theorem Stuck.running {s : St W} (h : Stuck s) :
    ∃ cmd, s.wk.head = some cmd ∧ (s.shared.futures cmd.seq).state = .running := by
  obtain ⟨cmd, hh, ht⟩ := h
  exact ⟨cmd, hh, (ht.claimed cmd.seq (List.mem_singleton_self _)).2.1⟩

/-- How a pass ends: with all futures settled, or with `head` claimed.  The second is so exactly if
the pass executed a command that was not answerable or met something fatal. -/
def PassEnds (cfg : Config) (s t : St W) : Prop :=
  (Met cfg s t ∧ Settled t ∧
    ∀ cmd u, Executes cfg s cmd u → t.wk.head = none ∧ (t.shared.futures cmd.seq).Ended) ∨
  (¬ Met cfg s t ∧ Stuck t)

omit [Clients W] in
/-- The catch-all handler leaves the futures alone. -/
theorem wp_lastResort (s : St W) :
    wp lastResort (fun _ t => Aside s t ∧ Clean s t) (fun _ _ => True) (fun _ => True) s := by
  unfold lastResort
  rw [wp_bind]
  refine ((wp_failLink _ s).and ((aside_closed.failLink _).wp s)).mono (fun _ t ht => ?_)
    (fun _ _ _ => trivial) fun _ _ => trivial
  rw [wp_pause]
  exact ⟨⟨ht.2.head, ht.2.tracked⟩, ht.1.2.2⟩

/-- The command that a pass executes is what its first half has decided. -/
theorem executes_iff {cfg : Config} {s : St W} (hstop : (begun s).shared.stop = false)
    {cmd : Command} {u : St W} :
    Executes cfg s cmd u ↔ dispatch cfg (begun s) = (.ret (.execute cmd), u) := by
  have hnot : (((Clients.others s.world).1.foldl Shared.apply s.shared).stop = true) = False :=
    eq_false (Bool.eq_false_iff.1 hstop)
  unfold Executes opening begun
  simp only [bind_run, Session.shared, sync, modify_run, read_run, hnot, if_false, clock, update]

/-- A pass that ends settled, and has executed nothing. -/
theorem PassEnds.idle {cfg : Config} {s t : St W} (hno : ∀ cmd u, ¬ Executes cfg s cmd u)
    (ht : Settled t) : PassEnds cfg s t :=
  Or.inl ⟨fun cmd u he => absurd he (hno cmd u), ht, fun cmd u he => absurd he (hno cmd u)⟩

/-- Such a pass may also end in the catch-all handler. -/
theorem wp_lastResort_idle {cfg : Config} {s t : St W} (hno : ∀ cmd u, ¬ Executes cfg s cmd u)
    (ht : Settled t) :
    wp lastResort (fun _ u => PassEnds cfg s u) (fun _ _ => True) (fun _ => True) t :=
  (wp_lastResort t).mono (fun _ _ hu => PassEnds.idle hno (hu.1.settled ht))
    (fun _ _ _ => trivial) fun _ _ => trivial

/-- A pass that executes a command, from state `t` on: it is settled when `_execute` returns, and
the handler finds `head` claimed when it raises. -/
theorem wp_finish_execute {cfg : Config} {s t : St W} {cmd : Command}
    (hthis : Executes cfg s cmd t) (h : Decided (.execute cmd) t) :
    wp (finish cfg (.execute cmd)) (fun _ u => PassEnds cfg s u)
      (fun _ u => wp lastResort (fun _ v => PassEnds cfg s v) (fun _ _ => True) (fun _ => True) u)
      (fun _ => True) t := by
  obtain ⟨hh, htracked, hl, ha⟩ := h
  -- the pass executes no other command
  have hexec : ∀ cmd' u, Executes cfg s cmd' u → cmd' = cmd ∧ u = t := by
    intro cmd' u hx
    have hx : opening cfg s = (.ret (.execute cmd'), u) := hx
    have hthis : opening cfg s = (.ret (.execute cmd), t) := hthis
    rw [hx] at hthis
    cases hthis
    exact ⟨rfl, rfl⟩
  show wp (execute cfg cmd >>= fun _ => setHead none) _ _ _ t
  rw [wp_bind]
  refine (wp_execute cfg hl ha htracked).mono (fun _ u hu => ?_) (fun e u hu => ?_)
    fun _ _ => trivial
  · obtain ⟨-, ⟨hans, hclean⟩, hu, hend⟩ := hu
    refine Or.inl ⟨fun cmd' u' hx => ?_, hu, fun cmd' u' hx => ?_⟩
    · obtain ⟨rfl, rfl⟩ := hexec cmd' u' hx
      exact ⟨hans, hclean⟩
    · obtain ⟨rfl, -⟩ := hexec cmd' u' hx
      exact ⟨rfl, hend⟩
  · obtain ⟨hhead, hspoilt, hu⟩ := hu
    refine (wp_lastResort u).mono (fun _ v hv => Or.inr ⟨fun hmet => ?_, cmd, ?_, ?_⟩)
      (fun _ _ h => h) fun _ h => h
    · obtain ⟨hans, hclean⟩ := hmet cmd t hthis
      exact hclean.not_spoilt ((hspoilt hans).clean hv.2)
    · exact hv.1.head.trans (hhead.trans hh)
    · exact hv.1.tracked _ _ hu

/-- A pass from a settled head, on both of its sides. -/
theorem wp_runPass (cfg : Config) {s : St W} (hp : Paired s) (h : Settled s) :
    wp (runPass cfg) (fun b t => b = true → PassEnds cfg s t) (fun _ _ => True) (fun _ => True)
      s := by
  have hp₁ : Paired (begun s) := Keep.paired (s := s) (Keep.of_eq rfl rfl rfl rfl rfl) hp
  have hset₁ : Settled (begun s) := h.calls _
  -- or none is and the futures are settled already.
  refine wp_pass (V := fun v t => (∀ cmd u, Executes cfg s cmd u ↔ v = .execute cmd ∧ u = t) ∧
    Decided v t) (fun hstop => ?_) (fun v t hv => ?_) fun _ ht => ht
  · obtain ⟨hret, hraise, -⟩ := wp_iff.1 (wp_dispatch cfg hp₁ hset₁)
    refine wp_iff.2 ⟨fun v t hv => ⟨fun cmd u => ?_, hret v t hv⟩, fun e t he => ?_,
      fun _ _ => trivial⟩
    · rw [executes_iff hstop, hv]
      constructor
      · rintro ⟨⟩
        exact ⟨rfl, rfl⟩
      · rintro ⟨rfl, rfl⟩
        rfl
    · refine wp_lastResort_idle (fun cmd u hx => ?_) (hraise e t he)
      rw [executes_iff hstop, he] at hx
      cases hx
  · obtain ⟨hexec, hdec⟩ := hv
    cases v with
    | finished =>
        exact PassEnds.idle (fun cmd u hx => nomatch ((hexec cmd u).1 hx).1) hdec
    | goOn =>
        have hno : ∀ cmd u, ¬ Executes cfg s cmd u := fun cmd u hx =>
          nomatch ((hexec cmd u).1 hx).1
        exact (aside_closed.step cfg |>.wp t).mono (fun _ u hu => PassEnds.idle hno (hu.settled hdec))
          (fun _ u hu => wp_lastResort_idle hno (hu.settled hdec)) fun _ _ => trivial
    | execute cmd => exact wp_finish_execute ((hexec cmd t).2 ⟨rfl, rfl⟩) hdec

/-- **Every command is answered**, in a run whose passes all execute commands with
answerable arguments to which nothing fatal comes in: every submitted command waits
unclaimed or has ended with one result, and the next pass ends so exactly when it meets
this too; otherwise `head` stays claimed. -/
theorem head_settled {cfg : Config} {w : W} {s : St W} (h : HeadBy cfg (Met cfg) w s) :
    Settled s ∧ ∀ t, Pass cfg s t → PassEnds cfg s t := by
  have hset : Settled s := by
    induction h with
    | refl => exact Tracked.init
    | @tail t u ht hp ih =>
        have hw := wp_runPass cfg (paired_head (head_of_headBy ht)) ih
        unfold wp at hw
        rw [hp.1] at hw
        rcases hw rfl with ⟨-, hu, -⟩ | ⟨hno, -⟩
        · exact hu
        · exact absurd hp.2 hno
  refine ⟨hset, fun t ht => ?_⟩
  have hw := wp_runPass cfg (paired_head (head_of_headBy h)) hset
  unfold wp at hw
  rw [ht] at hw
  exact hw rfl

/-! ## A claimed head blocks the worker -/

omit [Line W] in
/-- `set_running_or_notify_cancel` on a future that is RUNNING. -/
theorem wp_claim_busy {held : List Command} {busy : List ℕ} {n : ℕ} {s : St W}
    (h : Tracked held busy s.shared) (hn : n ∈ busy) :
    wp (claim n) (fun _ _ => False) (fun _ t => Aside s t) (fun _ => False) s := by
  have hcalls := h.calls (Clients.others s.world).1
  have hrunning := (hcalls.claimed n hn).2.1
  unfold claim
  rw [wp_bind, wp_shared, hrunning]
  exact ⟨rfl, fun _ _ h => h.calls _⟩

omit [Line W] in
/-- A claimed command cannot be failed either. -/
theorem wp_abandon_busy {held : List Command} {busy : List ℕ} {cmd : Command} {s : St W}
    (h : Tracked held busy s.shared) (hn : cmd.seq ∈ busy) (e : Exn) :
    wp (abandon cmd e) (fun _ _ => False) (fun _ t => Aside s t) (fun _ => False) s := by
  unfold abandon
  rw [wp_bind]
  exact (wp_claim_busy h hn).mono (fun _ _ h => h.elim) (fun _ _ h => h) fun _ h => h

/-- The worker cannot get rid of the command. -/
theorem wp_attempt_stuck {cmd : Command} {s : St W} (h : Tracked [] [cmd.seq] s.shared) :
    wp (attempt cmd) (fun v t => v = .goOn ∧ Aside s t) (fun _ t => Aside s t) (fun _ => True)
      s := by
  have hmem : cmd.seq ∈ [cmd.seq] := List.mem_singleton_self _
  unfold attempt
  rw [wp_bind]
  refine (aside_closed.refreshLease.wp s).mono (fun _ t ht => ?_) (fun _ _ h => h)
    fun _ _ => trivial
  have htracked := ht.tracked _ _ h
  have hafter : ∀ u, Aside t u → Aside s u := fun u hu => IsTrans.trans _ _ _ ht hu
  rw [wp_bind, wp_self, wp_ite, wp_ite]
  refine ⟨fun _ => ?_, fun _ => ⟨fun _ => ?_, fun _ => ?_⟩⟩
  · rw [wp_bind]
    exact (wp_claim_busy htracked hmem).mono (fun _ _ h => h.elim) (fun _ u hu => hafter u hu)
      fun _ h => h.elim
  · rw [wp_bind, wp_self, wp_bind]
    exact (wp_abandon_busy htracked hmem _).mono (fun _ _ h => h.elim) (fun _ u hu => hafter u hu)
      fun _ h => h.elim
  · rw [wp_bind, wp_clock, wp_ite]
    refine ⟨fun _ => ?_, fun _ => ⟨rfl, ht.head, ht.tracked⟩⟩
    rw [wp_bind]
    refine (wp_abandon_busy (s := { t with world := (Line.monotonic t.world).2 }) htracked hmem
      _).mono (fun _ _ h => h.elim) (fun _ u hu => hafter u ⟨hu.head, hu.tracked⟩)
      fun _ h => h.elim

/-- The first half of such a pass raises in `_try_execute`, or leaves the command waiting. -/
theorem wp_dispatch_stuck (cfg : Config) {cmd : Command} {s : St W} (hh : s.wk.head = some cmd)
    (h : Tracked [] [cmd.seq] s.shared) :
    wp (dispatch cfg) (fun v t => v = .goOn ∧ Aside s t) (fun _ t => Aside s t) (fun _ => True)
      s := by
  unfold dispatch
  rw [wp_bind]
  refine (aside_closed.refreshLease.wp s).mono (fun _ t ht => ?_) (fun _ _ h => h)
    fun _ _ => trivial
  have hht : t.wk.head = some cmd := ht.head.trans hh
  rw [wp_bind, wp_self, wp_bind, wp_onlyIf, hht]
  refine ⟨fun hb => (nomatch hb), fun _ => ?_⟩
  rw [wp_bind, wp_self, hht]
  exact (wp_attempt_stuck (ht.tracked _ _ h)).mono
    (fun _ u hu => ⟨hu.1, IsTrans.trans _ _ _ ht hu.2⟩) (fun _ u hu => IsTrans.trans _ _ _ ht hu)
    fun _ h => h

omit [Line W] [Clients W] in
/-- What leaves the futures alone leaves the worker stuck. -/
theorem Aside.stuck {s t : St W} (h : Aside s t) (hs : Stuck s) : Stuck t := by
  obtain ⟨cmd, hh, ht⟩ := hs
  exact ⟨cmd, h.head.trans hh, h.tracked _ _ ht⟩

/-- A pass from such a head comes back to it. -/
theorem wp_runPass_stuck (cfg : Config) {s : St W} (h : Stuck s) :
    wp (runPass cfg) (fun b t => b = true → Stuck t) (fun _ _ => True) (fun _ => True) s := by
  obtain ⟨cmd, hh, ht⟩ := h
  have hstuck : Stuck (begun s) := ⟨cmd, hh, ht.calls _⟩
  refine wp_pass (V := fun v t => v = .goOn ∧ Stuck t) (E := Stuck) (fun _ => ?_) (fun v t hv => ?_)
    fun t ht => ?_
  · exact (wp_dispatch_stuck cfg (s := begun s) hh (ht.calls _)).mono
      (fun _ _ hu => ⟨hu.1, hu.2.stuck hstuck⟩) (fun _ _ hu => hu.stuck hstuck) fun _ h => h
  · obtain ⟨rfl, hv⟩ := hv
    exact (aside_closed.step cfg |>.wp t).mono (fun _ u hu => hu.stuck hv)
      (fun _ u hu => hu.stuck hv) fun _ _ => trivial
  · exact (wp_lastResort t).mono (fun _ _ hu => hu.1.stuck ht) (fun _ _ _ => trivial)
      fun _ _ => trivial

/-- Every head is settled, or stuck for good.  There is no third kind, so the condition of
`head_settled` is met until the first pass that ends stuck. -/
theorem settled_or_stuck {cfg : Config} {w : W} {s : St W} (h : Head cfg w s) :
    Settled s ∨ Stuck s := by
  induction h with
  | refl => exact Or.inl Tracked.init
  | @tail t u ht hp ih =>
      rcases ih with hset | hstuck
      · have hw := wp_runPass cfg (paired_head ht) hset
        unfold wp at hw
        rw [hp] at hw
        rcases hw rfl with ⟨-, hu, -⟩ | ⟨-, hu⟩
        · exact Or.inl hu
        · exact Or.inr hu
      · have hw := wp_runPass_stuck cfg hstuck
        unfold wp at hw
        rw [hp] at hw
        exact Or.inr (hw rfl)

/-- A device that answers its n-th request with one octet of data too few for a tilt, and a
client that asks for the tilt. -/
def shortAt (n : ℕ) : Bench ClientCall :=
  { plan :=
    { answer := fun i m => if i = n then some (okResponse Retap.getTilt [30]) else deviceAnswer [] m
      reply := fun _ => deviceReply
      calls := fun i => if i = 0 then [.submit .getTilt [] 5 0 (ms 20000)] else [] } }

/-- The head after the first connection, where the command waits. -/
def waitingHead (n : ℕ) : St (Bench ClientCall) := runPasses attentive 1 (St.init (shortAt n))

/-- The head after the pass that executes it. -/
def executedHead (n : ℕ) : St (Bench ClientCall) := runPasses attentive 1 (waitingHead n)

theorem head_settled_executed : Settled (executedHead 100) := by
  have hfirst : HeadBy attentive (Met attentive) (shortAt 100) (waitingHead 100) := by
    refine headBy_runPasses .refl (by decide +kernel) ?_
    exact met_of_opening (v := .goOn) (by decide +kernel) fun _ h => nomatch h
  have hsecond : HeadBy attentive (Met attentive) (shortAt 100) (executedHead 100) := by
    refine headBy_runPasses hfirst (by decide +kernel) ?_
    refine met_of_opening (v := .execute ⟨5, 0, .getTilt, [], ms 20000⟩) (by decide +kernel) ?_
    intro cmd h
    cases h
    exact ⟨rfl, by decide +kernel⟩
  exact (head_settled hsecond).1

/-- One short reply to GetTilt: `struct.error` escapes `_execute`, the future stays RUNNING,
and `head` holds it from then on. -/
theorem short_tilt_blocks :
    Head attentive (shortAt 15) (executedHead 15) ∧
      ∀ n ∈ [0, 1, 2], ((runPasses attentive n (executedHead 15)).wk.head.map fun cmd =>
        ((runPasses attentive n (executedHead 15)).shared.futures cmd.seq).state) =
          some .running := by
  refine ⟨(reaches_runPasses attentive 1 _).trans (reaches_runPasses attentive 1 _), ?_⟩
  decide +kernel

end OpenAisg.Session
