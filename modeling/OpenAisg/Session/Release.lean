import OpenAisg.Link.Faults
import OpenAisg.Session.Machine

/-!
# Giving the port back

`_release` catches the `OSError` and the `AisgError` of its DISC, but a garbled reply
makes `parse_frames` raise `FrameError`, which is neither.  A method that gives the port
back can therefore raise, and this file says when.

* `fatal` — the events after which a command raises something that is no `AisgError`.
* `Clean`, `Spoilt` — the log since a state holds no fatal event, or holds one.
* `Garbled` — the reply to the DISC that a release would send is garbled.
* `DiscEnds`, `wp_disc` — the three ways in which that DISC can end.
* `wp_unlink` — what follows it cannot fail: the port is closed and the link object is gone.
* `wp_release` — a release raises exactly when the reply is garbled.
* `wp_failLink` — and so does `_fail_link`.
-/

namespace OpenAisg.Session

open Hdlc Link Retap Prog

variable {W : Type} [Line W]

/-! ## Fatal events -/

/-- The data of a procedure has no room for a tilt. -/
def noTilt : Except Exn Bytes → Bool
  | .ok d => d.length < 2
  | .error _ => false

/-- A GetTilt response that is OK and has no tilt in it. -/
def shortTilt (m payload : Bytes) : Bool :=
  m.head? = some Retap.getTilt && noTilt (procResult none Retap.getTilt payload)

/-- An event after which a command raises something that is no `AisgError`: a fault of
the port, a GetTilt response without a tilt, a garbled reply. -/
def fatal : WireEvent → Bool
  | .fault | .txFault _ => true
  | .accepted m f => shortTilt m f.payload
  | .raw _ reply => garbled reply
  | _ => false

variable [Clients W] in
/-- A harmless event is not fatal. -/
theorem fatal_of_harmless {e : WireEvent} (h : e.harmless = true) : fatal e = false := by
  cases e <;> simp_all [WireEvent.harmless, fatal]

variable [Clients W] in
/-- A failed one is. -/
theorem fatal_of_failed {e : WireEvent} (h : e.failed = true) : fatal e = true := by
  cases e <;> simp_all [WireEvent.failed, fatal]

/-- The log has gone on without a fatal event. -/
def Clean (s t : St W) : Prop := ∃ new, t.log = s.log ++ new ∧ ∀ e ∈ new, fatal e = false

/-- It has gone on with one. -/
def Spoilt (s t : St W) : Prop := ∃ new, t.log = s.log ++ new ∧ ∃ e ∈ new, fatal e = true

instance : IsPreorder (St W) Clean where
  refl s := ⟨[], (List.append_nil _).symm, fun _ h => nomatch h⟩
  trans s t u h h' := by
    obtain ⟨new, ht, hnew⟩ := h
    obtain ⟨new', hu, hnew'⟩ := h'
    refine ⟨new ++ new', by rw [hu, ht, List.append_assoc], fun e he => ?_⟩
    exact (List.mem_append.1 he).elim (hnew e) (hnew' e)

omit [Line W] in
theorem Clean.of_eq {s t : St W} (h : t.log = s.log) : Clean s t :=
  ⟨[], by rw [h, List.append_nil], fun _ h => nomatch h⟩

omit [Line W] in
/-- To look at the log that is new. -/
theorem clean_iff {s t : St W} : Clean s t ↔
    s.log ++ t.log.drop s.log.length = t.log ∧ ∀ e ∈ t.log.drop s.log.length, fatal e = false := by
  constructor
  · rintro ⟨new, ht, hnew⟩
    rw [ht, List.drop_left]
    exact ⟨rfl, hnew⟩
  · rintro ⟨ht, hnew⟩
    exact ⟨_, ht.symm, hnew⟩

instance (s t : St W) : Decidable (Clean s t) := decidable_of_iff _ clean_iff.symm

omit [Line W] in
/-- A clean beginning does not help. -/
theorem Clean.spoilt {s t u : St W} (h : Clean s t) (h' : Spoilt t u) : Spoilt s u := by
  obtain ⟨new, ht, -⟩ := h
  obtain ⟨new', hu, e, he, hf⟩ := h'
  exact ⟨new ++ new', by rw [hu, ht, List.append_assoc], e, List.mem_append_right _ he, hf⟩

omit [Line W] in
/-- Nor does a clean end. -/
theorem Spoilt.clean {s t u : St W} (h : Spoilt s t) (h' : Clean t u) : Spoilt s u := by
  obtain ⟨new, ht, e, he, hf⟩ := h
  obtain ⟨new', hu, -⟩ := h'
  exact ⟨new ++ new', by rw [hu, ht, List.append_assoc], e, List.mem_append_left _ he, hf⟩

omit [Line W] in
/-- A log that has gone on both ways cannot be. -/
theorem Clean.not_spoilt {s t : St W} (h : Clean s t) : ¬ Spoilt s t := by
  obtain ⟨new, ht, hnew⟩ := h
  rintro ⟨new', ht', e, he, hf⟩
  rw [ht] at ht'
  rw [hnew e (List.append_cancel_left ht' ▸ he)] at hf
  cases hf

/-! ## A release -/

/-- The reply to the DISC that a release would send from here is garbled. -/
def Garbled (s : St W) : Prop :=
  ∃ l a raw w, s.link = some l ∧ s.wk.address = some a ∧
    (Line.xfer (discFrame a) l.timeout : Prog W String Bytes) s.world = (.ret raw, w) ∧
    garbled raw = true

/-- How the DISC of a release ends. -/
def DiscEnds (s t : St W) (e : Option Exn) : Prop :=
  (¬ Garbled s ∧ (∀ x ∈ e, x.isOsOrAisg = true) ∧ t.link.isSome = true ∧ Clean s t) ∨
    (Garbled s ∧ (∃ x ∈ e, x.isOsOrAisg = false) ∧ Spoilt s t)

/-- The DISC of a release, by its reply. -/
theorem wp_disc {s : St W} {l : AisgLink} (hl : s.link = some l) :
    wp (do
      match ← self (·.address) with
      | some a => onLink (disconnect a)
      | none => pure () : WorkerProg W Unit)
      (fun _ t => DiscEnds s t none) (fun e t => DiscEnds s t (some e)) (fun _ => ¬ Garbled s)
      s := by
  rw [wp_bind, wp_self]
  cases ha : s.wk.address with
  | none =>
      refine Or.inl ⟨?_, fun _ h => (nomatch h), by rw [hl]; rfl, Std.Refl.refl _⟩
      rintro ⟨l, a, raw, w, -, ha', -⟩
      rw [ha] at ha'
      cases ha'
  | some a =>
      refine wp_onLink (fun hn => absurd (hn.symm.trans hl) (by simp)) fun l' hl' => ?_
      rw [wp_disconnect, wp_iff]
      -- only a reply can make the release `Garbled`
      have hno : (∀ raw w, (Line.xfer (discFrame a) l'.timeout : Prog W String Bytes) s.world =
          (.ret raw, w) → garbled raw = false) → ¬ Garbled s := by
        rintro h ⟨l'', a', raw, w, hl'', ha', hx, hg⟩
        cases hl'.symm.trans hl''
        cases ha.symm.trans ha'
        rw [h raw w hx] at hg
        cases hg
      refine ⟨fun raw w hx => ?_, fun msg w hx => ?_, fun w hx => hno fun raw' w' hx' => ?_⟩
      · cases hp : parseFrames raw with
        | ok frames =>
            have hg : garbled raw = false := by
              by_contra hg
              obtain ⟨e, he⟩ := (parseFrames_error_iff raw).2 (by simpa using hg)
              rw [hp] at he
              cases he
            refine Or.inl ⟨hno fun raw' w' hx' => ?_, fun _ h => (nomatch h), rfl, ?_⟩
            · cases hx.symm.trans hx'
              exact hg
            · exact ⟨[.raw (discFrame a) raw], rfl, fun e he => by
                rw [List.mem_singleton.1 he]; exact hg⟩
        | error e =>
            have hg : garbled raw = true := (parseFrames_error_iff raw).1 ⟨e, hp⟩
            obtain ⟨msg, rfl⟩ := parseFrames_error hp
            exact Or.inr ⟨⟨l', a, raw, w, hl', ha, hx, hg⟩, ⟨_, rfl, rfl⟩,
              [.raw (discFrame a) raw], rfl, _, List.mem_singleton_self _, hg⟩
      · refine Or.inl ⟨hno fun raw' w' hx' => ?_, fun x hx' => ?_, rfl, Clean.of_eq rfl⟩
        · cases hx.symm.trans hx'
        · cases hx'
          rfl
      · cases hx.symm.trans hx'

/-- The end of a release: `close()` and `self.link = None`. -/
theorem wp_unlink {s : St W} (hl : s.link.isSome = true) :
    wp (do
      handle closeLink fun e => match e with
        | .osError _ => some (pure ())
        | _ => none
      Prog.modify fun s => { s with link := none } : WorkerProg W Unit)
      (fun _ t => t.link = none ∧ Clean s t) (fun _ _ => False) (fun _ => True) s := by
  obtain ⟨l, hl⟩ := Option.isSome_iff_exists.1 hl
  rw [wp_bind, wp_handle]
  unfold closeLink
  rw [wp_bind, wp_modify]
  refine wp_onLink (fun hn => absurd (hn.symm.trans hl) (by simp)) fun l' _ => ?_
  rw [wp_portOp]
  refine wp_any (fun _ w => ?_) (fun msg w => ?_) (fun _ => trivial) _
  · exact ⟨rfl, Clean.of_eq rfl⟩
  · exact ⟨rfl, Clean.of_eq (List.append_nil _)⟩

/-- `Garbled` looks at the link, the address and the line. -/
theorem garbled_congr {s t : St W} (hl : t.link = s.link) (ha : t.wk.address = s.wk.address)
    (hw : t.world = s.world) : Garbled t ↔ Garbled s := by
  unfold Garbled
  rw [hl, ha, hw]

/-- **A release raises exactly when the reply to its DISC is garbled.** -/
theorem wp_release (s : St W) :
    wp release (fun _ t => ¬ Garbled s ∧ t.link = none ∧ Clean s t)
      (fun e t => Garbled s ∧ e.isOsOrAisg = false ∧ Spoilt s t) (fun _ => ¬ Garbled s) s := by
  unfold release
  rw [wp_bind, wp_read, wp_onlyIf]
  refine ⟨fun hsome => ?_, fun hnone => ⟨?_, by simpa using hnone, Std.Refl.refl _⟩⟩
  · obtain ⟨l, hl⟩ := Option.isSome_iff_exists.1 hsome
    rw [wp_bind, wp_setState, wp_bind, wp_handle]
    generalize hs₁ : { s with wk := s.wk.setState .releasing "" } = s₁
    have hg : Garbled s₁ ↔ Garbled s := by
      subst hs₁
      exact garbled_congr rfl (Worker.setState_address _ _ _) rfl
    have hlog : s₁.log = s.log := by subst hs₁; rfl
    have hclean : Clean s s₁ := Clean.of_eq hlog
    have hrest : ∀ t, DiscEnds s₁ t none → wp (do
        handle closeLink fun e => match e with
          | .osError _ => some (pure ())
          | _ => none
        Prog.modify fun s => { s with link := none } : WorkerProg W Unit)
        (fun _ t => ¬ Garbled s ∧ t.link = none ∧ Clean s t)
        (fun e t => Garbled s ∧ e.isOsOrAisg = false ∧ Spoilt s t) (fun _ => ¬ Garbled s) t := by
      rintro t (⟨hng, -, hsome', ht⟩ | ⟨-, ⟨_, he, -⟩, -⟩)
      · refine (wp_unlink hsome').mono (fun _ u hu => ⟨fun h => hng (hg.2 h), hu.1, ?_⟩)
          (fun _ _ h => h.elim) fun _ _ h => hng (hg.2 h)
        exact IsTrans.trans _ _ _ hclean (IsTrans.trans _ _ _ ht hu.2)
      · cases he
    refine (wp_disc (l := l) (by subst hs₁; exact hl)).mono (fun _ t ht => hrest t ht)
      (fun e t ht => ?_) fun _ h hs => h (hg.2 hs)
    unfold onOsOrAisg
    rcases ht with ⟨hng, he, hsome', ht⟩ | ⟨hgs, ⟨e', he', hne⟩, ht⟩
    · rw [if_pos (he e rfl)]
      exact hrest t (Or.inl ⟨hng, fun _ h => (nomatch h), hsome', ht⟩)
    · cases he'
      rw [if_neg (by simp [hne])]
      exact ⟨hg.1 hgs, hne, hclean.spoilt ht⟩
  · rintro ⟨l, a, raw, w, hl, -⟩
    rw [hl] at hnone
    cases hnone

/-- The same of `_fail_link`. -/
theorem wp_failLink (why : String) (s : St W) :
    wp (failLink why) (fun _ t => ¬ Garbled s ∧ t.link = none ∧ Clean s t)
      (fun e t => Garbled s ∧ e.isOsOrAisg = false ∧ Spoilt s t) (fun _ => ¬ Garbled s) s := by
  unfold failLink
  rw [wp_bind]
  refine (wp_release s).mono (fun _ t ht => ?_) (fun _ _ h => h) fun _ h => h
  rw [wp_bind, wp_setState]
  -- what follows only counts the failure
  have hback : wp armBackoff (fun _ u => u.link = t.link ∧ u.log = t.log) (fun _ _ => False)
      (fun _ => False) { t with wk := t.wk.setState .backoff why } := by
    unfold armBackoff
    rw [wp_bind, wp_update, wp_bind, wp_clock, wp_bind, wp_update, wp_bind, wp_self, wp_onlyIf]
    exact ⟨fun _ => ⟨rfl, rfl⟩, fun _ => ⟨rfl, rfl⟩⟩
  refine hback.mono (fun _ u hu => ?_) (fun _ _ h => h.elim) fun _ h => h.elim
  exact ⟨ht.1, hu.1.trans ht.2.1, IsTrans.trans _ _ _ ht.2.2 (Clean.of_eq hu.2)⟩

end OpenAisg.Session
