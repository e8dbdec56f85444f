import Mathlib.Data.List.Destutter

/-!
# Traces

Statements about a log that grows at its end.  A program that writes a log can be
asked about its whole history, and the answer has the form of the question: what
held at each event, what has happened since an event of some kind, what remains
when repetitions are dropped.

* `Always P L` — `P past e` holds at every event `e` of the log `L`, where `past`
  are the events before it.
* `since p L` — the events after the last one that satisfies `p`.
* `L.destutter (· ≠ ·)` — the log without the events that repeat the one before.

All are computed event by event (`always_concat`, `since_concat`,
`destutter_concat`), so a statement about a whole log is proved by looking at
what one step appends to it.  `decidableFold` goes through a log once, which is how
`Always` is decided.
-/

namespace Trace

variable {α : Type} {P : List α → α → Prop} {p : α → Bool} {L : List α}

/-- At every event of the log, `P` of the events before it and of the event. -/
def Always (P : List α → α → Prop) (L : List α) : Prop :=
  ∀ past e later, L = past ++ e :: later → P past e

/-- Nothing has happened. -/
@[simp] theorem always_nil : Always P [] := by
  intro past e later h
  simp at h

/-- One event more. -/
theorem always_concat (e : α) : Always P (L ++ [e]) ↔ Always P L ∧ P L e := by
  refine ⟨fun h => ⟨fun past e' later hL => ?_, h L e [] rfl⟩, ?_⟩
  · exact h past e' (later ++ [e]) (by rw [hL, List.append_assoc, List.cons_append])
  · rintro ⟨h, he⟩ past e' later hL
    rcases List.eq_nil_or_concat later with rfl | ⟨later', e'', rfl⟩
    · obtain ⟨rfl, hx⟩ := List.append_inj' hL rfl
      cases hx
      exact he
    · rw [List.concat_eq_append, ← List.cons_append, ← List.append_assoc] at hL
      exact h past e' later' (List.append_inj' hL rfl).1

/-- What came before an event that `L` has is in `L`. -/
theorem split_of_prefix {L' past later : List α} {e : α} (h : L <+: L')
    (hL' : L' = past ++ e :: later) (hlt : past.length < L.length) :
    ∃ rest, L = past ++ e :: rest := by
  have hpast : past ++ [e] <+: L := by
    refine List.prefix_of_prefix_length_le ⟨later, by rw [hL']; simp⟩ h ?_
    rw [List.length_append]
    exact hlt
  obtain ⟨rest, hrest⟩ := hpast
  exact ⟨rest, by rw [← hrest, List.append_assoc]; rfl⟩

/-- One event before the others. -/
theorem always_cons (e : α) : Always P (e :: L) ↔ P [] e ∧ Always (fun past => P (e :: past)) L := by
  refine ⟨fun h => ⟨h [] e L rfl, fun past e' later hL => ?_⟩, ?_⟩
  · exact h (e :: past) e' later (by rw [hL, List.cons_append])
  · rintro ⟨he, h⟩ past e' later hL
    cases past with
    | nil =>
        cases hL
        exact he
    | cons x past =>
        obtain ⟨rfl, hL'⟩ := List.cons.inj hL
        exact h past e' later hL'

section Fold

variable {σ : Type} {f : σ → α → σ} {Q : σ → α → Prop}

/-- The past counts only for what it folds into, so the log is gone through once. -/
def decidableFold [∀ s e, Decidable (Q s e)] : ∀ (s : σ) (L : List α),
    Decidable (Always (fun past e => Q (past.foldl f s) e) L)
  | _, [] => .isTrue always_nil
  | s, e :: L =>
      have := decidableFold (f s e) L
      decidable_of_iff (Q s e ∧ Always (fun past e' => Q (past.foldl f (f s e)) e') L)
        (always_cons (P := fun past e => Q (past.foldl f s) e) e).symm

end Fold

/-- In general it is kept with its last event first. -/
instance [∀ past e, Decidable (P past e)] : Decidable (Always P L) :=
  have := decidableFold (f := fun rev e => e :: rev) (Q := fun rev e => P rev.reverse e) [] L
  decidable_of_iff (Always (fun past e => P (past.foldl (fun rev e => e :: rev) []).reverse e) L)
    (by simp)

/-- The events after the last one that satisfies `p`. -/
def since (p : α → Bool) (L : List α) : List α :=
  L.foldl (fun acc e => if p e then [] else acc ++ [e]) []

/-- One event more either clears the list or is added to it. -/
theorem since_concat (e : α) :
    since p (L ++ [e]) = if p e then [] else since p L ++ [e] := by
  simp [since, List.foldl_append]

theorem since_concat_of (e : α) (h : p e = true) : since p (L ++ [e]) = [] := by
  rw [since_concat, if_pos h]

theorem since_concat_of_not (e : α) (h : p e = false) :
    since p (L ++ [e]) = since p L ++ [e] := by
  rw [since_concat, if_neg (by simp [h])]

section Destutter

variable [DecidableEq α]

theorem destutter'_concat (e : α) (L : List α) : ∀ a, (L ++ [e]).destutter' (· ≠ ·) a =
    if (L.destutter' (· ≠ ·) a).getLast? = some e then L.destutter' (· ≠ ·) a
    else L.destutter' (· ≠ ·) a ++ [e] := by
  induction L with
  | nil =>
      intro a
      by_cases h : a = e <;> simp [List.destutter', h]
  | cons b L ih =>
      intro a
      rw [List.cons_append, List.destutter'_cons, List.destutter'_cons]
      split_ifs with hab h h
      · obtain ⟨c, cs, hcs⟩ := List.exists_cons_of_ne_nil (L.destutter'_ne_nil (· ≠ ·) (a := b))
        rw [ih, if_pos (by simpa [hcs] using h)]
      · obtain ⟨c, cs, hcs⟩ := List.exists_cons_of_ne_nil (L.destutter'_ne_nil (· ≠ ·) (a := b))
        rw [ih, if_neg (by simpa [hcs] using h), List.cons_append]
      · rw [ih, if_pos h]
      · rw [ih, if_neg h]

/-- An event that repeats the last one that was kept is dropped. -/
theorem destutter_concat (e : α) (L : List α) : (L ++ [e]).destutter (· ≠ ·) =
    if (L.destutter (· ≠ ·)).getLast? = some e then L.destutter (· ≠ ·)
    else L.destutter (· ≠ ·) ++ [e] := by
  cases L with
  | nil => simp
  | cons a L => exact destutter'_concat e L a

end Destutter

end Trace
