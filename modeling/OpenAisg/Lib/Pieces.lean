import Mathlib.Data.List.Basic

/-!
# A stream cut at a separator

What can be said of a stream while only a part of it has arrived.  Split at a
separator, a list has pieces that will never change, whatever follows, and one
that may still grow.

* `closed sep s` — the pieces of `s` that have a separator on both sides.
* `opened sep s` — what follows the last separator, or all of `s` if there is
  none.

A reader that keeps only `opened` loses nothing: `closed_append` and
`opened_append` compute the two for a longer stream from what has been kept.
`opened_prefix` bounds what it has to keep by the pieces of the whole stream, and
`opened_eq_nil_iff` says when it need keep nothing at all.
-/

namespace Pieces

variable {α : Type} [DecidableEq α] {sep : α} {s t : List α}

/-- The pieces with a separator on both sides. -/
def closed (sep : α) (s : List α) : List (List α) := ((s.splitOn sep).drop 1).dropLast

/-- What follows the last separator; all of the stream if it has none. -/
def opened (sep : α) (s : List α) : List α := (s.splitOn sep).getLastD []

/-- Without a separator nothing is closed. -/
theorem closed_of_notMem (h : sep ∉ s) : closed sep s = [] := by
  simp [closed, List.splitOn_eq_singleton h]

/-- And everything is open. -/
theorem opened_of_notMem (h : sep ∉ s) : opened sep s = s := by
  simp [opened, List.splitOn_eq_singleton h]

/-- What comes before a separator does not matter to what follows the last one. -/
theorem opened_append_cons (s t : List α) : opened sep (s ++ sep :: t) = opened sep t := by
  have h : t.splitOn sep ≠ [] := List.splitOn_ne_nil _ _
  rw [opened, opened, List.splitOn_append_cons_self, List.getLastD_eq_getLast?,
    List.getLastD_eq_getLast?, List.getLast?_append_of_ne_nil _ h]

/-- The first separator opens the first closed piece. -/
theorem closed_append_cons (h : sep ∉ s) (t : List α) :
    closed sep (s ++ sep :: t) = (t.splitOn sep).dropLast := by
  simp [closed, List.splitOn_append_cons_self_of_not_mem h]

/-- The last separator of a stream, and what follows it. -/
theorem exists_opened (h : sep ∈ s) : ∃ pre, s = pre ++ sep :: opened sep s := by
  obtain ⟨a, b, hab, ha⟩ := List.eq_append_cons_of_mem (List.mem_reverse.2 h)
  have hs : s = b.reverse ++ sep :: a.reverse := by simpa using congrArg List.reverse hab
  refine ⟨b.reverse, ?_⟩
  rw [hs, opened_append_cons, opened_of_notMem (by simpa using ha)]

/-- The open piece has no separator. -/
theorem sep_notMem_opened (s : List α) : sep ∉ opened sep s := by
  by_cases h : sep ∈ s
  · obtain ⟨a, b, hab, ha⟩ := List.eq_append_cons_of_mem (List.mem_reverse.2 h)
    have hs : s = b.reverse ++ sep :: a.reverse := by simpa using congrArg List.reverse hab
    have ha : sep ∉ a.reverse := by simpa using ha
    rw [hs, opened_append_cons, opened_of_notMem ha]
    exact ha
  · rwa [opened_of_notMem h]

/-- What follows the last separator of a longer stream. -/
theorem opened_append (s t : List α) : opened sep (s ++ t) = opened sep (opened sep s ++ t) := by
  by_cases h : sep ∈ s
  · obtain ⟨pre, hs⟩ := exists_opened h
    conv_lhs => rw [hs, List.append_assoc, List.cons_append, opened_append_cons]
  · rw [opened_of_notMem h]

/-- The pieces a longer stream closes beyond those already closed. -/
theorem closed_append (h : sep ∈ s) (t : List α) :
    closed sep (s ++ t) = closed sep s ++ ((opened sep s ++ t).splitOn sep).dropLast := by
  obtain ⟨pre, hs⟩ := exists_opened h
  have hpre : pre.splitOn sep ≠ [] := List.splitOn_ne_nil _ _
  have hne : ∀ u : List α, u.splitOn sep ≠ [] := fun u => List.splitOn_ne_nil _ _
  have hcut : ∀ u, closed sep (pre ++ sep :: u) =
      (pre.splitOn sep).drop 1 ++ (u.splitOn sep).dropLast := by
    intro u
    rw [closed, List.splitOn_append_cons_self,
      List.drop_append_of_le_length (List.length_pos_iff.2 hpre),
      List.dropLast_append_of_ne_nil (hne u)]
  have hlast : ((opened sep s).splitOn sep).dropLast = [] := by
    rw [List.splitOn_eq_singleton (sep_notMem_opened s), List.dropLast_singleton]
  conv_lhs => rw [hs, List.append_assoc, List.cons_append, hcut]
  rw [show closed sep s = closed sep (pre ++ sep :: opened sep s) from by rw [← hs], hcut, hlast,
    List.append_nil]

/-- The open piece of a stream is the start of a piece of every longer one. -/
theorem opened_prefix (h : sep ∈ s) (t : List α) :
    ∃ p ∈ ((s ++ t).splitOn sep).drop 1, opened sep s <+: p := by
  obtain ⟨pre, hs⟩ := exists_opened h
  have hpre : pre.splitOn sep ≠ [] := List.splitOn_ne_nil _ _
  have hsplit : ((s ++ t).splitOn sep).drop 1 =
      (pre.splitOn sep).drop 1 ++ (opened sep s ++ t).splitOn sep := by
    conv_lhs => rw [hs, List.append_assoc, List.cons_append, List.splitOn_append_cons_self,
      List.drop_append_of_le_length (List.length_pos_iff.2 hpre)]
  rw [hsplit]
  by_cases ht : sep ∈ t
  · obtain ⟨a, b, rfl, ha⟩ := List.eq_append_cons_of_mem ht
    have hmem : sep ∉ opened sep s ++ a := by
      simpa using ⟨sep_notMem_opened s, ha⟩
    refine ⟨opened sep s ++ a, List.mem_append_right _ ?_, List.prefix_append _ _⟩
    rw [← List.append_assoc, List.splitOn_append_cons_self_of_not_mem hmem]
    exact List.mem_cons_self
  · have hmem : sep ∉ opened sep s ++ t := by
      simpa using ⟨sep_notMem_opened s, ht⟩
    refine ⟨opened sep s ++ t, List.mem_append_right _ ?_, List.prefix_append _ _⟩
    rw [List.splitOn_eq_singleton hmem]
    exact List.mem_singleton_self _

/-- The open piece is empty exactly when the stream is empty or ends in a separator. -/
theorem opened_eq_nil_iff (s : List α) : opened sep s = [] ↔ s.getLastD sep = sep := by
  rcases List.eq_nil_or_concat s with rfl | ⟨v, a, rfl⟩
  · simp [opened]
  rw [List.concat_eq_append, List.getLastD_concat]
  by_cases ha : a = sep
  · subst ha
    rw [opened_append_cons]
    simp [opened]
  · have hnot : sep ∉ opened sep v ++ [a] := by
      simpa [Ne.symm ha] using sep_notMem_opened v
    rw [opened_append, opened_of_notMem hnot]
    simp [ha]

/-- The pieces behind the first separator of the rest of a stream. -/
theorem drop_splitOn_suffix (a b : List α) :
    (b.splitOn sep).drop 1 <:+ ((a ++ b).splitOn sep).drop 1 := by
  induction a with
  | nil => exact List.suffix_refl _
  | cons x xs ih =>
      rw [List.cons_append, List.splitOn_cons_eq_if_modifyHead]
      split_ifs
      · exact ih.trans (List.drop_suffix _ _)
      · rw [List.drop_modifyHead_of_pos Nat.zero_lt_one]
        exact ih

end Pieces
