import Mathlib.Data.List.Basic
import Mathlib.Data.List.Perm.Basic
import Mathlib.Data.List.Perm.Lattice

/-!
# Bisection by bits

Things are told apart by asking for their bits one after the other, although one
never sees them: all that comes back from a question is whether nobody, one or
more than one answered.  This is how a master finds devices on a shared bus.

The search is stated for any type and any way to read a bit of its members, and
over plain lists, so it can be compared with whatever asks the questions.

* `Separated` — any two members of a list differ in one of the first `n` bits.
* `half` — the members with a given value of one bit.
* `search` — split a list at the next bit until no part has two members, or the
  depth is used up.
* `Agree` — the invariant: the members of a part agree in all bits asked so far.
* `search_of_separated`, `search_of_not_separated` — it finds every member
  exactly once when the list is separated, and fails when it is not; there is
  nothing in between.
-/

namespace Bisect

variable {α : Type} {bit : α → ℕ → Bool} {l l' : List α} {n d : ℕ}

/-- Any two members differ in one of the first `n` bits. -/
def Separated (bit : α → ℕ → Bool) (n : ℕ) (l : List α) : Prop :=
  l.Pairwise fun a b => ∃ i < n, bit a i ≠ bit b i

/-- The members whose bit `d` is `v`. -/
def half (bit : α → ℕ → Bool) (d : ℕ) (v : Bool) (l : List α) : List α :=
  l.filter fun a => bit a d = v

/-- Split at the bit `d`, then at the next, for `left` levels. -/
def search (bit : α → ℕ → Bool) : ℕ → ℕ → List α → Option (List α)
  | 0, _, l => if l.length ≤ 1 then some l else none
  | left + 1, d, l =>
      if l.length ≤ 1 then some l
      else do
        let found₀ ← search bit left (d + 1) (half bit d false l)
        let found₁ ← search bit left (d + 1) (half bit d true l)
        some (found₀ ++ found₁)

/-- One member has nothing to be told from. -/
theorem separated_of_length_le_one (h : l.length ≤ 1) : Separated bit n l := by
  rcases l with _ | ⟨a, _ | ⟨b, l⟩⟩
  · exact List.Pairwise.nil
  · exact List.pairwise_singleton _ _
  · simp at h

/-- The order of the list does not matter. -/
theorem Separated.perm (h : Separated bit n l) (hp : l.Perm l') : Separated bit n l' :=
  hp.pairwise h fun ⟨i, hi, hne⟩ => ⟨i, hi, hne.symm⟩

theorem separated_perm (hp : l.Perm l') : Separated bit n l ↔ Separated bit n l' :=
  ⟨fun h => h.perm hp, fun h => h.perm hp.symm⟩

/-- The two halves are the list, in another order. -/
theorem half_perm (d : ℕ) (l : List α) :
    (half bit d false l ++ half bit d true l).Perm l := by
  refine (List.perm_append_comm).trans ?_
  have hnot : half bit d false l = l.filter fun a => !decide (bit a d = true) := by
    refine List.filter_congr fun a _ => ?_
    cases bit a d <;> rfl
  rw [hnot]
  exact List.filter_append_perm _ l

/-- The members of a half have its bit. -/
theorem bit_of_mem_half {v : Bool} {a : α} (h : a ∈ half bit d v l) : bit a d = v :=
  of_decide_eq_true (List.mem_filter.1 h).2

/-- And are members of the list. -/
theorem mem_of_mem_half {v : Bool} {a : α} (h : a ∈ half bit d v l) : a ∈ l :=
  (List.mem_filter.1 h).1

/-- A list is separated when its halves are. -/
theorem separated_halves (hd : d < n) :
    Separated bit n l ↔
      Separated bit n (half bit d false l) ∧ Separated bit n (half bit d true l) := by
  rw [← separated_perm (half_perm d l), Separated, List.pairwise_append]
  refine ⟨fun h => ⟨h.1, h.2.1⟩, fun h => ⟨h.1, h.2, fun a ha b hb => ⟨d, hd, ?_⟩⟩⟩
  rw [bit_of_mem_half ha, bit_of_mem_half hb]
  exact Bool.false_ne_true

/-- Members that agree in the first `d` bits. -/
def Agree (bit : α → ℕ → Bool) (d : ℕ) (l : List α) : Prop :=
  ∀ a ∈ l, ∀ b ∈ l, ∀ i < d, bit a i = bit b i

/-- A half agrees in one bit more. -/
theorem Agree.half (h : Agree bit d l) (v : Bool) : Agree bit (d + 1) (half bit d v l) := by
  intro a ha b hb i hi
  rcases Nat.lt_succ_iff_lt_or_eq.1 hi with hi | rfl
  · exact h a (mem_of_mem_half ha) b (mem_of_mem_half hb) i hi
  · rw [bit_of_mem_half ha, bit_of_mem_half hb]

/-- Two members that agree everywhere cannot be told apart. -/
theorem Agree.not_separated (h : Agree bit d l) (hl : 1 < l.length) : ¬ Separated bit d l := by
  rcases l with _ | ⟨a, _ | ⟨b, l⟩⟩
  · simp at hl
  · simp at hl
  · intro hs
    obtain ⟨i, hi, hne⟩ := (List.pairwise_cons.1 hs).1 b (List.mem_cons_self ..)
    exact hne (h a (List.mem_cons_self ..) b (by simp) i hi)

/-- What is found was there. -/
theorem mem_of_search (left : ℕ) : ∀ {d : ℕ} {l found : List α},
    search bit left d l = some found → ∀ a ∈ found, a ∈ l := by
  induction left with
  | zero =>
      intro d l found h a ha
      rw [search] at h
      split_ifs at h
      cases h
      exact ha
  | succ left ih =>
      intro d l found h a ha
      rw [search] at h
      split_ifs at h with hlen
      · cases h
        exact ha
      · cases h₀ : search bit left (d + 1) (half bit d false l) with
        | none => rw [h₀] at h; cases h
        | some found₀ =>
            cases h₁ : search bit left (d + 1) (half bit d true l) with
            | none => rw [h₀, h₁] at h; cases h
            | some found₁ =>
                rw [h₀, h₁] at h
                cases h
                rcases List.mem_append.1 ha with ha | ha
                · exact mem_of_mem_half (ih h₀ a ha)
                · exact mem_of_mem_half (ih h₁ a ha)

/-- **A separated list is found**: every member once, and nothing else.  The induction is on the
levels that are left; `Agree` says that those above have nothing more to tell. -/
theorem search_of_separated (left : ℕ) : ∀ {d : ℕ} {l : List α}, Agree bit d l →
    Separated bit (d + left) l → ∃ found, search bit left d l = some found ∧ found.Perm l := by
  induction left with
  | zero =>
      intro d l hagree hsep
      have hlen : l.length ≤ 1 := by
        by_contra hl
        exact hagree.not_separated (by omega) hsep
      exact ⟨l, by rw [search, if_pos hlen], List.Perm.refl l⟩
  | succ left ih =>
      intro d l hagree hsep
      by_cases hlen : l.length ≤ 1
      · exact ⟨l, by rw [search, if_pos hlen], List.Perm.refl l⟩
      obtain ⟨h₀, h₁⟩ := (separated_halves (by omega : d < d + (left + 1))).1 hsep
      rw [← Nat.add_assoc, Nat.add_right_comm] at h₀ h₁
      obtain ⟨found₀, hf₀, hp₀⟩ := ih (hagree.half false) h₀
      obtain ⟨found₁, hf₁, hp₁⟩ := ih (hagree.half true) h₁
      refine ⟨found₀ ++ found₁, ?_, (hp₀.append hp₁).trans (half_perm d l)⟩
      rw [search, if_neg hlen, hf₀, hf₁]
      rfl

/-- **A list that is not separated** is never found in part. -/
theorem search_of_not_separated (left : ℕ) : ∀ {d : ℕ} {l : List α},
    ¬ Separated bit (d + left) l → search bit left d l = none := by
  induction left with
  | zero =>
      intro d l hsep
      rw [search, if_neg fun hlen => hsep (separated_of_length_le_one hlen)]
  | succ left ih =>
      intro d l hsep
      rw [search, if_neg fun hlen => hsep (separated_of_length_le_one hlen)]
      rw [separated_halves (by omega : d < d + (left + 1)), ← Nat.add_assoc, Nat.add_right_comm]
        at hsep
      by_cases h₀ : Separated bit (d + 1 + left) (half bit d false l)
      · rw [ih fun h₁ => hsep ⟨h₀, h₁⟩]
        cases search bit left (d + 1) (half bit d false l) <;> rfl
      · rw [ih h₀]
        rfl

/-- What a search from the first bit on finds is the list, in another order. -/
theorem search_perm {left : ℕ} {l found : List α} (h : search bit left 0 l = some found) :
    found.Perm l := by
  have hagree : Agree bit 0 l := fun _ _ _ _ i hi => absurd hi (Nat.not_lt_zero i)
  by_cases hsep : Separated bit (0 + left) l
  · obtain ⟨found', hfound, hperm⟩ := search_of_separated left hagree hsep
    cases h.symm.trans hfound
    exact hperm
  · rw [search_of_not_separated left hsep] at h
    cases h

end Bisect
