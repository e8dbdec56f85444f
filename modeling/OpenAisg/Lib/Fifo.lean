import Mathlib.Data.List.DropRight
import Mathlib.Tactic.Common

/-!
# Bounded queues

A queue that refuses what does not fit, and a ring that forgets its oldest
elements.  Between a producer that must not wait and a consumer that may be slow,
something has to give; these two give in opposite ways.

* `Fifo` — a first-in, first-out queue for at most `maxsize` elements (`0`: any
  number).
* `RingBuffer` — a double-ended queue with a `maxlen`, filled at its right end.
* `Accounted` — what has been put into a queue is, in order, what has left it and
  then what it holds; what has left it was taken or dropped.

The rules say how each operation moves an element from one of the three to
another (`Accounted.push`, `Accounted.take`, `Accounted.drop`), so a statement
about a run is proved by looking at what one operation does.  What an account is
worth is said by `total`, `sublist` and `covers`: nothing is counted twice,
nothing is reordered, and nothing disappears.
-/

variable {α : Type}

/-- A bounded first-in, first-out queue. -/
structure Fifo (α : Type) where
  maxsize : ℕ
  items : List α := []
  deriving Repr, DecidableEq

namespace Fifo

/-- A queue with `maxsize` 0 is never full. -/
def full (q : Fifo α) : Bool := decide (0 < q.maxsize ∧ q.maxsize ≤ q.items.length)

/-- Put an element in, unless the queue is full. -/
def put (q : Fifo α) (x : α) : Option (Fifo α) :=
  if q.full then none else some { q with items := q.items ++ [x] }

/-- Take the oldest element out, unless the queue is empty. -/
def get (q : Fifo α) : Option (α × Fifo α) :=
  match q.items with
  | [] => none
  | x :: xs => some (x, { q with items := xs })

variable {q r : Fifo α} {x y : α}

/-- An element is refused exactly when the queue is full. -/
theorem put_eq_none : q.put x = none ↔ q.full = true := by
  simp [put]

/-- Otherwise it goes to the end. -/
theorem put_eq_some : q.put x = some r ↔
    q.full = false ∧ r = { q with items := q.items ++ [x] } := by
  simp only [put, Option.ite_none_left_eq_some, Bool.not_eq_true, Option.some.injEq]
  exact and_congr_right fun _ => eq_comm

/-- What is taken is the oldest. -/
theorem get_eq_some : q.get = some (y, r) ↔
    ∃ ys, q.items = y :: ys ∧ r = { q with items := ys } := by
  unfold get
  split
  · simp [*]
  · rename_i z zs hz
    simp only [hz, Option.some.injEq, Prod.mk.injEq, List.cons.injEq]
    constructor
    · rintro ⟨rfl, rfl⟩
      exact ⟨zs, ⟨rfl, rfl⟩, rfl⟩
    · rintro ⟨ys, ⟨rfl, rfl⟩, rfl⟩
      exact ⟨rfl, rfl⟩

end Fifo

/-- A double-ended queue that drops from its left end what exceeds `maxlen`. -/
structure RingBuffer (α : Type) where
  maxlen : ℕ
  items : List α := []
  deriving Repr, DecidableEq

namespace RingBuffer

/-- `append` on the right. -/
def append (r : RingBuffer α) (x : α) : RingBuffer α :=
  { r with items := (r.items ++ [x]).drop (r.items.length + 1 - r.maxlen) }

@[simp] theorem append_maxlen (r : RingBuffer α) (x : α) : (r.append x).maxlen = r.maxlen := rfl

/-- A ring that holds the newest elements of a log holds them after the next one. -/
theorem append_items {r : RingBuffer α} {L : List α} (h : r.items = L.rtake r.maxlen) (x : α) :
    (r.append x).items = (L ++ [x]).rtake r.maxlen := by
  have hlen : r.items.length = L.length - (L.length - r.maxlen) := by
    rw [h, List.rtake, List.length_drop]
  have hcut : L.length - r.maxlen ≤ L.length := by omega
  simp only [append, List.rtake, List.length_append, List.length_singleton]
  rw [h, List.rtake, ← List.drop_append_of_le_length hcut, List.drop_drop, ← List.rtake, ← h,
    hlen]
  congr 1
  omega

end RingBuffer

/-! ## Accounts -/

/-- Of the elements `put` into a queue, those in `taken` and `lost` others have left it, and
it holds `items`. -/
def Accounted (put taken : List α) (lost : ℕ) (items : List α) : Prop :=
  ∃ gone : List (Bool × α), put = gone.map Prod.snd ++ items ∧
    taken = (gone.filter fun e => e.1).map Prod.snd ∧
    lost = (gone.filter fun e => !e.1).length

namespace Accounted

variable {put taken items : List α} {lost : ℕ} {x y : α}

/-- Nothing was put in, and nothing is there. -/
theorem nil : Accounted ([] : List α) [] 0 [] := ⟨[], rfl, rfl, rfl⟩

/-- One element is put in. -/
theorem push (h : Accounted put taken lost items) (x : α) :
    Accounted (put ++ [x]) taken lost (items ++ [x]) := by
  obtain ⟨gone, hput, htaken, hlost⟩ := h
  exact ⟨gone, by rw [hput, List.append_assoc], htaken, hlost⟩

/-- The oldest element is taken. -/
theorem take (h : Accounted put taken lost (y :: items)) :
    Accounted put (taken ++ [y]) lost items := by
  obtain ⟨gone, hput, htaken, hlost⟩ := h
  exact ⟨gone ++ [(true, y)], by simp [hput], by simp [htaken], by simp [hlost]⟩

/-- The oldest element is dropped. -/
theorem drop (h : Accounted put taken lost (y :: items)) :
    Accounted put taken (lost + 1) items := by
  obtain ⟨gone, hput, htaken, hlost⟩ := h
  exact ⟨gone ++ [(false, y)], by simp [hput], by simp [htaken], by simp [hlost]⟩

/-- Every element is accounted for once. -/
theorem total (h : Accounted put taken lost items) :
    taken.length + lost + items.length = put.length := by
  obtain ⟨gone, rfl, rfl, rfl⟩ := h
  have hsplit : (gone.filter fun e => e.1).length + (gone.filter fun e => !e.1).length =
      gone.length := by
    simpa [List.countP_eq_length_filter] using
      (List.length_eq_countP_add_countP (fun e : Bool × α => e.1) (l := gone)).symm
  simp only [List.length_map, List.length_append]
  omega

/-- What was taken was put in, in that order. -/
theorem sublist (h : Accounted put taken lost items) : (taken ++ items).Sublist put := by
  obtain ⟨gone, rfl, rfl, -⟩ := h
  exact ((List.filter_sublist).map _).append (List.Sublist.refl _)

/-- An element was taken, or dropped, or is still there. -/
theorem covers (h : Accounted put taken lost items) :
    ∃ dropped : List α, dropped.length = lost ∧
      ∀ x ∈ put, x ∈ taken ∨ x ∈ items ∨ x ∈ dropped := by
  obtain ⟨gone, rfl, rfl, rfl⟩ := h
  refine ⟨(gone.filter fun e => !e.1).map Prod.snd, by simp, fun x hx => ?_⟩
  rcases List.mem_append.1 hx with hgone | hitems
  · obtain ⟨⟨b, y⟩, hy, rfl⟩ := List.mem_map.1 hgone
    cases b with
    | true => exact .inl (List.mem_map.2 ⟨_, by simpa using hy, rfl⟩)
    | false => exact .inr (.inr (List.mem_map.2 ⟨_, by simpa using hy, rfl⟩))
  · exact .inr (.inl hitems)

end Accounted
