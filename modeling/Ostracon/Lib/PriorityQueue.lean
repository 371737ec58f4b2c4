import Mathlib
/-!
# Priority queues that hand out any item of the highest priority

A priority queue holds items, each with a priority, and a taker gets an item
of the highest priority there is.  Among items of one priority the order is
the queue's own: a binary heap does not keep the order they were put in.  So
the queue is kept as the list of its items in the order they were put, and
`get?` takes the item at a position the taker chooses, provided no item in
the queue has a higher priority.

`get?_eq_some` says all that a successful take does; `mem_of_get?` and
`mem_of_mem_get?` are what invariants over the items need.
-/

/-- A priority queue, as its items in the order they were put. -/
structure PriorityQueue (α : Type) where
  items : List α
  deriving DecidableEq, Repr

namespace PriorityQueue

variable {α : Type} (priority : α → Nat)

/-- The empty queue. -/
def empty : PriorityQueue α := ⟨[]⟩

/-- `Put`. -/
def put (q : PriorityQueue α) (a : α) : PriorityQueue α := ⟨q.items ++ [a]⟩

/-- `Get(1)`, taking the item at position `i`: `none` unless it is there and
no item has a higher priority. -/
def get? (q : PriorityQueue α) (i : Nat) : Option (α × PriorityQueue α) :=
  match q.items[i]? with
  | none => none
  | some a =>
    if q.items.all fun b => priority b ≤ priority a then some (a, ⟨q.items.eraseIdx i⟩) else none

@[simp] theorem items_empty : (empty : PriorityQueue α).items = [] := rfl

@[simp] theorem items_put (q : PriorityQueue α) (a : α) : (q.put a).items = q.items ++ [a] := rfl

@[simp] theorem get?_empty (i : Nat) : (empty : PriorityQueue α).get? priority i = none := rfl

variable {priority}

theorem get?_eq_some {q q' : PriorityQueue α} {i : Nat} {a : α} :
    q.get? priority i = some (a, q') ↔
      q.items[i]? = some a ∧ (∀ b ∈ q.items, priority b ≤ priority a) ∧ q' = ⟨q.items.eraseIdx i⟩ := by
  unfold get?
  split
  · rename_i hi
    simp [hi]
  · rename_i a' hi
    by_cases hall : q.items.all fun b => priority b ≤ priority a'
    · rw [if_pos hall]
      have hall' : ∀ b ∈ q.items, priority b ≤ priority a' := by simpa using hall
      constructor
      · rintro ⟨⟩
        exact ⟨hi, hall', rfl⟩
      · rintro ⟨ha, -, rfl⟩
        rw [hi] at ha
        cases ha
        rfl
    · rw [if_neg hall]
      simp only [reduceCtorEq, false_iff, not_and]
      rintro ha hle -
      rw [hi] at ha
      cases ha
      exact hall (by simpa using hle)

theorem mem_of_get? {q q' : PriorityQueue α} {i : Nat} {a : α} (h : q.get? priority i = some (a, q')) :
    a ∈ q.items :=
  List.mem_of_getElem? (get?_eq_some.mp h).1

theorem mem_of_mem_get? {q q' : PriorityQueue α} {i : Nat} {a b : α}
    (h : q.get? priority i = some (a, q')) (hb : b ∈ q'.items) : b ∈ q.items := by
  obtain ⟨-, -, rfl⟩ := get?_eq_some.mp h
  exact List.mem_of_mem_eraseIdx hb

end PriorityQueue
