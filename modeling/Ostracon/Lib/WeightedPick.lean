import Mathlib
/-!
# The weighted pick

A list of weighted items is walked in order with a budget `m`.  The first item
whose weight covers what is left of the budget is picked, and every item passed
over takes its weight off the budget.  This is the loop of a weighted median:
when the items are sorted by a key and `m` is half their total weight, the
picked key is a weighted median of the keys.

`pick_eq_some` splits the list at the pick.  The items before it weigh less
than `m`, or there are none, and together with it they weigh at least `m`.  On
a list sorted by a key this is what makes the pick a weighted median, with no
mention of the order the sort left equal keys in: the items with a key below
the pick's weigh less than `m` (`sum_lt_pick_lt`), and those with a key at
most the pick's weigh at least `m` (`le_sum_le_pick`).  The first bound
is strict and the second is not.
-/

namespace WeightedPick

variable {α β : Type*} (w : α → Int)

/-- The first item whose weight covers the budget left, walking from the head. -/
def pick : Int → List α → Option α
  | _, [] => none
  | m, x :: xs => if m ≤ w x then some x else pick (m - w x) xs

variable {w}

theorem pick_cons_of_le {m : Int} {x : α} {xs : List α} (h : m ≤ w x) :
    pick w m (x :: xs) = some x := by
  simp [pick, h]

theorem pick_cons_of_lt {m : Int} {x : α} {xs : List α} (h : w x < m) :
    pick w m (x :: xs) = pick w (m - w x) xs := by
  simp [pick, Int.not_le.mpr h]

theorem pick_eq_some {x : α} : ∀ {l : List α} {m : Int}, pick w m l = some x →
    ∃ pre post, l = pre ++ x :: post ∧ ((pre.map w).sum < m ∨ pre = []) ∧
      m ≤ (pre.map w).sum + w x
  | [], _, h => by simp [pick] at h
  | y :: ys, m, h => by
    by_cases hy : m ≤ w y
    · rw [pick_cons_of_le hy] at h
      cases h
      exact ⟨[], ys, rfl, .inr rfl, by simpa using hy⟩
    · rw [pick_cons_of_lt (Int.not_le.mp hy)] at h
      -- the rest of the walk starts with the budget less `w y`, which stays positive
      obtain ⟨pre, post, rfl, hpre, hx⟩ := pick_eq_some h
      refine ⟨y :: pre, post, rfl, .inl ?_, ?_⟩
      · rcases hpre with hpre | rfl
        · simp only [List.map_cons, List.sum_cons]
          omega
        · simp only [List.map_cons, List.map_nil, List.sum_cons, List.sum_nil]
          omega
      · simp only [List.map_cons, List.sum_cons]
        omega

theorem pick_isSome : ∀ {l : List α} {m : Int}, l ≠ [] → m ≤ (l.map w).sum → (pick w m l).isSome
  | [], _, hl, _ => absurd rfl hl
  | y :: ys, m, _, hm => by
    by_cases hy : m ≤ w y
    · simp [pick_cons_of_le hy]
    · rw [pick_cons_of_lt (Int.not_le.mp hy)]
      rcases ys with _ | ⟨z, zs⟩
      · simp only [List.map_cons, List.map_nil, List.sum_cons, List.sum_nil] at hm
        omega
      · refine pick_isSome (List.cons_ne_nil z zs) ?_
        simp only [List.map_cons, List.sum_cons] at hm ⊢
        omega

theorem pick_of_split {x : α} {m : Int} {post : List α} :
    ∀ {pre : List α}, (∀ a ∈ pre, 0 ≤ w a) → (pre.map w).sum < m → m ≤ (pre.map w).sum + w x →
      pick w m (pre ++ x :: post) = some x
  | [], _, _, hx => pick_cons_of_le (by simpa using hx)
  | y :: pre, hw, hpre, hx => by
    simp only [List.map_cons, List.sum_cons] at hpre hx
    -- the items after `y` weigh nothing negative, so `y` alone is below the budget
    have hrest : 0 ≤ (pre.map w).sum :=
      List.sum_nonneg fun v hv => by
        obtain ⟨a, ha, rfl⟩ := List.mem_map.mp hv
        exact hw a (List.mem_cons_of_mem y ha)
    rw [List.cons_append, pick_cons_of_lt (by omega)]
    exact pick_of_split (fun a ha => hw a (List.mem_cons_of_mem y ha)) (by omega) (by omega)

/-- With nonnegative weights and a positive budget, the pick is exactly the
item whose interval of cumulative weight holds the budget: the items before
it weigh less than `m`, and with it at least `m`.  The intervals do not
overlap, so there is one such item. -/
theorem pick_eq_some_iff {x : α} {l : List α} {m : Int} (hw : ∀ a ∈ l, 0 ≤ w a) (hm : 0 < m) :
    pick w m l = some x ↔
      ∃ pre post, l = pre ++ x :: post ∧ (pre.map w).sum < m ∧ m ≤ (pre.map w).sum + w x := by
  constructor
  · intro h
    obtain ⟨pre, post, hl, hpre, hx⟩ := pick_eq_some h
    refine ⟨pre, post, hl, ?_, hx⟩
    rcases hpre with hpre | rfl
    · exact hpre
    · simpa using hm
  · rintro ⟨pre, post, rfl, hpre, hx⟩
    exact pick_of_split (fun a ha => hw a (List.mem_append_left _ ha)) hpre hx

section Bounds

variable [LinearOrder β] {t : α → β} {l : List α} {m : Int} {x : α}

theorem sum_map_le_of_sublist {l₁ l₂ : List α} (h : List.Sublist l₁ l₂) (hw : ∀ a ∈ l₂, 0 ≤ w a) :
    (l₁.map w).sum ≤ (l₂.map w).sum :=
  (h.map w).sum_le_sum (by simpa using hw)

theorem sum_lt_pick_lt (hw : ∀ a ∈ l, 0 ≤ w a) (hs : l.Pairwise fun a b => t a ≤ t b)
    (h : pick w m l = some x) :
    ((l.filter fun a => t a < t x).map w).sum < m ∨ (l.filter fun a => t a < t x) = [] := by
  obtain ⟨pre, post, rfl, hpre, -⟩ := pick_eq_some h
  -- from the pick on, the keys are at least its own
  have hpost : (x :: post).filter (fun a => t a < t x) = [] := by
    refine List.filter_eq_nil_iff.mpr fun y hy => ?_
    rcases List.mem_cons.mp hy with rfl | hy
    · simp
    · simpa using List.rel_of_pairwise_cons (List.pairwise_append.mp hs).2.1 hy
  rw [List.filter_append, hpost, List.append_nil]
  rcases hpre with hpre | rfl
  · have hle := sum_map_le_of_sublist (List.filter_sublist (p := fun a => decide (t a < t x)))
      (fun a ha => hw a (List.mem_append_left _ ha))
    exact .inl (lt_of_le_of_lt hle hpre)
  · exact .inr rfl

theorem le_sum_le_pick (hw : ∀ a ∈ l, 0 ≤ w a) (hs : l.Pairwise fun a b => t a ≤ t b)
    (h : pick w m l = some x) :
    m ≤ ((l.filter fun a => t a ≤ t x).map w).sum := by
  obtain ⟨pre, post, rfl, -, hx⟩ := pick_eq_some h
  -- up to the pick, the keys are at most its own
  have hpre : (pre ++ [x]).filter (fun a => t a ≤ t x) = pre ++ [x] := by
    refine List.filter_eq_self.mpr fun y hy => ?_
    rcases List.mem_append.mp hy with hy | hy
    · simpa using (List.pairwise_append.mp hs).2.2 y hy x List.mem_cons_self
    · simp [List.mem_singleton.mp hy]
  have hsub : List.Sublist (pre ++ [x]) (pre ++ x :: post) := by simp
  have hle := sum_map_le_of_sublist (hpre ▸ hsub.filter fun a => decide (t a ≤ t x))
    (fun a ha => hw a (List.mem_of_mem_filter ha))
  simp only [List.map_append, List.sum_append, List.map_cons, List.map_nil, List.sum_cons,
    List.sum_nil] at hle
  omega

end Bounds

/-! ## The items at marked indices

A class of items given by their positions, such as the voters a set of
indices names, is `marked q i l`.  It keeps the order of the list, so a class
and its complement make up the list (`marked_perm`), and it commutes with
pairing two lists position by position (`marked_zipWith`). -/

section Marked

variable {γ δ : Type*} (q : Nat → Bool)

/-- The items of the list whose index, counting from `i` at the head, `q`
marks. -/
def marked : Nat → List α → List α
  | _, [] => []
  | i, a :: l => if q i then a :: marked (i + 1) l else marked (i + 1) l

theorem marked_sublist : ∀ (i : Nat) (l : List α), List.Sublist (marked q i l) l
  | _, [] => List.Sublist.slnil
  | i, a :: l => by
    by_cases h : q i = true
    · simpa [marked, h] using (marked_sublist (i + 1) l).cons_cons a
    · simpa [marked, h] using (marked_sublist (i + 1) l).cons a

theorem marked_perm : ∀ (i : Nat) (l : List α), (marked q i l ++ marked (fun j => !q j) i l).Perm l
  | _, [] => List.Perm.refl []
  | i, a :: l => by
    by_cases h : q i = true
    · simpa [marked, h] using (marked_perm (i + 1) l).cons a
    · have hq : q i = false := by simpa using h
      simpa [marked, hq] using List.perm_middle.trans ((marked_perm (i + 1) l).cons a)

theorem marked_map (f : α → γ) : ∀ (i : Nat) (l : List α), marked q i (l.map f) = (marked q i l).map f
  | _, [] => rfl
  | i, a :: l => by
    by_cases h : q i = true <;> simp [marked, h, marked_map f (i + 1) l]

theorem marked_zipWith (f : α → γ → δ) :
    ∀ (i : Nat) (l₁ : List α) (l₂ : List γ),
      marked q i (List.zipWith f l₁ l₂) = List.zipWith f (marked q i l₁) (marked q i l₂)
  | _, [], _ => rfl
  | i, a :: l₁, [] => by simp [marked]
  | i, a :: l₁, b :: l₂ => by
    by_cases h : q i = true <;> simp [marked, h, marked_zipWith f (i + 1) l₁ l₂]

end Marked

end WeightedPick
