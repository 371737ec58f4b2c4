import Mathlib
/-!
# Go slices

A Go slice is a list.  Reading or writing an element outside `[0, len(s))`
panics, and so does `make` with a negative length: each returns `none` there.
`copy` never panics; it copies as many elements as the shorter slice holds.

`loop n body` is `for i := 0; i < n; i++ { body }` with a body that may panic:
the body folded over `0, …, n - 1` in `Option`.  `loop_inv` is its rule: a
body that, below `n`, keeps an invariant and does not panic from it makes a
loop that keeps the invariant and does not panic.
-/

namespace GoSlice

variable {α σ : Type}

/-- `s[i]`. -/
def index (s : List α) (i : Int) : Option α :=
  if 0 ≤ i then s[i.toNat]? else none

/-- `s[i] = f(s[i])`, which is how `s[i] op= x` is written here. -/
def modify (s : List α) (i : Int) (f : α → α) : Option (List α) :=
  if 0 ≤ i ∧ i < s.length then some (s.modify i.toNat f) else none

/-- `make([]T, n)`, with `z` the zero value of `T`. -/
def make (n : Int) (z : α) : Option (List α) :=
  if n < 0 then none else some (List.replicate n.toNat z)

/-- `copy(dst, src)`, as the new contents of `dst`. -/
def copy (dst src : List α) : List α :=
  src.take dst.length ++ dst.drop src.length

/-- `for i := 0; i < n; i++ { s = body(i, s) }`. -/
def loop (n : Nat) (body : Nat → σ → Option σ) (s : σ) : Option σ :=
  (List.range n).foldlM (fun s i => body i s) s

/-! ## Reading and writing -/

theorem index_isSome_iff {s : List α} {i : Int} :
    (index s i).isSome ↔ 0 ≤ i ∧ i < s.length := by
  unfold index
  split
  · by_cases hi : i.toNat < s.length
    · simp only [List.getElem?_eq_getElem hi, Option.isSome_some, true_iff]
      omega
    · simp only [List.getElem?_eq_none (Nat.le_of_not_lt hi), Option.isSome_none,
        Bool.false_eq_true, false_iff]
      omega
  · simp only [Option.isSome_none, Bool.false_eq_true, false_iff]
    omega

theorem index_eq_none_iff {s : List α} {i : Int} :
    index s i = none ↔ ¬(0 ≤ i ∧ i < s.length) := by
  rw [← index_isSome_iff, Option.not_isSome_iff_eq_none]

@[simp] theorem index_nil (i : Int) : index ([] : List α) i = none := by
  simp [index]

@[simp] theorem index_natCast (s : List α) (i : Nat) : index s i = s[i]? := by
  simp [index]

theorem mem_of_index_eq_some {s : List α} {i : Int} {x : α} (h : index s i = some x) : x ∈ s := by
  unfold index at h
  split at h
  · exact List.mem_of_getElem? h
  · cases h

theorem modify_eq_some {s : List α} {i : Int} {f : α → α} (h0 : 0 ≤ i) (h : i < s.length) :
    modify s i f = some (s.modify i.toNat f) := by
  simp [modify, h0, h]

theorem modify_eq_none_iff {s : List α} {i : Int} {f : α → α} :
    modify s i f = none ↔ ¬(0 ≤ i ∧ i < s.length) := by
  unfold modify
  split <;> simp_all

theorem length_of_modify {s s' : List α} {i : Int} {f : α → α} (h : modify s i f = some s') :
    s'.length = s.length := by
  unfold modify at h
  split at h
  · cases h
    exact List.length_modify _ _ _
  · cases h

theorem make_of_nonneg {n : Int} (z : α) (h : 0 ≤ n) : make n z = some (List.replicate n.toNat z) := by
  simp [make, Int.not_lt.mpr h]

theorem length_copy (dst src : List α) : (copy dst src).length = dst.length := by
  simp only [copy, List.length_append, List.length_take, List.length_drop]
  omega

theorem copy_replicate_length (s : List α) (z : α) : copy (List.replicate s.length z) s = s := by
  simp [copy]

/-! ## Loops -/

@[simp] theorem loop_zero (body : Nat → σ → Option σ) (s : σ) : loop 0 body s = some s := rfl

theorem loop_succ (n : Nat) (body : Nat → σ → Option σ) (s : σ) :
    loop (n + 1) body s = (loop n body s).bind (body n) := by
  simp only [loop, List.range_succ, List.foldlM_append, List.foldlM_cons, List.foldlM_nil]
  cases (List.range n).foldlM (fun s i => body i s) s <;> simp

theorem loop_inv (I : σ → Prop) {n : Nat} {body : Nat → σ → Option σ}
    (hbody : ∀ i < n, ∀ s, I s → ∃ s', body i s = some s' ∧ I s') {s : σ} (hs : I s) :
    ∃ s', loop n body s = some s' ∧ I s' := by
  induction n with
  | zero => exact ⟨s, rfl, hs⟩
  | succ n ih =>
    obtain ⟨s₁, h₁, hI₁⟩ := ih fun i hi => hbody i (by omega)
    obtain ⟨s₂, h₂, hI₂⟩ := hbody n (by omega) s₁ hI₁
    exact ⟨s₂, by rw [loop_succ, h₁, Option.bind_some, h₂], hI₂⟩

end GoSlice
