import Mathlib
/-!
# The greedy bound of the fractional knapsack

The items of a list carry an integer weight `w` and an integer cost `c`, and
the list is sorted by decreasing weight per cost; ratios are compared by
cross-multiplying, so that no division is needed.  The greedy prefix takes
the items in order up to and including the first one, `x`, whose cost
reaches a budget `tol`.  Every selection of items that costs less than `tol`
weighs at most the greedy prefix (`sum_filter_le_greedy`): what it takes
after `x` weighs at most the ratio of `x` per unit of cost, and what it
leaves out of the prefix costs more than that and weighs at least the ratio
of `x` per unit.

The sorted list comes from a sort by a comparator that need only be a total
preorder on the list's own elements (`pairwise_insertionSort_of_mem`):
comparing ratios by cross-multiplying is transitive only among items of
positive cost.
-/

namespace Knapsack

variable {α : Type*}

/-! ## Sums over parts of a list -/

section Sums

variable (f g : α → Int)

theorem sum_mul_le_mul_sum {l : List α} {k m : Int} (h : ∀ a ∈ l, f a * k ≤ m * g a) :
    (l.map f).sum * k ≤ m * (l.map g).sum := by
  rw [← List.sum_map_mul_right l f k, ← List.sum_map_mul_left l g m]
  exact List.sum_le_sum h

theorem sum_filter_add_sum_filter_not (q : α → Bool) (l : List α) :
    ((l.filter q).map f).sum + ((l.filter fun a => !q a).map f).sum = (l.map f).sum := by
  simpa using List.sum_map_filter_add_sum_map_filter_not (fun a => q a = true) f l

theorem sum_map_le_of_subperm {l₁ l₂ : List α} (h : l₁.Subperm l₂) (hf : ∀ a ∈ l₂, 0 ≤ f a) :
    (l₁.map f).sum ≤ (l₂.map f).sum := by
  obtain ⟨l, hperm, hsub⟩ := h
  rw [← (hperm.map f).sum_eq]
  exact (hsub.map f).sum_le_sum (by simpa using hf)

theorem sum_filter_add_sum_filter_le {p q : α → Bool} :
    ∀ {l : List α}, (∀ a ∈ l, ¬(p a ∧ q a)) → (∀ a ∈ l, 0 ≤ f a) →
      ((l.filter p).map f).sum + ((l.filter q).map f).sum ≤ (l.map f).sum
  | [], _, _ => by simp
  | a :: l, hdisj, hf => by
    have ih := sum_filter_add_sum_filter_le (fun b hb => hdisj b (List.mem_cons_of_mem a hb))
      (fun b hb => hf b (List.mem_cons_of_mem a hb))
    have ha := hf a List.mem_cons_self
    have hpq := hdisj a List.mem_cons_self
    cases hp : p a <;> cases hq : q a <;> simp_all <;> omega

end Sums

/-! ## The greedy bound -/

section Greedy

variable (w c : α → Int)

/-- `a` has at least the weight per cost of `b`. -/
def RatioGe (a b : α) : Prop := w b * c a ≤ w a * c b

theorem sum_filter_le_greedy {G H : List α} {x : α} {tol : Int}
    (hsort : (G ++ x :: H).Pairwise (RatioGe w c)) (hwx : 0 ≤ w x) (hcx : 0 < c x)
    (htol : tol ≤ (G.map c).sum + c x) (q : α → Bool)
    (hq : (((G ++ x :: H).filter q).map c).sum < tol) :
    (((G ++ x :: H).filter q).map w).sum ≤ (G.map w).sum + w x := by
  obtain ⟨-, hxH, hGx⟩ := List.pairwise_append.mp hsort
  -- the prefix has at least the ratio of `x`, the items after it at most
  have hbefore : ∀ a ∈ G ++ [x], c a * w x ≤ c x * w a := by
    intro a ha
    rcases List.mem_append.mp ha with ha | ha
    · have h := hGx a ha x List.mem_cons_self
      unfold RatioGe at h
      rwa [mul_comm (c a), mul_comm (c x)]
    · rw [List.mem_singleton.mp ha, mul_comm]
  have hafter : ∀ a ∈ H, w a * c x ≤ w x * c a := (List.pairwise_cons.mp hxH).1
  have hsplit : G ++ x :: H = (G ++ [x]) ++ H := by simp
  rw [hsplit, List.filter_append, List.map_append, List.sum_append] at hq ⊢
  set P := G ++ [x]
  have hP : (P.map w).sum = (G.map w).sum + w x := by simp [P]
  have hPc : (P.map c).sum = (G.map c).sum + c x := by simp [P]
  have hPw := sum_filter_add_sum_filter_not w q P
  have hPcost := sum_filter_add_sum_filter_not c q P
  -- what the selection takes after the prefix costs less than what it leaves in it
  have hcost : ((H.filter q).map c).sum ≤ ((P.filter fun a => !q a).map c).sum := by omega
  have hchain : ((H.filter q).map w).sum * c x ≤ ((P.filter fun a => !q a).map w).sum * c x :=
    calc ((H.filter q).map w).sum * c x
        ≤ w x * ((H.filter q).map c).sum :=
          sum_mul_le_mul_sum w c fun a ha => hafter a (List.mem_of_mem_filter ha)
      _ ≤ w x * ((P.filter fun a => !q a).map c).sum := mul_le_mul_of_nonneg_left hcost hwx
      _ = ((P.filter fun a => !q a).map c).sum * w x := mul_comm _ _
      _ ≤ c x * ((P.filter fun a => !q a).map w).sum :=
          sum_mul_le_mul_sum c w fun a ha => hbefore a (List.mem_of_mem_filter ha)
      _ = ((P.filter fun a => !q a).map w).sum * c x := mul_comm _ _
  have hle := le_of_mul_le_mul_right hchain hcx
  omega

end Greedy

/-! ## Sorting by a comparator that is a preorder on the list -/

theorem pairwise_insertionSort_of_mem (r : α → α → Prop) [DecidableRel r] {l : List α}
    (htotal : ∀ a ∈ l, ∀ b ∈ l, r a b ∨ r b a)
    (htrans : ∀ a ∈ l, ∀ b ∈ l, ∀ c ∈ l, r a b → r b c → r a c) :
    (l.insertionSort r).Pairwise r := by
  -- sort the elements as members of `l`, where `r` is a total preorder, then forget membership
  let s : {a // a ∈ l} → {a // a ∈ l} → Prop := fun a b => r a.1 b.1
  have : Std.Total s := ⟨fun a b => htotal a.1 a.2 b.1 b.2⟩
  have : IsTrans _ s := ⟨fun a b c => htrans a.1 a.2 b.1 b.2 c.1 c.2⟩
  have hmap : (l.attach.insertionSort s).map Subtype.val = l.insertionSort r := by
    rw [List.map_insertionSort s r Subtype.val l.attach (fun _ _ _ _ => Iff.rfl),
      List.attach_map_subtype_val]
  rw [← hmap, List.pairwise_map]
  exact List.pairwise_insertionSort s l.attach

end Knapsack
