import Mathlib
/-!
# Sorting with a comparison that may panic

`sort.Sort` calls the `Less` of its data, and a `Less` that reads a field of
the elements panics on the first comparison that meets a `nil`.  Here the
comparison returns `none` for a panic, and `insertionSortM` is an insertion
sort that stops at it.

Which comparisons a sort makes depends on its algorithm, but a comparison
sort of two elements or more compares each of them at least once: a sort
panics exactly when it has two elements or more and one of them is bad
(`insertionSortM_eq_none_iff`), whatever the algorithm.  Without a panic it
returns a permutation of its input (`perm_of_insertionSortM`).
-/

namespace GoSort

variable {α : Type} (less : α → α → Option Bool)

/-- Insert `a` before the first element it is less than. -/
def orderedInsertM (a : α) : List α → Option (List α)
  | [] => some [a]
  | b :: l => do
    if ← less a b then pure (a :: b :: l) else (b :: ·) <$> orderedInsertM a l

/-- Insertion sort, inserting each element into the sorted rest. -/
def insertionSortM : List α → Option (List α)
  | [] => some []
  | a :: l => insertionSortM l >>= orderedInsertM less a

variable {less}

/-! ## What a sort returns -/

theorem perm_of_orderedInsertM {a : α} {l t : List α} (h : orderedInsertM less a l = some t) :
    t.Perm (a :: l) := by
  induction l generalizing t with
  | nil =>
    cases h
    exact List.Perm.refl _
  | cons b l ih =>
    simp only [orderedInsertM] at h
    cases hab : less a b with
    | none => simp [hab] at h
    | some lt =>
      cases lt
      · -- `a` goes further in
        obtain ⟨t', ht', rfl⟩ : ∃ t', orderedInsertM less a l = some t' ∧ b :: t' = t := by
          simpa [hab] using h
        exact ((ih ht').cons b).trans (List.Perm.swap a b l)
      · obtain rfl : a :: b :: l = t := by simpa [hab] using h
        exact List.Perm.refl _

theorem perm_of_insertionSortM {l s : List α} (h : insertionSortM less l = some s) : s.Perm l := by
  induction l generalizing s with
  | nil =>
    cases h
    exact List.Perm.refl _
  | cons a l ih =>
    obtain ⟨s', hs', hins⟩ := Option.bind_eq_some_iff.mp h
    exact (perm_of_orderedInsertM hins).trans ((ih hs').cons a)

/-! ## When a sort panics -/

section Panic

variable {bad : α → Prop} (hless : ∀ a b, less a b = none ↔ bad a ∨ bad b)
include hless

theorem orderedInsertM_eq_none_iff {a : α} {l : List α} (hgood : ∀ b ∈ l, ¬bad b) :
    orderedInsertM less a l = none ↔ l ≠ [] ∧ bad a := by
  induction l with
  | nil => simp [orderedInsertM]
  | cons b l ih =>
    have hb : ¬bad b := hgood b List.mem_cons_self
    simp only [orderedInsertM, ne_eq, reduceCtorEq, not_false_eq_true, true_and]
    by_cases ha : bad a
    · have hab : less a b = none := (hless a b).mpr (.inl ha)
      simp [hab, ha]
    · -- both good: the comparison returns, and the rest of the insertion does too
      obtain ⟨lt, hab⟩ : ∃ lt, less a b = some lt :=
        Option.ne_none_iff_exists'.mp fun h => by simp_all
      have hrest := ih fun c hc => hgood c (List.mem_cons_of_mem b hc)
      cases lt <;> simp_all

theorem orderedInsertM_singleton_eq_none_iff {a b : α} :
    orderedInsertM less a [b] = none ↔ bad a ∨ bad b := by
  cases hab : less a b with
  | none => simpa [orderedInsertM, hab] using (hless a b).mp hab
  | some lt =>
    have hgood : ¬(bad a ∨ bad b) := fun h => by simp [(hless a b).mpr h] at hab
    cases lt <;> simp [orderedInsertM, hab, hgood]

theorem insertionSortM_eq_none_iff {l : List α} :
    insertionSortM less l = none ↔ 2 ≤ l.length ∧ ∃ a ∈ l, bad a := by
  induction l with
  | nil => simp [insertionSortM]
  | cons a l ih =>
    rw [insertionSortM, Option.bind_eq_bind]
    cases hsort : insertionSortM less l with
    | none =>
      -- the rest panics already
      obtain ⟨hlen, b, hb, hbad⟩ := ih.mp hsort
      simp only [Option.bind_none, List.length_cons, true_iff]
      exact ⟨by omega, b, List.mem_cons_of_mem a hb, hbad⟩
    | some s =>
      have hperm := perm_of_insertionSortM hsort
      have hrest : ¬(2 ≤ l.length ∧ ∃ a ∈ l, bad a) := fun h => by simp [ih.mpr h] at hsort
      rw [Option.bind_some]
      match l, hperm, hrest with
      | [], hperm, _ =>
        rw [List.perm_nil.mp hperm]
        simp [orderedInsertM]
      | [b], hperm, _ =>
        rw [List.perm_singleton.mp hperm, orderedInsertM_singleton_eq_none_iff hless]
        simp
      | b :: c :: l', hperm, hrest =>
        -- two elements or more in the rest: all of them are good
        have hgood : ∀ d ∈ s, ¬bad d := fun d hd hbad =>
          hrest ⟨by simp, d, hperm.mem_iff.mp hd, hbad⟩
        have hne : s ≠ [] := fun hs => by simp [hs] at hperm
        rw [orderedInsertM_eq_none_iff hless hgood]
        have hnot : ¬∃ d ∈ b :: c :: l', bad d := fun ⟨d, hd, hbad⟩ => hrest ⟨by simp, d, hd, hbad⟩
        simp only [hne, ne_eq, not_false_eq_true, true_and, List.length_cons]
        constructor
        · intro ha
          exact ⟨by omega, a, List.mem_cons_self, ha⟩
        · rintro ⟨-, d, hd, hbad⟩
          rcases List.mem_cons.mp hd with rfl | hd
          · exact hbad
          · exact absurd ⟨d, hd, hbad⟩ hnot

end Panic

end GoSort
