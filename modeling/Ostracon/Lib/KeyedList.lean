import Ostracon.Lib.Knapsack
/-!
# Lists of records sorted by a key

A list of records with a key, kept in strictly ascending key order, is a
finite map from keys to records.  `merge` writes the records of a second
sorted list into the first, one walk over both lists; `remove` drops the
records with the keys of a second sorted list, again in one walk.  Each is
characterised up to order by a filter (`merge_perm`, `remove_eq_some`), and
keeps the keys ascending (`ascending_merge`), so that the result is a map
again and `lookup` reads it off the filter.

The keys are compared by a lawful `Ord`.  `sortByKey` is an insertion sort
by key; on distinct keys it puts them in ascending order
(`ascending_sortByKey`).
-/

namespace KeyedList

variable {α κ : Type} (key : α → κ)

/-- The keys ascend strictly. -/
def Ascending [Ord κ] (l : List α) : Prop := l.Pairwise fun a b => compare (key a) (key b) = .lt

/-- The first record with key `k`. -/
def lookup [BEq κ] (k : κ) (l : List α) : Option α := l.find? fun a => key a == k

section Merge

variable [Ord κ] [BEq κ]

/-- One step of `merge` for the first record `y` of the second list: the
records of the first list with keys before `key y` come first, then `y`, which
takes the place of the record of the first list with its key; `rest` merges
what is left of the first list with the rest of the second. -/
def mergeInsert (rest : List α → List α) (y : α) : List α → List α
  | [] => y :: rest []
  | x :: xs =>
    if compare (key x) (key y) = .lt then x :: mergeInsert rest y xs
    else y :: rest (if key x == key y then xs else x :: xs)

/-- The merge of two lists sorted by key, where a record of the second list
replaces the record of the first with its key. -/
def merge (xs : List α) : List α → List α
  | [] => xs
  | y :: ys => mergeInsert key (fun xs => merge xs ys) y xs

/-- Drop from `xs` the records with the keys of `ds`, walking both in key
order; `none` where `xs` runs out before `ds`. -/
def remove : List α → List α → Option (List α)
  | xs, [] => some xs
  | [], _ :: _ => none
  | x :: xs, d :: ds => if key x == key d then remove xs ds else (x :: ·) <$> remove xs (d :: ds)

end Merge

/-- Insertion sort by key. -/
def sortByKey [Ord κ] (l : List α) : List α := l.insertionSort fun a b => compare (key b) (key a) ≠ .lt

/-! ## The merge step by step -/

section MergeSteps

variable [Ord κ] [BEq κ]

@[simp] theorem merge_nil_right (xs : List α) : merge key xs [] = xs := rfl

@[simp] theorem merge_nil_left (ys : List α) : merge key [] ys = ys := by
  induction ys with
  | nil => rfl
  | cons y ys ih => exact congrArg (y :: ·) ih

theorem merge_cons_cons (x y : α) (xs ys : List α) :
    merge key (x :: xs) (y :: ys) =
      if compare (key x) (key y) = .lt then x :: merge key xs (y :: ys)
      else y :: merge key (if key x == key y then xs else x :: xs) ys := rfl

end MergeSteps

/-! ## Lookup -/

section Lookup

variable [BEq κ] {key}

theorem mem_of_lookup_eq_some {k : κ} {l : List α} {a : α} (h : lookup key k l = some a) :
    a ∈ l :=
  List.mem_of_find?_eq_some h

theorem lookup_append (k : κ) (l l' : List α) :
    lookup key k (l ++ l') = (lookup key k l).or (lookup key k l') :=
  List.find?_append

theorem lookup_map {f : α → α} (hf : ∀ a, key (f a) = key a) (k : κ) (l : List α) :
    lookup key k (l.map f) = (lookup key k l).map f := by
  rw [lookup, List.find?_map]
  congr 2
  funext a
  simp [hf]

variable [LawfulBEq κ]

theorem lookup_eq_none_iff {k : κ} {l : List α} : lookup key k l = none ↔ k ∉ l.map key := by
  simp [lookup, List.find?_eq_none]

theorem key_of_lookup_eq_some {k : κ} {l : List α} {a : α} (h : lookup key k l = some a) :
    key a = k := by
  simpa using List.find?_some h

theorem lookup_eq_some_iff {k : κ} {l : List α} {a : α} (hl : (l.map key).Nodup) :
    lookup key k l = some a ↔ a ∈ l ∧ key a = k := by
  constructor
  · intro h
    exact ⟨mem_of_lookup_eq_some h, key_of_lookup_eq_some h⟩
  · rintro ⟨ha, rfl⟩
    obtain ⟨b, hb⟩ : ∃ b, lookup key (key a) l = some b :=
      Option.ne_none_iff_exists'.mp fun h => lookup_eq_none_iff.mp h (List.mem_map_of_mem ha)
    have hbl := mem_of_lookup_eq_some hb
    rw [hb, List.inj_on_of_nodup_map hl hbl ha (key_of_lookup_eq_some hb)]

theorem lookup_eq_of_perm {k : κ} {l l' : List α} (hp : l.Perm l') (hl : (l.map key).Nodup) :
    lookup key k l = lookup key k l' := by
  have hl' : (l'.map key).Nodup := (hp.map key).nodup_iff.mp hl
  cases h : lookup key k l' with
  | none => exact lookup_eq_none_iff.mpr fun hk => lookup_eq_none_iff.mp h ((hp.map key).mem_iff.mp hk)
  | some a =>
    obtain ⟨ha, hka⟩ := (lookup_eq_some_iff hl').mp h
    exact (lookup_eq_some_iff hl).mpr ⟨hp.mem_iff.mpr ha, hka⟩

theorem lookup_filter_of_not {k : κ} {l : List α} {p : α → Bool} (hp : ∀ a, key a = k → p a = false) :
    lookup key k (l.filter p) = none := by
  rw [lookup_eq_none_iff]
  intro hk
  obtain ⟨a, ha, rfl⟩ := List.mem_map.mp hk
  simp [hp a rfl] at ha

theorem lookup_filter_of_pos {k : κ} {l : List α} {p : α → Bool} (hp : ∀ a, key a = k → p a = true) :
    lookup key k (l.filter p) = lookup key k l := by
  rw [lookup, List.find?_filter]
  congr 1
  funext a
  by_cases h : key a = k <;> simp [h, hp]

theorem lookup_filter {k : κ} {l : List α} (hl : (l.map key).Nodup) (p : α → Bool) :
    lookup key k (l.filter p) = (lookup key k l).filter p := by
  have hfl : ((l.filter p).map key).Nodup := (List.filter_sublist.map key).nodup hl
  cases h : lookup key k l with
  | none =>
    rw [Option.filter_none, lookup_eq_none_iff]
    exact fun hk => lookup_eq_none_iff.mp h ((List.filter_sublist.map key).subset hk)
  | some a =>
    obtain ⟨ha, rfl⟩ := (lookup_eq_some_iff hl).mp h
    by_cases hpa : p a
    · rw [Option.filter_some, if_pos hpa]
      exact (lookup_eq_some_iff hfl).mpr ⟨List.mem_filter.mpr ⟨ha, hpa⟩, rfl⟩
    · -- the one record with the key fails the filter
      rw [Option.filter_some, if_neg hpa, lookup_eq_none_iff]
      intro hk
      obtain ⟨b, hb, hba⟩ := List.mem_map.mp hk
      obtain ⟨hb, hpb⟩ := List.mem_filter.mp hb
      exact hpa (List.inj_on_of_nodup_map hl hb ha hba ▸ hpb)

theorem filterMap_lookup_perm {ks : List κ} {l : List α} (hks : ks.Nodup) (hl : (l.map key).Nodup) :
    (ks.filterMap fun k => lookup key k l).Perm (l.filter fun a => key a ∈ ks) := by
  apply (List.perm_ext_iff_of_nodup _ _).mpr
  · intro a
    simp only [List.mem_filterMap, List.mem_filter, decide_eq_true_eq, lookup_eq_some_iff hl]
    constructor
    · rintro ⟨k, hk, ha, rfl⟩
      exact ⟨ha, hk⟩
    · rintro ⟨ha, hk⟩
      exact ⟨key a, hk, ha, rfl⟩
  · exact hks.filterMap fun k k' a ha ha' =>
      (key_of_lookup_eq_some ha).symm.trans (key_of_lookup_eq_some ha')
  · exact (hl.of_map key).filter _

theorem sum_getD_lookup (f : α → Int) {ks : List κ} {l : List α} (hks : ks.Nodup)
    (hl : (l.map key).Nodup) :
    (ks.map fun k => ((lookup key k l).map f).getD 0).sum = ((l.filter fun a => key a ∈ ks).map f).sum := by
  have hsum : ∀ ks : List κ,
      (ks.map fun k => ((lookup key k l).map f).getD 0).sum =
        ((ks.filterMap fun k => lookup key k l).map f).sum := by
    intro ks
    induction ks with
    | nil => rfl
    | cons k ks ih =>
      cases h : lookup key k l <;> simp [h, ih]
  rw [hsum, ((filterMap_lookup_perm hks hl).map f).sum_eq]

end Lookup

/-! ## Order -/

section Order

variable [Ord κ] {key}

theorem Ascending.cons_iff {a : α} {l : List α} :
    Ascending key (a :: l) ↔ (∀ b ∈ l, compare (key a) (key b) = .lt) ∧ Ascending key l :=
  List.pairwise_cons

theorem Ascending.filter {l : List α} (h : Ascending key l) (p : α → Bool) :
    Ascending key (l.filter p) :=
  List.Pairwise.filter p h

theorem sortByKey_perm (l : List α) : (sortByKey key l).Perm l := List.perm_insertionSort _ _

section Lawful

variable [Std.LawfulEqOrd κ]

theorem ne_of_compare_eq_lt {k k' : κ} (h : compare k k' = .lt) : k ≠ k' := by
  rintro rfl
  simp at h

theorem Ascending.nodup_keys {l : List α} (h : Ascending key l) : (l.map key).Nodup :=
  List.pairwise_map.mpr (h.imp ne_of_compare_eq_lt)

end Lawful

variable [Std.TransOrd κ]

theorem lt_of_lt_head {k : κ} {a b : α} {l : List α} (hl : Ascending key (a :: l))
    (hk : compare k (key a) = .lt) (hb : b ∈ a :: l) : compare k (key b) = .lt := by
  rcases List.mem_cons.mp hb with rfl | hb
  · exact hk
  · exact Std.TransCmp.lt_trans hk (Ascending.cons_iff.mp hl |>.1 b hb)

/-! ## Sorting by key -/

theorem pairwise_sortByKey (l : List α) :
    (sortByKey key l).Pairwise fun a b => compare (key b) (key a) ≠ .lt := by
  apply Knapsack.pairwise_insertionSort_of_mem
  · intro a _ b _
    by_cases h : compare (key b) (key a) = .lt
    · exact .inr fun h' => by
        rw [← Std.OrientedCmp.gt_iff_lt] at h'
        rw [h'] at h
        cases h
    · exact .inl h
  · intro a _ b _ c _ hab hbc
    have hba : compare (key a) (key b) ≠ .gt := fun h => hab (Std.OrientedCmp.gt_iff_lt.mp h)
    have hcb : compare (key b) (key c) ≠ .gt := fun h => hbc (Std.OrientedCmp.gt_iff_lt.mp h)
    exact fun h => Std.TransCmp.le_trans hba hcb (Std.OrientedCmp.gt_iff_lt.mpr h)

variable [Std.LawfulEqOrd κ]

theorem ascending_of_pairwise {l : List α}
    (hl : l.Pairwise fun a b => compare (key b) (key a) ≠ .lt) (hnodup : (l.map key).Nodup) :
    Ascending key l := by
  apply (hl.and (List.pairwise_map.mp hnodup)).imp
  rintro a b ⟨hba, hne⟩
  rcases h : compare (key a) (key b) with _ | _ | _
  · rfl
  · exact absurd (Std.LawfulEqCmp.compare_eq_iff_eq.mp h) hne
  · exact absurd (Std.OrientedCmp.gt_iff_lt.mp h) hba

theorem ascending_sortByKey {l : List α} (hnodup : (l.map key).Nodup) : Ascending key (sortByKey key l) :=
  ascending_of_pairwise (pairwise_sortByKey l) (((sortByKey_perm l).map key).nodup_iff.mpr hnodup)

/-! ## Merging and removing -/

variable [BEq κ] [LawfulBEq κ]

theorem merge_perm {xs ys : List α} (hxs : Ascending key xs) (hys : Ascending key ys) :
    (merge key xs ys).Perm (xs.filter (fun x => key x ∉ ys.map key) ++ ys) := by
  -- the merge recurses on the second list, and within a step on the first
  induction ys generalizing xs with
  | nil => simp
  | cons y ys ihy =>
    have hys' := (Ascending.cons_iff.mp hys).2
    induction xs with
    | nil => simp
    | cons x xs ihx =>
      have hxs' := (Ascending.cons_iff.mp hxs).2
      rw [merge_cons_cons]
      by_cases hlt : compare (key x) (key y) = .lt
      · -- `x` comes first and no record of `y :: ys` has its key
        have hx : key x ∉ (y :: ys).map key := fun hmem => by
          obtain ⟨b, hb, hbx⟩ := List.mem_map.mp hmem
          exact ne_of_compare_eq_lt (lt_of_lt_head hys hlt hb) hbx.symm
        rw [if_pos hlt, List.filter_cons_of_pos (by simpa using hx)]
        exact (ihx hxs').cons x
      · rw [if_neg hlt]
        -- the records of `x :: xs` after the one with the key of `y` miss it
        have hfilter : ∀ xs' : List α, (∀ x' ∈ xs', key x' ≠ key y) →
            xs'.filter (fun x => key x ∉ (y :: ys).map key) = xs'.filter (fun x => key x ∉ ys.map key) := by
          intro xs' hne
          apply List.filter_congr
          intro x' hx'
          simp [hne x' hx']
        by_cases heq : key x = key y
        · rw [if_pos (beq_iff_eq.mpr heq), List.filter_cons_of_neg (by simp [heq]),
            hfilter xs fun x' hx' => heq ▸ (ne_of_compare_eq_lt (Ascending.cons_iff.mp hxs |>.1 x' hx')).symm]
          exact ((ihy hxs' hys').cons y).trans List.perm_middle.symm
        · rw [if_neg (mt beq_iff_eq.mp heq)]
          have hgt : compare (key y) (key x) = .lt := by
            rcases h : compare (key x) (key y) with _ | _ | _
            · exact absurd h hlt
            · exact absurd (Std.LawfulEqCmp.compare_eq_iff_eq.mp h) heq
            · exact Std.OrientedCmp.gt_iff_lt.mp h
          rw [hfilter (x :: xs) fun x' hx' => (ne_of_compare_eq_lt (lt_of_lt_head hxs hgt hx')).symm]
          exact ((ihy hxs hys').cons y).trans List.perm_middle.symm

theorem mem_merge {xs ys : List α} (hxs : Ascending key xs) (hys : Ascending key ys) {a : α}
    (ha : a ∈ merge key xs ys) : a ∈ xs ∨ a ∈ ys := by
  rcases List.mem_append.mp ((merge_perm hxs hys).mem_iff.mp ha) with ha | ha
  · exact .inl (List.mem_of_mem_filter ha)
  · exact .inr ha

theorem ascending_merge {xs ys : List α} (hxs : Ascending key xs) (hys : Ascending key ys) :
    Ascending key (merge key xs ys) := by
  induction ys generalizing xs with
  | nil => exact hxs
  | cons y ys ihy =>
    have hys' := (Ascending.cons_iff.mp hys).2
    induction xs with
    | nil => simpa using hys
    | cons x xs ihx =>
      have hxs' := (Ascending.cons_iff.mp hxs).2
      rw [merge_cons_cons]
      by_cases hlt : compare (key x) (key y) = .lt
      · -- `x` is below all of `xs` and, through `y`, all of `ys`
        rw [if_pos hlt]
        refine Ascending.cons_iff.mpr ⟨fun b hb => ?_, ihx hxs'⟩
        rcases mem_merge hxs' hys hb with hb | hb
        · exact Ascending.cons_iff.mp hxs |>.1 b hb
        · exact lt_of_lt_head hys hlt hb
      · rw [if_neg hlt]
        have hyx : compare (key y) (key x) ≠ .gt := fun h => hlt (Std.OrientedCmp.gt_iff_lt.mp h)
        have hrest : Ascending key (if key x == key y then xs else x :: xs) := by
          split_ifs
          · exact hxs'
          · exact hxs
        refine Ascending.cons_iff.mpr ⟨fun b hb => ?_, ihy hrest hys'⟩
        rcases mem_merge hrest hys' hb with hb | hb
        · -- past `y`'s key in the first list
          split_ifs at hb with heq
          · exact (beq_iff_eq.mp heq) ▸ (Ascending.cons_iff.mp hxs |>.1 b hb)
          · rcases List.mem_cons.mp hb with rfl | hb
            · rcases h : compare (key y) (key b) with _ | _ | _
              · rfl
              · exact absurd (beq_iff_eq.mpr (Std.LawfulEqCmp.compare_eq_iff_eq.mp h).symm) heq
              · exact absurd h hyx
            · exact Std.TransCmp.lt_of_le_of_lt hyx (Ascending.cons_iff.mp hxs |>.1 b hb)
        · exact Ascending.cons_iff.mp hys |>.1 b hb

theorem remove_eq_some {xs ds : List α} (hxs : Ascending key xs) (hds : Ascending key ds)
    (hsub : ∀ d ∈ ds, key d ∈ xs.map key) :
    remove key xs ds = some (xs.filter fun x => key x ∉ ds.map key) := by
  induction xs generalizing ds with
  | nil =>
    cases ds with
    | nil => rfl
    | cons d ds => exact absurd (hsub d List.mem_cons_self) (by simp)
  | cons x xs ih =>
    have hxs' := (Ascending.cons_iff.mp hxs).2
    cases ds with
    | nil => simp [remove]
    | cons d ds =>
      have hds' := (Ascending.cons_iff.mp hds).2
      by_cases heq : key x = key d
      · -- `x` goes, and the keys after `d` lie past `x`
        have hsub' : ∀ d' ∈ ds, key d' ∈ xs.map key := by
          intro d' hd'
          have h := hsub d' (List.mem_cons_of_mem d hd')
          rw [List.map_cons, List.mem_cons] at h
          rcases h with h | h
          · exact absurd (heq ▸ h) (ne_of_compare_eq_lt (Ascending.cons_iff.mp hds |>.1 d' hd')).symm
          · exact h
        have hfilter : xs.filter (fun x => key x ∉ (d :: ds).map key) =
            xs.filter (fun x => key x ∉ ds.map key) := by
          apply List.filter_congr
          intro x' hx'
          have hne : key x' ≠ key d := heq ▸ (ne_of_compare_eq_lt (Ascending.cons_iff.mp hxs |>.1 x' hx')).symm
          simp [hne]
        rw [remove, if_pos (beq_iff_eq.mpr heq), ih hxs' hds' hsub', List.filter_cons_of_neg (by simp [heq]),
          hfilter]
      · -- `x` stays, and `d` occurs further on
        have hsub' : ∀ d' ∈ d :: ds, key d' ∈ xs.map key := by
          intro d' hd'
          have h := hsub d' hd'
          rw [List.map_cons, List.mem_cons] at h
          rcases h with h | h
          · rcases List.mem_cons.mp hd' with rfl | hd'
            · exact absurd h.symm heq
            · have hdd' := Ascending.cons_iff.mp hds |>.1 d' hd'
              -- `d` lies in `xs`, after `x`, and `d'` after `d`
              have hd := hsub d List.mem_cons_self
              rw [List.map_cons, List.mem_cons] at hd
              obtain ⟨b, hb, hbd⟩ := List.mem_map.mp (hd.resolve_left (Ne.symm heq))
              have hxb := Ascending.cons_iff.mp hxs |>.1 b hb
              rw [hbd, ← h] at hxb
              exact absurd (Std.TransCmp.lt_trans hxb hdd') (by simp)
          · exact h
        have hx : key x ∉ (d :: ds).map key := by
          intro hmem
          obtain ⟨d', hd', hd'x⟩ := List.mem_map.mp hmem
          obtain ⟨b, hb, hbd⟩ := List.mem_map.mp (hsub' d' hd')
          exact ne_of_compare_eq_lt (Ascending.cons_iff.mp hxs |>.1 b hb) (hbd.trans hd'x).symm
        rw [remove, if_neg (mt beq_iff_eq.mp heq), ih hxs' hds hsub', List.filter_cons_of_pos (by simpa using hx)]
        rfl

end Order

end KeyedList
