import Mathlib
/-!
# Maps kept in key order

An association list whose keys increase strictly: the view of an ordered
key-value store that iterates its keys in order.  The order is part of the
type, so every operation returns a sorted map.

`insert` overwrites or adds a key (`length_insert`), `erase` removes one
(`length_erase`), and `lastBelow` is the entry with the greatest key below a
bound (`lastBelow_eq_some_iff`), as a reverse iterator over an open upper
bound finds it.
-/

namespace SortedMap

/-- A map whose entries are in strictly increasing key order. -/
structure Map (K V : Type) [LinearOrder K] where
  entries : List (K × V)
  sorted : entries.Pairwise (fun a b => a.1 < b.1)

variable {K V : Type} [LinearOrder K]

/-- The empty map. -/
def empty : Map K V := ⟨[], List.Pairwise.nil⟩

/-- The keys, in increasing order. -/
def Map.keys (m : Map K V) : List K := m.entries.map Prod.fst

/-- Write `v` at `k` into a sorted list: before the first larger key, over an
equal one. -/
def insertList (k : K) (v : V) : List (K × V) → List (K × V)
  | [] => [(k, v)]
  | e :: rest =>
    if k < e.1 then (k, v) :: e :: rest
    else if k = e.1 then (k, v) :: rest
    else e :: insertList k v rest

theorem mem_insertList {k : K} {v : V} {x : K × V} :
    ∀ {l : List (K × V)}, x ∈ insertList k v l → x = (k, v) ∨ x ∈ l
  | [], h => by simpa [insertList] using h
  | e :: rest, h => by
    unfold insertList at h
    split_ifs at h with hlt heq
    · simpa using h
    · rcases List.mem_cons.mp h with h | h
      · exact .inl h
      · exact .inr (List.mem_cons_of_mem _ h)
    · rcases List.mem_cons.mp h with h | h
      · exact .inr (h ▸ List.mem_cons_self ..)
      · rcases mem_insertList h with h | h
        · exact .inl h
        · exact .inr (List.mem_cons_of_mem _ h)

theorem insertList_sorted (k : K) (v : V) :
    ∀ {l : List (K × V)}, l.Pairwise (fun a b => a.1 < b.1) →
      (insertList k v l).Pairwise (fun a b => a.1 < b.1)
  | [], _ => List.pairwise_singleton _ _
  | e :: rest, h => by
    rw [List.pairwise_cons] at h
    unfold insertList
    split_ifs with hlt heq
    · -- the new key goes first
      refine List.Pairwise.cons (fun x hx => ?_) (List.Pairwise.cons h.1 h.2)
      rcases List.mem_cons.mp hx with rfl | hx
      · exact hlt
      · exact lt_trans hlt (h.1 x hx)
    · -- it replaces the first entry
      exact List.Pairwise.cons (fun x hx => heq ▸ h.1 x hx) h.2
    · -- it goes further on
      have hgt : e.1 < k := lt_of_le_of_ne (not_lt.mp hlt) (Ne.symm heq)
      refine List.Pairwise.cons (fun x hx => ?_) (insertList_sorted k v h.2)
      rcases mem_insertList hx with rfl | hx
      · exact hgt
      · exact h.1 x hx

/-- Write `v` at `k`. -/
def Map.insert (m : Map K V) (k : K) (v : V) : Map K V :=
  ⟨insertList k v m.entries, insertList_sorted k v m.sorted⟩

/-- Remove the key `k`. -/
def Map.erase (m : Map K V) (k : K) : Map K V :=
  ⟨m.entries.filter (fun e => e.1 ≠ k), m.sorted.filter _⟩

/-- Remove the `n` smallest keys. -/
def Map.dropFirst (m : Map K V) (n : Nat) : Map K V :=
  ⟨m.entries.drop n, m.sorted.sublist (List.drop_sublist _ _)⟩

/-- The value at `k`. -/
def Map.get? (m : Map K V) (k : K) : Option V := m.entries.lookup k

/-- The entry with the greatest key below `k`. -/
def Map.lastBelow (m : Map K V) (k : K) : Option (K × V) :=
  (m.entries.filter (fun e => e.1 < k)).getLast?

/-! ## Keys and sizes -/

theorem Map.nodup_keys (m : Map K V) : m.keys.Nodup := by
  unfold Map.keys
  rw [List.nodup_iff_pairwise_ne, List.pairwise_map]
  exact m.sorted.imp fun h => ne_of_lt h

theorem length_insertList {k : K} {v : V} :
    ∀ {l : List (K × V)}, l.Pairwise (fun a b => a.1 < b.1) →
      (insertList k v l).length = if k ∈ l.map Prod.fst then l.length else l.length + 1
  | [], _ => by simp [insertList]
  | e :: rest, h => by
    rw [List.pairwise_cons] at h
    by_cases hlt : k < e.1
    · -- a key below the first one is not in the list
      have hmem : k ∉ (e :: rest).map Prod.fst := by
        simp only [List.map_cons, List.mem_cons, List.mem_map, not_or, not_exists, not_and]
        exact ⟨ne_of_lt hlt, fun x hx hxk => lt_irrefl _ (lt_trans hlt (hxk ▸ h.1 x hx))⟩
      rw [insertList, if_pos hlt, if_neg hmem]
      simp
    · by_cases heq : k = e.1
      · rw [insertList, if_neg hlt, if_pos heq, if_pos (by simp [heq])]
        simp
      · have hrest : k ∈ (e :: rest).map Prod.fst ↔ k ∈ rest.map Prod.fst := by simp [heq]
        rw [insertList, if_neg hlt, if_neg heq, List.length_cons, length_insertList h.2]
        simp only [hrest, List.length_cons]
        split_ifs <;> rfl

theorem length_insert (m : Map K V) (k : K) (v : V) :
    (m.insert k v).entries.length = if k ∈ m.keys then m.entries.length else m.entries.length + 1 :=
  length_insertList m.sorted

theorem length_filter_key_ne (k : K) :
    ∀ {l : List (K × V)}, (l.map Prod.fst).Nodup →
      (l.filter (fun e => e.1 ≠ k)).length = if k ∈ l.map Prod.fst then l.length - 1 else l.length
  | [], _ => by simp
  | e :: rest, h => by
    rw [List.map_cons, List.nodup_cons] at h
    by_cases hek : e.1 = k
    · -- the one entry with key `k`: the rest keeps all its entries
      have hrest : k ∉ rest.map Prod.fst := hek ▸ h.1
      have hkeep : rest.filter (fun e => e.1 ≠ k) = rest := by
        rw [List.filter_eq_self]
        intro x hx
        have : x.1 ≠ k := fun hx' => hrest (hx' ▸ List.mem_map_of_mem hx)
        simpa using this
      rw [List.filter_cons, if_neg (by simpa using hek), hkeep, if_pos (by simp [hek])]
      simp
    · rw [List.filter_cons, if_pos (by simpa using hek), List.length_cons,
        length_filter_key_ne k h.2]
      have hiff : k ∈ (e :: rest).map Prod.fst ↔ k ∈ rest.map Prod.fst := by
        simp [Ne.symm hek]
      simp only [hiff, List.length_cons]
      split_ifs with hk
      · have : rest.length ≠ 0 := fun h0 => by
          rw [List.length_eq_zero_iff] at h0
          simp [h0] at hk
        omega
      · rfl

theorem length_erase (m : Map K V) (k : K) :
    (m.erase k).entries.length = if k ∈ m.keys then m.entries.length - 1 else m.entries.length :=
  length_filter_key_ne k m.nodup_keys

/-! ## Order -/

theorem eq_of_key_eq : ∀ {l : List (K × V)}, l.Pairwise (fun a b => a.1 < b.1) →
    ∀ {a b : K × V}, a ∈ l → b ∈ l → a.1 = b.1 → a = b
  | [], _, _, _, ha, _, _ => absurd ha List.not_mem_nil
  | e :: rest, h, a, b, ha, hb, hab => by
    rw [List.pairwise_cons] at h
    rcases List.mem_cons.mp ha with ha | ha <;> rcases List.mem_cons.mp hb with hb | hb
    · rw [ha, hb]
    · exact absurd (h.1 b hb) (by rw [← ha, hab]; exact lt_irrefl _)
    · exact absurd (h.1 a ha) (by rw [← hb, ← hab]; exact lt_irrefl _)
    · exact eq_of_key_eq h.2 ha hb hab

theorem lastBelow_eq_some_iff (m : Map K V) (k : K) (e : K × V) :
    m.lastBelow k = some e ↔
      e ∈ m.entries ∧ e.1 < k ∧ ∀ e' ∈ m.entries, e'.1 < k → e'.1 ≤ e.1 := by
  unfold Map.lastBelow
  have hsorted := m.sorted.filter (fun e => decide (e.1 < k))
  constructor
  · intro h
    have hmem : e ∈ m.entries.filter (fun e => decide (e.1 < k)) := List.mem_of_getLast? h
    rw [List.mem_filter, decide_eq_true_eq] at hmem
    refine ⟨hmem.1, hmem.2, fun e' he' hlt => ?_⟩
    -- the last entry of a sorted list has the greatest key
    obtain ⟨pre, hpre⟩ := List.getLast?_eq_some_iff.mp h
    have hmem' : e' ∈ pre ++ [e] := by
      rw [← hpre, List.mem_filter, decide_eq_true_eq]
      exact ⟨he', hlt⟩
    rw [hpre, List.pairwise_append] at hsorted
    rcases List.mem_append.mp hmem' with h' | h'
    · exact le_of_lt (hsorted.2.2 e' h' e (List.mem_singleton_self _))
    · rw [List.mem_singleton.mp h']
  · rintro ⟨he, hlt, hmax⟩
    have hmem : e ∈ m.entries.filter (fun e => decide (e.1 < k)) := by
      rw [List.mem_filter, decide_eq_true_eq]
      exact ⟨he, hlt⟩
    obtain ⟨last, hlast⟩ := List.getLast?_isSome.mpr (List.ne_nil_of_mem hmem) |> Option.isSome_iff_exists.mp
    have hlastmem : last ∈ m.entries.filter (fun e => decide (e.1 < k)) := List.mem_of_getLast? hlast
    rw [List.mem_filter, decide_eq_true_eq] at hlastmem
    -- both are the entry of the greatest key below `k`
    obtain ⟨pre, hpre⟩ := List.getLast?_eq_some_iff.mp hlast
    have hle : e.1 ≤ last.1 := by
      rw [hpre, List.pairwise_append] at hsorted
      rw [hpre] at hmem
      rcases List.mem_append.mp hmem with h' | h'
      · exact le_of_lt (hsorted.2.2 e h' last (List.mem_singleton_self _))
      · rw [List.mem_singleton.mp h']
    have hkey : last.1 = e.1 := le_antisymm (hmax last hlastmem.1 hlastmem.2) hle
    have hsame : last = e := eq_of_key_eq m.sorted hlastmem.1 he hkey
    rw [hlast, hsame]

theorem le_of_getLast? (m : Map K V) {l e : K × V} (hl : m.entries.getLast? = some l)
    (he : e ∈ m.entries) : e.1 ≤ l.1 := by
  obtain ⟨pre, hpre⟩ := List.getLast?_eq_some_iff.mp hl
  have hsorted := m.sorted
  rw [hpre, List.pairwise_append] at hsorted
  rw [hpre] at he
  rcases List.mem_append.mp he with h | h
  · exact le_of_lt (hsorted.2.2 e h l (List.mem_singleton_self _))
  · rw [List.mem_singleton.mp h]

theorem lookup_of_mem : ∀ {l : List (K × V)}, l.Pairwise (fun a b => a.1 < b.1) →
    ∀ {e : K × V}, e ∈ l → l.lookup e.1 = some e.2
  | [], _, _, he => absurd he List.not_mem_nil
  | x :: rest, h, e, he => by
    rw [List.pairwise_cons] at h
    rcases List.mem_cons.mp he with rfl | he
    · simp [List.lookup]
    · have hne : (e.1 == x.1) = false := beq_eq_false_iff_ne.mpr (ne_of_gt (h.1 e he))
      simp only [List.lookup, hne]
      exact lookup_of_mem h.2 he

theorem get?_of_mem (m : Map K V) {e : K × V} (he : e ∈ m.entries) : m.get? e.1 = some e.2 :=
  lookup_of_mem m.sorted he

theorem lastBelow_eq_none_iff (m : Map K V) (k : K) :
    m.lastBelow k = none ↔ ∀ e ∈ m.entries, ¬ e.1 < k := by
  unfold Map.lastBelow
  rw [List.getLast?_eq_none_iff, List.filter_eq_nil_iff]
  simp

end SortedMap
