import Mathlib
/-!
# Go maps

A Go map holds one value for each of its keys.  It is kept here as the list
of its entries, with no key twice as a field, so that `len(m)` is the length
of the list.  `v, ok := m[k]` is `get`, with `none` where Go gives the zero
value and `ok = false`; `m[k] = v` is `set` and `delete(m, k)` is `erase`.

Go ranges over a map in an order of its own choosing.  A loop whose body does
not depend on that order ranges over `values`; one whose body does takes the
order as an argument where it is modelled.

`get_set` and `get_erase` say what a read sees after a write, and
`length_set_of_get_eq_none` and `length_erase_of_get_eq_some` how `len`
moves.
-/

/-- A Go map, as its entries with distinct keys. -/
structure GoMap (K V : Type) where
  entries : List (K × V)
  nodup : (entries.map Prod.fst).Nodup
  deriving DecidableEq

namespace GoMap

variable {K V : Type} [DecidableEq K]

/-- `make(map[K]V)`. -/
def empty : GoMap K V := ⟨[], List.nodup_nil⟩

/-- `v, ok := m[k]`. -/
def get (m : GoMap K V) (k : K) : Option V := m.entries.lookup k

/-- `len(m)`. -/
def length (m : GoMap K V) : Nat := m.entries.length

/-- The values, in the order of the entries. -/
def values (m : GoMap K V) : List V := m.entries.map Prod.snd

theorem nodup_filter (m : GoMap K V) (k : K) :
    ((m.entries.filter fun e => e.1 ≠ k).map Prod.fst).Nodup :=
  m.nodup.sublist (List.filter_sublist.map _)

/-- `delete(m, k)`. -/
def erase (m : GoMap K V) (k : K) : GoMap K V :=
  ⟨m.entries.filter fun e => e.1 ≠ k, m.nodup_filter k⟩

/-- `m[k] = v`. -/
def set (m : GoMap K V) (k : K) (v : V) : GoMap K V :=
  ⟨(k, v) :: m.entries.filter fun e => e.1 ≠ k, by
    refine List.nodup_cons.mpr ⟨fun hk => ?_, m.nodup_filter k⟩
    obtain ⟨e, he, hek⟩ := List.mem_map.mp hk
    exact (by simpa using (List.mem_filter.mp he).2 : e.1 ≠ k) hek⟩

/-! ## Lookups in entry lists -/

theorem lookup_cons_eq (a : K) (b : V) (l : List (K × V)) (k : K) :
    ((a, b) :: l).lookup k = if k = a then some b else l.lookup k := by
  rw [List.lookup_cons]
  by_cases h : k = a
  · simp [h]
  · rw [beq_eq_false_iff_ne.mpr h, if_neg h]

theorem lookup_filter_ne (l : List (K × V)) (k k' : K) :
    (l.filter fun e => e.1 ≠ k).lookup k' = if k' = k then none else l.lookup k' := by
  induction l with
  | nil => simp
  | cons e l ih =>
    obtain ⟨a, b⟩ := e
    by_cases ha : a = k
    · -- the head is dropped, and it is the key's own entry
      subst ha
      rw [List.filter_cons_of_neg (by simp), ih, lookup_cons_eq]
      by_cases hk : k' = a <;> simp [hk]
    · rw [List.filter_cons_of_pos (by simpa using ha), lookup_cons_eq, lookup_cons_eq, ih]
      by_cases hk : k' = a
      · subst hk
        simp [ha]
      · simp [hk]

theorem lookup_eq_some_of_mem {k : K} {v : V} :
    ∀ {l : List (K × V)}, (l.map Prod.fst).Nodup → (k, v) ∈ l → l.lookup k = some v
  | [], _, h => absurd h List.not_mem_nil
  | (a, b) :: l, hnd, h => by
    rw [List.map_cons, List.nodup_cons] at hnd
    rw [lookup_cons_eq]
    rcases List.mem_cons.mp h with heq | hmem
    · cases heq
      simp
    · -- the key is not the head's, which is not repeated
      have hne : k ≠ a := fun hka => hnd.1 (List.mem_map.mpr ⟨(k, v), hmem, hka⟩)
      rw [if_neg hne, lookup_eq_some_of_mem hnd.2 hmem]

/-! ## Reads after writes -/

@[simp] theorem get_empty (k : K) : (empty : GoMap K V).get k = none := rfl

theorem get_eq_some_iff {m : GoMap K V} {k : K} {v : V} : m.get k = some v ↔ (k, v) ∈ m.entries := by
  constructor
  · intro h
    obtain ⟨l₁, l₂, hl, -⟩ := List.lookup_eq_some_iff.mp h
    rw [hl]
    simp
  · exact lookup_eq_some_of_mem m.nodup

theorem get_erase (m : GoMap K V) (k k' : K) :
    (m.erase k).get k' = if k' = k then none else m.get k' :=
  lookup_filter_ne m.entries k k'

theorem get_set (m : GoMap K V) (k : K) (v : V) (k' : K) :
    (m.set k v).get k' = if k' = k then some v else m.get k' := by
  unfold get set
  rw [lookup_cons_eq]
  by_cases hk : k' = k
  · rw [if_pos hk, if_pos hk]
  · rw [if_neg hk, if_neg hk, lookup_filter_ne, if_neg hk]

@[simp] theorem get_set_self (m : GoMap K V) (k : K) (v : V) : (m.set k v).get k = some v := by
  simp [get_set]

theorem mem_values {m : GoMap K V} {v : V} : v ∈ m.values ↔ ∃ k, m.get k = some v := by
  simp only [values, List.mem_map, get_eq_some_iff]
  exact ⟨fun ⟨⟨k, v'⟩, he, hv⟩ => ⟨k, hv ▸ he⟩, fun ⟨k, he⟩ => ⟨(k, v), he, rfl⟩⟩

theorem mem_values_erase {m : GoMap K V} {k : K} {v : V} (h : v ∈ (m.erase k).values) :
    v ∈ m.values := by
  obtain ⟨k', hk'⟩ := mem_values.mp h
  rw [get_erase] at hk'
  split_ifs at hk'
  exact mem_values.mpr ⟨k', hk'⟩

theorem mem_values_set {m : GoMap K V} {k : K} {v x : V} (h : x ∈ (m.set k v).values) :
    x = v ∨ x ∈ m.values := by
  obtain ⟨k', hk'⟩ := mem_values.mp h
  rw [get_set] at hk'
  split_ifs at hk'
  · exact .inl (Option.some.inj hk').symm
  · exact .inr (mem_values.mpr ⟨k', hk'⟩)

/-! ## Lengths -/

theorem filter_ne_eq_self {m : GoMap K V} {k : K} (h : m.get k = none) :
    (m.entries.filter fun e => e.1 ≠ k) = m.entries := by
  refine List.filter_eq_self.mpr fun e he => ?_
  have hne : ∀ p ∈ m.entries, (k != p.1) = true := List.lookup_eq_none_iff.mp h
  exact decide_eq_true fun hek => bne_iff_ne.mp (hne e he) hek.symm

theorem length_set_of_get_eq_none {m : GoMap K V} {k : K} (v : V) (h : m.get k = none) :
    (m.set k v).length = m.length + 1 := by
  simp only [length, set, List.length_cons, filter_ne_eq_self h]

theorem length_erase_of_get_eq_some {m : GoMap K V} {k : K} {v : V} (h : m.get k = some v) :
    (m.erase k).length + 1 = m.length := by
  obtain ⟨l₁, l₂, hl, -⟩ := List.lookup_eq_some_iff.mp h
  have hnd := m.nodup
  rw [hl, List.map_append, List.map_cons, List.nodup_append, List.nodup_cons] at hnd
  -- no entry before or after the one found has the key
  have h₁ : (l₁.filter fun e => e.1 ≠ k) = l₁ :=
    List.filter_eq_self.mpr fun e he =>
      decide_eq_true (hnd.2.2 e.1 (List.mem_map.mpr ⟨e, he, rfl⟩) k List.mem_cons_self)
  have h₂ : (l₂.filter fun e => e.1 ≠ k) = l₂ :=
    List.filter_eq_self.mpr fun e he =>
      decide_eq_true fun hek => hnd.2.1.1 (List.mem_map.mpr ⟨e, he, hek⟩)
  simp only [length, erase, hl, List.filter_append, List.filter_cons, h₁, h₂, ne_eq,
    not_true_eq_false, decide_false, Bool.false_eq_true, ↓reduceIte, List.length_append,
    List.length_cons]
  omega

/-! ## Deleting while ranging -/

/-- `for k := range m { if !keep(k) { delete(m, k) } }`: Go may delete the
key it is at while it ranges, and the loop visits every key once. -/
def filterKeys (m : GoMap K V) (keep : K → Bool) : GoMap K V :=
  ⟨m.entries.filter fun e => keep e.1, m.nodup.sublist (List.filter_sublist.map _)⟩

theorem get_filterKeys (m : GoMap K V) (keep : K → Bool) (k : K) :
    (m.filterKeys keep).get k = if keep k then m.get k else none := by
  unfold get filterKeys
  dsimp only
  induction m.entries with
  | nil => simp
  | cons e l ih =>
    obtain ⟨a, b⟩ := e
    by_cases ha : keep a
    · rw [List.filter_cons_of_pos (p := fun e : K × V => keep e.1) ha, lookup_cons_eq, lookup_cons_eq, ih]
      by_cases hk : k = a
      · subst hk
        simp [ha]
      · simp [hk]
    · rw [List.filter_cons_of_neg (p := fun e : K × V => keep e.1) ha, ih, lookup_cons_eq]
      by_cases hk : k = a
      · subst hk
        simp [ha]
      · simp [hk]

/-- `for k, v := range m { if !keep(k, v) { delete(m, k) } }`, the same loop
with a test on the value too. -/
def filter (m : GoMap K V) (keep : K → V → Bool) : GoMap K V :=
  ⟨m.entries.filter fun e => keep e.1 e.2, m.nodup.sublist (List.filter_sublist.map _)⟩

theorem lookup_filter (keep : K → V → Bool) (k : K) :
    ∀ {l : List (K × V)}, (l.map Prod.fst).Nodup →
      (l.filter fun e => keep e.1 e.2).lookup k = (l.lookup k).filter (keep k)
  | [], _ => rfl
  | (a, b) :: l, hnd => by
    rw [List.map_cons, List.nodup_cons] at hnd
    have ih := lookup_filter keep k hnd.2
    by_cases hk : k = a
    · subst hk
      -- the head is the key's only entry, so the rest has none
      have hl : l.lookup k = none :=
        List.lookup_eq_none_iff.mpr fun p hp =>
          bne_iff_ne.mpr fun hkp => hnd.1 (by
            show k ∈ l.map Prod.fst
            rw [hkp]
            exact List.mem_map_of_mem hp)
      by_cases hkeep : keep k b
      · rw [List.filter_cons_of_pos (by simpa using hkeep), lookup_cons_eq, lookup_cons_eq,
          if_pos rfl, if_pos rfl, Option.filter_some_pos hkeep]
      · rw [List.filter_cons_of_neg (by simpa using hkeep), ih, hl, lookup_cons_eq, if_pos rfl,
          Option.filter_some, if_neg hkeep, Option.filter_none]
    · by_cases hkeep : keep a b
      · rw [List.filter_cons_of_pos (by simpa using hkeep), lookup_cons_eq, lookup_cons_eq,
          if_neg hk, if_neg hk, ih]
      · rw [List.filter_cons_of_neg (by simpa using hkeep), ih, lookup_cons_eq, if_neg hk]

theorem get_filter (m : GoMap K V) (keep : K → V → Bool) (k : K) :
    (m.filter keep).get k = (m.get k).filter (keep k) :=
  lookup_filter keep k m.nodup

end GoMap
