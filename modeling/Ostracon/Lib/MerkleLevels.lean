import Ostracon.Lib.MerkleTree
/-!
# Building a split-point tree level by level

The bottom-up way to compute a Merkle root: combine neighbouring digests,
carry an odd last digest up unchanged, and repeat until one digest is left
(`levelRoot`).  For a split that halves along with the levels (`Halving`:
two leaves split one and one, and `n ≥ 3` leaves split at twice the split of
the `⌈n / 2⌉` digests one level up) this is the top-down root of
`MerkleTree.root` (`levelRoot_eq_root`).  The largest power of two below `n`
is such a split.

The step is `root_pairs`: one level of pairing does not change the root,
because pairing commutes with the even cut the split makes (`take_pairs`,
`drop_pairs`).
-/

namespace MerkleTree

variable {α D : Type}

/-! ## One level -/

section Pairs

variable (inner : D → D → D)

/-- One level up: neighbours are combined, an odd last digest is carried. -/
def pairs : List D → List D
  | [] => []
  | [d] => [d]
  | a :: b :: rest => inner a b :: pairs rest

@[simp] theorem pairs_nil : pairs inner [] = [] := rfl

@[simp] theorem pairs_singleton (d : D) : pairs inner [d] = [d] := rfl

@[simp] theorem pairs_cons_cons (a b : D) (rest : List D) :
    pairs inner (a :: b :: rest) = inner a b :: pairs inner rest := rfl

theorem length_pairs : ∀ ds : List D, (pairs inner ds).length = (ds.length + 1) / 2
  | [] => by simp
  | [_] => by simp
  | _ :: _ :: rest => by
    simp only [pairs_cons_cons, List.length_cons, length_pairs rest]
    omega

theorem take_pairs : ∀ (k : Nat) (ds : List D), (pairs inner ds).take k = pairs inner (ds.take (2 * k))
  | 0, ds => by simp
  | k + 1, [] => by simp
  | k + 1, [d] => by
    rw [show 2 * (k + 1) = (2 * k + 1) + 1 by omega]
    simp
  | k + 1, a :: b :: rest => by
    rw [show 2 * (k + 1) = 2 * k + 1 + 1 by omega]
    simp only [pairs_cons_cons, List.take_succ_cons, take_pairs k rest]

theorem drop_pairs : ∀ (k : Nat) (ds : List D), 2 * k ≤ ds.length →
    (pairs inner ds).drop k = pairs inner (ds.drop (2 * k))
  | 0, ds, _ => by simp
  | k + 1, [], h => by simp at h
  | k + 1, [_], h => by simp at h; omega
  | k + 1, a :: b :: rest, h => by
    have hrest : 2 * k ≤ rest.length := by simp only [List.length_cons] at h; omega
    rw [show 2 * (k + 1) = 2 * k + 1 + 1 by omega]
    simp only [pairs_cons_cons, List.drop_succ_cons, drop_pairs k rest hrest]

end Pairs

/-! ## The bottom-up root -/

/-- Pair level after level until at most one digest is left. -/
def levelRoot (inner : D → D → D) (empty : D) : List D → D
  | [] => empty
  | [d] => d
  | a :: b :: rest => levelRoot inner empty (pairs inner (a :: b :: rest))
termination_by ds => ds.length
decreasing_by
  rw [length_pairs]
  simp only [List.length_cons]
  omega

theorem levelRoot_of_two_le (inner : D → D → D) (empty : D) {ds : List D} (h : 2 ≤ ds.length) :
    levelRoot inner empty ds = levelRoot inner empty (pairs inner ds) := by
  match ds, h with
  | a :: b :: rest, _ => rw [levelRoot]

/-- The tree over digests that are their own leaves. -/
def Hasher.onDigests (H : Hasher α D) : Hasher D D := ⟨id, H.inner, H.empty⟩

/-- A split that follows the levels of the bottom-up construction. -/
structure Splitter.Halving (S : Splitter) : Prop where
  two : S.split 2 = 1
  halve : ∀ {n : Nat}, 3 ≤ n → S.split n = 2 * S.split ((n + 1) / 2)

variable (H : Hasher α D) (S : Splitter)

theorem root_map_leaf (xs : List α) : root H.onDigests S (xs.map H.leaf) = root H S xs := by
  induction xs using root.induct S with
  | case1 => simp [Hasher.onDigests]
  | case2 x => simp [Hasher.onDigests]
  | case3 x y zs ihl ihr =>
    have hlen : 2 ≤ ((x :: y :: zs).map H.leaf).length := by simp
    rw [root_of_two_le _ _ hlen, root_of_two_le H S (by simp), List.length_map, ← List.map_take,
      ← List.map_drop, ihl, ihr]
    rfl

theorem root_pairs (hS : S.Halving) :
    ∀ (n : Nat) (ds : List D), ds.length = n → 2 ≤ n →
      root H.onDigests S (pairs H.inner ds) = root H.onDigests S ds := by
  intro n
  induction n using Nat.strongRecOn with
  | ind n ih =>
  intro ds hlen hn
  rcases Nat.lt_or_ge n 3 with hsmall | hbig
  · -- two digests pair into the one inner node of their tree
    obtain ⟨a, b, rfl⟩ : ∃ a b, ds = [a, b] := by
      match ds, hlen with
      | [a, b], _ => exact ⟨a, b, rfl⟩
      | [], h | [_], h | _ :: _ :: _ :: _, h => simp at h; omega
    rw [root_of_two_le H.onDigests S (show 2 ≤ [a, b].length by simp)]
    simp [hS.two, Hasher.onDigests]
  · -- the cut at `2 * k` below is the cut at `k` one level up
    set k := S.split ((n + 1) / 2) with hk
    have hm : 2 ≤ (n + 1) / 2 := by omega
    have hkpos : 0 < k := S.pos hm
    have hklt : k < (n + 1) / 2 := S.lt hm
    have hsplit : S.split n = 2 * k := hS.halve hbig
    have hlp : (pairs H.inner ds).length = (n + 1) / 2 := by rw [length_pairs, hlen]
    rw [root_of_two_le _ _ (by omega : 2 ≤ (pairs H.inner ds).length),
      root_of_two_le _ _ (by omega : 2 ≤ ds.length), hlp, hlen, ← hk, hsplit, take_pairs,
      drop_pairs _ _ _ (by omega)]
    have hleft : root H.onDigests S (pairs H.inner (ds.take (2 * k))) = root H.onDigests S (ds.take (2 * k)) :=
      ih (2 * k) (by omega) _ (by simp; omega) (by omega)
    have hright : root H.onDigests S (pairs H.inner (ds.drop (2 * k))) = root H.onDigests S (ds.drop (2 * k)) := by
      have hdrop : (ds.drop (2 * k)).length = n - 2 * k := by simp [hlen]
      rcases Nat.lt_or_ge (n - 2 * k) 2 with hone | htwo
      · -- one digest left on the right: it is carried up
        obtain ⟨d, hd⟩ : ∃ d, ds.drop (2 * k) = [d] :=
          List.length_eq_one_iff.mp (by omega)
        rw [hd, pairs_singleton]
      · exact ih (n - 2 * k) (by omega) _ hdrop htwo
    rw [hleft, hright]

theorem levelRoot_eq_root_onDigests (hS : S.Halving) :
    ∀ (n : Nat) (ds : List D), ds.length = n → levelRoot H.inner H.empty ds = root H.onDigests S ds := by
  intro n
  induction n using Nat.strongRecOn with
  | ind n ih =>
  intro ds hlen
  match ds, hlen with
  | [], _ => simp [levelRoot, Hasher.onDigests]
  | [d], _ => simp [levelRoot, Hasher.onDigests]
  | a :: b :: rest, hlen =>
    have hlen₂ : 2 ≤ (a :: b :: rest).length := by simp
    have hlp : (pairs H.inner (a :: b :: rest)).length < n := by
      rw [length_pairs, ← hlen]
      simp only [List.length_cons]
      omega
    rw [levelRoot_of_two_le _ _ hlen₂, ih _ hlp _ rfl,
      root_pairs H S hS _ _ rfl (by omega)]

theorem levelRoot_eq_root (hS : S.Halving) (xs : List α) :
    levelRoot H.inner H.empty (xs.map H.leaf) = root H S xs := by
  rw [levelRoot_eq_root_onDigests H S hS _ _ rfl, root_map_leaf]

end MerkleTree
