import Ostracon.Crypto.MerkleProof
import Ostracon.Lib.MerkleLevels
/-!
# `HashFromByteSlicesIterative` computes the RFC 6962 root

The model of `HashFromByteSlicesIterative` in `crypto/merkle/tree.go`.  The
Go function rewrites one slice in place: each pass over `items[:size]` reads
two digests at `rp`, `rp + 1` and writes their inner hash at `wp`, or copies
an odd last digest, and the next pass runs over the `wp` digests written.
`iterativeLevel` is one pass and `iterativeLoop` the `for` loop around it.

A pass computes `MerkleTree.pairs` of the first `size` digests into the front
of the slice (`iterativeLevel_spec`): the write position never passes the
read position, so every digest is read before it is overwritten.  The loop
is therefore `MerkleTree.levelRoot` (`iterativeLoop_eq_levelRoot`), and since
the split point halves along with the levels (`getSplitPoint_halving`), the
iterative root is `HashFromByteSlices` (`hashFromByteSlicesIterative_eq`).
-/

namespace Ostracon.Crypto.Merkle

open MerkleTree

/-! ## The split point follows the levels -/

theorem getSplitPoint_eq_pow {n j : Nat} (hlo : 2 ^ j < n) (hhi : n ≤ 2 ^ (j + 1)) :
    getSplitPoint n = 2 ^ j := by
  have hne : n ≠ 0 := by omega
  unfold getSplitPoint bitsLen
  simp only [if_neg hne, Nat.add_sub_cancel, Nat.one_shiftLeft, Nat.shiftRight_eq_div_pow, Nat.pow_one]
  rcases Nat.lt_or_ge n (2 ^ (j + 1)) with hlt | hge
  · -- `n` lies strictly between two powers: `bits.Len` gives the lower one
    have hlog : n.log2 = j := (Nat.log2_eq_iff hne).mpr ⟨by omega, hlt⟩
    rw [hlog, if_neg (by omega)]
  · -- `n` is a power itself and the split is its half
    have hn : n = 2 ^ (j + 1) := by omega
    have hlog : n.log2 = j + 1 := by rw [hn, Nat.log2_two_pow]
    rw [hlog, if_pos hn.symm, Nat.pow_succ, Nat.mul_div_cancel _ (by omega)]

theorem getSplitPoint_halving : splitter.Halving where
  two := getSplitPoint_eq_pow (n := 2) (j := 0) (by decide) (by decide)
  halve := by
    intro n hn
    -- `n` lies in `(2 ^ (i + 1), 2 ^ (i + 2)]`, and `⌈n / 2⌉` one power lower
    have hne : n - 1 ≠ 0 := by omega
    have hlo : 2 ^ (n - 1).log2 ≤ n - 1 := Nat.log2_self_le hne
    have hhi : n - 1 < 2 ^ ((n - 1).log2 + 1) := Nat.lt_log2_self
    have hj1 : 1 ≤ (n - 1).log2 := (Nat.le_log2 hne).mpr (by rw [Nat.pow_one]; omega)
    obtain ⟨i, hi⟩ : ∃ i, (n - 1).log2 = i + 1 := ⟨(n - 1).log2 - 1, by omega⟩
    rw [hi] at hlo hhi
    have hpow₁ : 2 ^ (i + 1) = 2 * 2 ^ i := by rw [Nat.pow_succ]; omega
    have hpow₂ : 2 ^ (i + 1 + 1) = 2 * 2 ^ (i + 1) := by rw [Nat.pow_succ]; omega
    simp only [splitter_split]
    rw [getSplitPoint_eq_pow (j := i + 1) (by omega) (by omega),
      getSplitPoint_eq_pow (j := i) (by omega) (by omega), hpow₁]

/-! ## The model -/

section Model

variable (tmhash : Bytes → Bytes)

/-- One pass of the `default` case: `rp` reads `items[:size]`, `wp` writes
the next level from the front.  An index is always below `size ≤ len(items)`
here, so `getD` never falls back. -/
def iterativeLevel (size : Nat) (items : List Bytes) (rp wp : Nat) : List Bytes × Nat :=
  if rp < size then
    if rp + 1 < size then
      iterativeLevel size (items.set wp (innerHash tmhash (items.getD rp []) (items.getD (rp + 1) [])))
        (rp + 2) (wp + 1)
    else
      iterativeLevel size (items.set wp (items.getD rp [])) (rp + 1) (wp + 1)
  else (items, wp)
termination_by size - rp

theorem iterativeLevel_snd (size : Nat) (items : List Bytes) (rp wp : Nat) (h : rp ≤ size) :
    (iterativeLevel tmhash size items rp wp).2 = wp + (size - rp + 1) / 2 := by
  induction items, rp, wp using iterativeLevel.induct tmhash size with
  | case1 items rp wp hrp hrp1 ih =>
    rw [iterativeLevel, if_pos hrp, if_pos hrp1, ih (by omega)]
    omega
  | case2 items rp wp hrp hrp1 ih =>
    rw [iterativeLevel, if_pos hrp, if_neg hrp1, ih (by omega)]
    omega
  | case3 items rp wp hrp =>
    rw [iterativeLevel, if_neg hrp]
    omega

/-- The `for` loop: `size` digests at the front of `items`. -/
def iterativeLoop (items : List Bytes) (size : Nat) : Bytes :=
  match size with
  | 0 => emptyHash tmhash
  | 1 => items.getD 0 []
  | size + 2 =>
    let level := iterativeLevel tmhash (size + 2) items 0 0
    iterativeLoop level.1 level.2
termination_by size
decreasing_by
  rw [iterativeLevel_snd tmhash _ _ _ _ (by omega)]
  omega

/-- `HashFromByteSlicesIterative`. -/
def hashFromByteSlicesIterative (input : List Bytes) : Bytes :=
  iterativeLoop tmhash (input.map (leafHash tmhash)) input.length

/-! ## A pass computes one level -/

theorem take_succ_set {l : List Bytes} {i : Nat} (h : i < l.length) (a : Bytes) :
    (l.set i a).take (i + 1) = l.take i ++ [a] := by
  rw [List.set_eq_take_append_cons_drop, if_pos h, List.take_append, List.length_take,
    Nat.min_eq_left (by omega), List.take_of_length_le (by simp only [List.length_take]; omega)]
  simp

theorem drop_eq_getD_cons {l : List Bytes} {i : Nat} (h : i < l.length) :
    l.drop i = l.getD i [] :: l.drop (i + 1) := by
  rw [List.drop_eq_getElem_cons h, List.getD_eq_getElem?_getD, List.getElem?_eq_getElem h,
    Option.getD_some]

theorem iterativeLevel_spec (size : Nat) :
    ∀ (k w : Nat) (items : List Bytes), size = 2 * w + k → size ≤ items.length →
      (iterativeLevel tmhash size items (2 * w) w).2 = (size + 1) / 2 ∧
      (iterativeLevel tmhash size items (2 * w) w).1.length = items.length ∧
      (iterativeLevel tmhash size items (2 * w) w).1.take ((size + 1) / 2) =
        items.take w ++ pairs (innerHash tmhash) ((items.drop (2 * w)).take k)
  | 0, w, items, hsize, _ => by
    rw [iterativeLevel, if_neg (by omega)]
    refine ⟨by omega, rfl, ?_⟩
    rw [show (size + 1) / 2 = w by omega]
    simp
  | 1, w, items, hsize, hlen => by
    -- the odd last digest is copied and the pass ends
    rw [iterativeLevel, if_pos (by omega), if_neg (by omega), iterativeLevel, if_neg (by omega)]
    refine ⟨by omega, List.length_set, ?_⟩
    rw [show (size + 1) / 2 = w + 1 by omega, take_succ_set (by omega), drop_eq_getD_cons (by omega)]
    simp
  | k + 2, w, items, hsize, hlen => by
    -- two digests are combined at `w`, which lies below what is still to read
    rw [iterativeLevel, if_pos (by omega), if_pos (by omega), show 2 * w + 2 = 2 * (w + 1) by omega]
    set items' := items.set w (innerHash tmhash (items.getD (2 * w) []) (items.getD (2 * w + 1) []))
      with hitems'
    have hlen' : items'.length = items.length := List.length_set
    obtain ⟨hsnd, hlength, htake⟩ := iterativeLevel_spec size k (w + 1) items' (by omega) (by omega)
    refine ⟨hsnd, hlength.trans hlen', ?_⟩
    have hdrop : items'.drop (2 * (w + 1)) = items.drop (2 * w + 2) :=
      List.drop_set_of_lt (by omega)
    have hwritten : items'.take (w + 1) =
        items.take w ++ [innerHash tmhash (items.getD (2 * w) []) (items.getD (2 * w + 1) [])] :=
      take_succ_set (by omega) _
    have hread : (items.drop (2 * w)).take (k + 2) =
        items.getD (2 * w) [] :: items.getD (2 * w + 1) [] :: (items.drop (2 * w + 2)).take k := by
      rw [drop_eq_getD_cons (by omega), drop_eq_getD_cons (by omega)]
      rfl
    rw [htake, hdrop, hwritten, hread, pairs_cons_cons, List.append_assoc, List.singleton_append]

/-! ## The loop is the bottom-up root -/

theorem iterativeLoop_eq_levelRoot :
    ∀ (size : Nat) (items : List Bytes), size ≤ items.length →
      iterativeLoop tmhash items size = levelRoot (innerHash tmhash) (emptyHash tmhash) (items.take size) := by
  intro size
  induction size using Nat.strongRecOn with
  | ind size ih =>
  intro items hlen
  match size, hlen, ih with
  | 0, _, _ => simp [iterativeLoop, levelRoot]
  | 1, hlen, _ =>
    rw [iterativeLoop, List.take_add_one, List.take_zero, List.nil_append, List.getElem?_eq_getElem (by omega),
      Option.toList_some, levelRoot, List.getD_eq_getElem?_getD, List.getElem?_eq_getElem (by omega),
      Option.getD_some]
  | size + 2, hlen, ih =>
    obtain ⟨hsnd, hlength, htake⟩ := iterativeLevel_spec tmhash (size + 2) (size + 2) 0 items (by omega) hlen
    simp only [Nat.mul_zero, List.take_zero, List.drop_zero, List.nil_append] at hsnd hlength htake
    rw [iterativeLoop, ih _ (by omega) _ (by omega), hsnd, htake,
      ← levelRoot_of_two_le _ _ (by simp; omega)]

theorem merkleHasher_onDigests :
    (merkleHasher tmhash).inner = innerHash tmhash ∧ (merkleHasher tmhash).empty = emptyHash tmhash ∧
      (merkleHasher tmhash).leaf = leafHash tmhash :=
  ⟨rfl, rfl, rfl⟩

/-- The iterative root is the recursive one, for every hash and every list. -/
theorem hashFromByteSlicesIterative_eq (items : List Bytes) :
    hashFromByteSlicesIterative tmhash items = hashFromByteSlices tmhash items := by
  obtain ⟨hinner, hempty, hleaf⟩ := merkleHasher_onDigests tmhash
  rw [hashFromByteSlicesIterative, iterativeLoop_eq_levelRoot tmhash _ _ (by simp),
    List.take_of_length_le (by simp), hashFromByteSlices_eq_root, ← hinner, ← hempty, ← hleaf,
    levelRoot_eq_root _ _ getSplitPoint_halving]

end Model

end Ostracon.Crypto.Merkle
