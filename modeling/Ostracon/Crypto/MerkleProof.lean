import Ostracon.Crypto.Merkle
import Mathlib.Data.List.Induction
/-!
# Merkle proofs are complete and binding

The model of `crypto/merkle` refines the general split-point tree:

* `hashFromByteSlices_eq_root` — `HashFromByteSlices` is `MerkleTree.root`;
* `computeHashFromAunts_eq_fromPath` — the aunt checker is
  `MerkleTree.fromPath` on the reversed aunts;
* `trailsFromByteSlices_getElem` — the trail of leaf `i` starts at its leaf
  hash and `FlattenAunts` of it is the reversed audit path.

From these, `proofsFromByteSlices_verify` says what `ProofsFromByteSlices`
produces and exactly which proofs `Proof.Verify` accepts against the root of
a tree of the right size: the honest proof of that index and nothing else.
Its `LeafHash` field counts: `verify_ignoring_leafHash_counterexample` shows
that agreeing with the honest proof on the leaf and the aunts is not enough.

The callers that build their own proofs use `verify_honest`: the honest
proof passes, for every hash.
-/

namespace Ostracon.Crypto.Merkle

open MerkleTree

variable (tmhash : Bytes → Bytes)

/-! ## The root and the aunt checker -/

theorem hashFromByteSlices_eq_root (items : List Bytes) :
    hashFromByteSlices tmhash items = root (merkleHasher tmhash) splitter items := by
  induction items using hashFromByteSlices.induct with
  | case1 => rw [hashFromByteSlices, root_nil]; rfl
  | case2 x => rw [hashFromByteSlices, root_singleton]; rfl
  | case3 x y zs ihl ihr =>
      rw [hashFromByteSlices, root_of_two_le _ _ (by simp), ihl, ihr]
      rfl

theorem computeHashFromAunts_of_le {i n : Nat} (h : n ≤ i) (lh : Bytes) (aunts : List Bytes) :
    computeHashFromAunts tmhash i n lh aunts = none := by
  rw [computeHashFromAunts.eq_def, if_pos (by omega)]

theorem computeHashFromAunts_one (lh : Bytes) (aunts : List Bytes) :
    computeHashFromAunts tmhash 0 1 lh aunts = if aunts = [] then some lh else none := by
  rw [computeHashFromAunts.eq_def, if_neg (by omega), if_pos rfl]
  cases aunts <;> simp

theorem computeHashFromAunts_nil {i n : Nat} (hn : 2 ≤ n) (hi : i < n) (lh : Bytes) :
    computeHashFromAunts tmhash i n lh [] = none := by
  rw [computeHashFromAunts.eq_def, if_neg (by omega), if_neg (by omega)]
  rfl

theorem computeHashFromAunts_concat {i n : Nat} (hn : 2 ≤ n) (hi : i < n) (lh a : Bytes)
    (l : List Bytes) :
    computeHashFromAunts tmhash i n lh (l ++ [a]) =
      if i < getSplitPoint n then
        (computeHashFromAunts tmhash i (getSplitPoint n) lh l).map (innerHash tmhash · a)
      else
        (computeHashFromAunts tmhash (i - getSplitPoint n : Nat) (n - getSplitPoint n : Nat) lh
          l).map (innerHash tmhash a ·) := by
  have hk := (getSplitPoint_bounds hn).2
  rw [computeHashFromAunts.eq_def, if_neg (by omega), if_neg (by omega)]
  split
  · rename_i h
    simp at h
  · rename_i last h
    simp only [List.getLast?_concat, Option.some.injEq] at h
    subst h
    simp only [List.dropLast_concat, Int.toNat_natCast]
    by_cases hik : i < getSplitPoint n
    · rw [if_pos (by omega), if_pos hik]
      cases computeHashFromAunts tmhash i (getSplitPoint n) lh l <;> rfl
    · have h1 : ((i : Int) - (getSplitPoint n : Int)) = ((i - getSplitPoint n : Nat) : Int) := by
        omega
      have h2 : ((n : Int) - (getSplitPoint n : Int)) = ((n - getSplitPoint n : Nat) : Int) := by
        omega
      rw [if_neg (by omega), if_neg hik, h1, h2]
      cases computeHashFromAunts tmhash (i - getSplitPoint n : Nat) (n - getSplitPoint n : Nat) lh l
        <;> rfl

theorem computeHashFromAunts_eq_fromPath (lh : Bytes) (aunts : List Bytes) :
    ∀ i n : Nat, computeHashFromAunts tmhash i n lh aunts =
      fromPath (merkleHasher tmhash) splitter lh i n aunts.reverse := by
  -- the checker eats aunts from the end, `fromPath` from the front
  induction aunts using List.reverseRecOn with
  | nil =>
      intro i n
      by_cases hin : n ≤ i
      · rw [computeHashFromAunts_of_le tmhash hin, fromPath_of_le _ _ hin]
      · by_cases hn : 2 ≤ n
        · rw [computeHashFromAunts_nil tmhash hn (by omega), List.reverse_nil, fromPath_nil_of_two_le _ _ hn]
        · obtain ⟨rfl, rfl⟩ : i = 0 ∧ n = 1 := by omega
          rw [show ((0 : Nat) : Int) = 0 from rfl, show ((1 : Nat) : Int) = 1 from rfl,
            computeHashFromAunts_one, List.reverse_nil, fromPath_one]
  | append_singleton l a ih =>
      intro i n
      by_cases hin : n ≤ i
      · rw [computeHashFromAunts_of_le tmhash hin, fromPath_of_le _ _ hin]
      · by_cases hn : 2 ≤ n
        · rw [computeHashFromAunts_concat tmhash hn (by omega), List.reverse_concat]
          by_cases hik : i < getSplitPoint n
          · rw [if_pos hik, fromPath_cons_left _ _ hn hik, ih]
            rfl
          · rw [if_neg hik, fromPath_cons_right _ _ hn (by omega) hik, ih]
            rfl
        · obtain ⟨rfl, rfl⟩ : i = 0 ∧ n = 1 := by omega
          rw [show ((0 : Nat) : Int) = 0 from rfl, show ((1 : Nat) : Int) = 1 from rfl,
            computeHashFromAunts_one, List.reverse_concat, fromPath_one]
          simp

/-! ## Trails -/

theorem flattenAunts_append (a b : List ProofNode) :
    flattenAunts (a ++ b) = flattenAunts a ++ flattenAunts b := by
  induction a with
  | nil => rfl
  | cons spn rest ih => simp only [List.cons_append, flattenAunts, ih, List.append_assoc]

theorem flattenAunts_reparent {chain : List ProofNode} {top : ProofNode}
    (htop : chain.getLast? = some top) (hl : top.left = none) (hr : top.right = none)
    (node parent : ProofNode) :
    flattenAunts (reparent node parent chain) = flattenAunts chain ++ flattenAunts [node, parent] := by
  obtain ⟨init, rfl⟩ := List.getLast?_eq_some_iff.mp htop
  simp [reparent, flattenAunts_append, flattenAunts, hl, hr]

theorem trailHash_reparent {chain : List ProofNode} {top : ProofNode}
    (htop : chain.getLast? = some top) {node : ProofNode} (hnode : node.hash = top.hash)
    (parent : ProofNode) :
    trailHash (reparent node parent chain) = trailHash chain := by
  obtain ⟨init, rfl⟩ := List.getLast?_eq_some_iff.mp htop
  cases init with
  | nil => simp [reparent, trailHash, hnode]
  | cons spn rest => rw [reparent, List.dropLast_concat]; rfl

theorem getLast?_reparent (node parent : ProofNode) (chain : List ProofNode) :
    (reparent node parent chain).getLast? = some parent := by
  simp [reparent]

theorem trailsFromByteSlices_shape (items : List Bytes) :
    (trailsFromByteSlices tmhash items).1.length = items.length ∧
      (trailsFromByteSlices tmhash items).2 = ⟨hashFromByteSlices tmhash items, none, none⟩ ∧
      ∀ chain ∈ (trailsFromByteSlices tmhash items).1,
        chain.getLast? = some (trailsFromByteSlices tmhash items).2 := by
  induction items using hashFromByteSlices.induct with
  | case1 => simp [trailsFromByteSlices, hashFromByteSlices]
  | case2 x => simp [trailsFromByteSlices, hashFromByteSlices]
  | case3 x y zs ihl ihr =>
      obtain ⟨hlenl, hrootl, -⟩ := ihl
      obtain ⟨hlenr, hrootr, -⟩ := ihr
      rw [trailsFromByteSlices, hashFromByteSlices]
      refine ⟨?_, ?_, ?_⟩
      · simp only [List.length_append, List.length_map, hlenl, hlenr, List.length_take,
          List.length_drop]
        omega
      · rw [hrootl, hrootr]
      · intro chain hchain
        simp only [List.mem_append, List.mem_map] at hchain
        rcases hchain with ⟨c, -, rfl⟩ | ⟨c, -, rfl⟩ <;> exact getLast?_reparent _ _ _

theorem trailsFromByteSlices_getElem (items : List Bytes) :
    ∀ i (hi : i < items.length), ∃ chain,
      (trailsFromByteSlices tmhash items).1[i]? = some chain ∧
        trailHash chain = leafHash tmhash items[i] ∧
        flattenAunts chain = (auditPath (merkleHasher tmhash) splitter items i).reverse := by
  induction items using hashFromByteSlices.induct with
  | case1 => intro i hi; simp at hi
  | case2 x =>
      intro i hi
      obtain rfl : i = 0 := by simpa using hi
      refine ⟨[⟨leafHash tmhash x, none, none⟩], by simp [trailsFromByteSlices], rfl, ?_⟩
      rw [auditPath_of_lt_two _ _ (by simp)]
      rfl
  | case3 x y zs ihl ihr =>
      intro i hi
      have h2 : 2 ≤ (x :: y :: zs).length := by simp
      have hk := getSplitPoint_bounds h2
      obtain ⟨hlenl, hrootl, hlastl⟩ := trailsFromByteSlices_shape tmhash
        ((x :: y :: zs).take (getSplitPoint (x :: y :: zs).length))
      obtain ⟨hlenr, hrootr, hlastr⟩ := trailsFromByteSlices_shape tmhash
        ((x :: y :: zs).drop (getSplitPoint (x :: y :: zs).length))
      have htake : ((x :: y :: zs).take (getSplitPoint (x :: y :: zs).length)).length =
          getSplitPoint (x :: y :: zs).length := by
        rw [List.length_take]
        exact Nat.min_eq_left (Nat.le_of_lt hk.2)
      have hlen' : (trailsFromByteSlices tmhash
          ((x :: y :: zs).take (getSplitPoint (x :: y :: zs).length))).1.length =
          getSplitPoint (x :: y :: zs).length := by
        rw [hlenl, htake]
      rw [trailsFromByteSlices, auditPath, dif_pos h2, splitter_split]
      by_cases hik : i < getSplitPoint (x :: y :: zs).length
      · -- a leaf of the left subtree: its chain gets the right subtree's root as aunt
        obtain ⟨c, hc, hhash, haunts⟩ := ihl i (by omega)
        have hmem := List.mem_of_getElem? hc
        rw [List.getElem?_append_left (by simp only [List.length_map]; omega), List.getElem?_map,
          hc, Option.map_some]
        refine ⟨_, rfl, ?_, ?_⟩
        · rw [trailHash_reparent (hlastl c hmem), hhash, List.getElem_take]
          rfl
        · rw [flattenAunts_reparent (hlastl c hmem) (by rw [hrootl]) (by rw [hrootl]), haunts,
            if_pos hik, hrootr, hrootl]
          simp [flattenAunts, hashFromByteSlices_eq_root]
      · -- a leaf of the right subtree, at the shifted index
        obtain ⟨c, hc, hhash, haunts⟩ := ihr (i - getSplitPoint (x :: y :: zs).length)
          (by rw [List.length_drop]; omega)
        have hmem := List.mem_of_getElem? hc
        rw [List.getElem?_append_right (by simp only [List.length_map]; omega), List.length_map,
          hlen', List.getElem?_map, hc, Option.map_some]
        refine ⟨_, rfl, ?_, ?_⟩
        · rw [trailHash_reparent (hlastr c hmem), hhash, List.getElem_drop]
          · congr 2
            omega
          · rfl
        · rw [flattenAunts_reparent (hlastr c hmem) (by rw [hrootr]) (by rw [hrootr]), haunts,
            if_neg hik, hrootl, hrootr]
          simp [flattenAunts, hashFromByteSlices_eq_root]

/-! ## What `ProofsFromByteSlices` produces -/

theorem proofsFromByteSlices_root (items : List Bytes) :
    (proofsFromByteSlices tmhash items).1 = hashFromByteSlices tmhash items := by
  simp only [proofsFromByteSlices, (trailsFromByteSlices_shape tmhash items).2.1]

theorem proofsFromByteSlices_length (items : List Bytes) :
    (proofsFromByteSlices tmhash items).2.length = items.length := by
  simp only [proofsFromByteSlices, List.length_mapIdx, (trailsFromByteSlices_shape tmhash items).1]

theorem proofsFromByteSlices_getElem? (items : List Bytes) (i : Nat) (hi : i < items.length) :
    (proofsFromByteSlices tmhash items).2[i]? =
      some { total := items.length, index := i, leafHash := leafHash tmhash items[i],
             aunts := (auditPath (merkleHasher tmhash) splitter items i).reverse } := by
  obtain ⟨c, hc, hhash, haunts⟩ := trailsFromByteSlices_getElem tmhash items i hi
  simp only [proofsFromByteSlices, List.getElem?_mapIdx, hc, Option.map_some, hhash, haunts]

/-! ## What `Proof.Verify` accepts -/

theorem hashFromByteSlices_ne_nil {tmhash : Bytes → Bytes} (hsum : IdealHash.Ideal tmhash)
    (items : List Bytes) : hashFromByteSlices tmhash items ≠ [] := by
  match items with
  | [] => rw [hashFromByteSlices]; exact hsum.ne_nil _
  | [x] => rw [hashFromByteSlices]; exact hsum.ne_nil _
  | x :: y :: zs => rw [hashFromByteSlices]; exact hsum.ne_nil _

theorem verify_eq_ok_iff (sp : Proof) (rootHash leaf : Bytes) :
    sp.verify tmhash rootHash leaf = .ok () ↔
      0 ≤ sp.total ∧ 0 ≤ sp.index ∧ sp.leafHash = leafHash tmhash leaf ∧
        (sp.computeRootHash tmhash).getD [] = rootHash := by
  unfold Proof.verify
  by_cases h1 : sp.total < 0
  · simp only [if_pos h1, reduceCtorEq, false_iff]
    omega
  · by_cases h2 : sp.index < 0
    · simp only [if_neg h1, if_pos h2, reduceCtorEq, false_iff]
      omega
    · by_cases h3 : sp.leafHash = leafHash tmhash leaf
      · simp only [if_neg h1, if_neg h2, h3, ne_eq, not_true_eq_false, if_false]
        split_ifs with h4 <;> simp_all
      · simp only [if_neg h1, if_neg h2, ne_eq, h3, not_false_eq_true, if_true, reduceCtorEq,
          false_iff]
        tauto

theorem verify_honest (items : List Bytes) (i : Nat) (hi : i < items.length) :
    ({ total := items.length, index := i, leafHash := leafHash tmhash items[i],
       aunts := (auditPath (merkleHasher tmhash) splitter items i).reverse } : Proof).verify
      tmhash (hashFromByteSlices tmhash items) items[i] = .ok () := by
  rw [verify_eq_ok_iff]
  refine ⟨Int.natCast_nonneg _, Int.natCast_nonneg _, rfl, ?_⟩
  rw [Proof.computeRootHash, computeHashFromAunts_eq_fromPath, List.reverse_reverse,
    ← merkleHasher_leaf, fromPath_auditPath _ _ _ _ hi, hashFromByteSlices_eq_root]
  rfl

variable {tmhash}

theorem merkleHasher_binding (hsum : IdealHash.Ideal tmhash) :
    Binding (merkleHasher tmhash) (fun d => ∃ z, d = tmhash z) :=
  IdealHash.framed_binding hsum 0 1

/-- A proof that passes `Verify` against a real root, read as a path: its
total and index are natural numbers, its leaf hash is the checked one, and
its reversed aunts rebuild the root.  A `nil` computed hash cannot pass,
since no root is empty. -/
theorem fromPath_of_verify (hsum : IdealHash.Ideal tmhash) {sp : Proof} {items : List Bytes}
    {leaf : Bytes} (h : sp.verify tmhash (hashFromByteSlices tmhash items) leaf = .ok ()) :
    ∃ n j : Nat, sp.total = n ∧ sp.index = j ∧ sp.leafHash = leafHash tmhash leaf ∧
      fromPath (merkleHasher tmhash) splitter ((merkleHasher tmhash).leaf leaf) j n
        sp.aunts.reverse = some (root (merkleHasher tmhash) splitter items) := by
  obtain ⟨htotal, hindex, hleaf, hroot⟩ := (verify_eq_ok_iff tmhash sp _ leaf).mp h
  obtain ⟨n, hn⟩ : ∃ n : Nat, sp.total = n := ⟨sp.total.toNat, by omega⟩
  obtain ⟨j, hj⟩ : ∃ j : Nat, sp.index = j := ⟨sp.index.toNat, by omega⟩
  refine ⟨n, j, hn, hj, hleaf, ?_⟩
  rw [Proof.computeRootHash, hn, hj, hleaf, computeHashFromAunts_eq_fromPath] at hroot
  rw [merkleHasher_leaf, ← hashFromByteSlices_eq_root]
  cases hfp : fromPath (merkleHasher tmhash) splitter (leafHash tmhash leaf) j n sp.aunts.reverse with
  | none =>
      rw [hfp, Option.getD_none] at hroot
      exact absurd hroot.symm (hashFromByteSlices_ne_nil hsum items)
  | some d => rw [hfp, Option.getD_some] at hroot; rw [hroot]

/-- `ProofsFromByteSlices` builds the root and one proof per item, proof `i`
of total `n` and index `i`; and a proof of total `n` with an index in range
passes `Verify` against the root exactly when the leaf is the item at that
index and the proof is the honest proof built for it. -/
theorem proofsFromByteSlices_verify (hsum : IdealHash.Ideal tmhash) (items : List Bytes) :
    (proofsFromByteSlices tmhash items).1 = hashFromByteSlices tmhash items ∧
      (proofsFromByteSlices tmhash items).2.length = items.length ∧
      (∀ i (hi : i < (proofsFromByteSlices tmhash items).2.length),
        (proofsFromByteSlices tmhash items).2[i].total = items.length ∧
          (proofsFromByteSlices tmhash items).2[i].index = i) ∧
      ∀ (p : Proof) (leaf : Bytes), p.total = items.length → 0 ≤ p.index →
        p.index < items.length →
        (p.verify tmhash (hashFromByteSlices tmhash items) leaf = .ok () ↔
          items[p.index.toNat]? = some leaf ∧
            (proofsFromByteSlices tmhash items).2[p.index.toNat]? = some p) := by
  refine ⟨proofsFromByteSlices_root tmhash items, proofsFromByteSlices_length tmhash items,
    ?_, ?_⟩
  · intro i hi
    have hi' : i < items.length := by rwa [proofsFromByteSlices_length] at hi
    have hget := proofsFromByteSlices_getElem? tmhash items i hi'
    rw [List.getElem?_eq_getElem hi, Option.some.injEq] at hget
    rw [hget]
    exact ⟨rfl, rfl⟩
  · intro p leaf htotal hidx hlt
    obtain ⟨j, hj⟩ : ∃ j : Nat, p.index = j := ⟨p.index.toNat, by omega⟩
    have hjlt : j < items.length := by omega
    rw [hj, Int.toNat_natCast, proofsFromByteSlices_getElem? tmhash items j hjlt,
      List.getElem?_eq_getElem hjlt]
    constructor
    · intro h
      obtain ⟨n, j', hn, hj', hlh, hfp⟩ := fromPath_of_verify hsum h
      obtain rfl : n = items.length := by omega
      obtain rfl : j = j' := by omega
      -- a path of the right size is the honest one, for the stored leaf
      obtain ⟨hleaf, hpath⟩ := fromPath_binding splitter (merkleHasher_binding hsum) items j hjlt
        ((merkleHasher_binding hsum).leaf_good leaf) hfp
      have hitem : leaf = items[j] := (merkleHasher_binding hsum).leaf_inj hleaf
      subst hitem
      refine ⟨rfl, ?_⟩
      obtain ⟨total, index, lh, aunts⟩ := p
      simp only at hn hj' hlh hpath
      subst hn hj' hlh
      rw [← hpath, List.reverse_reverse]
    · rintro ⟨hleaf, hp⟩
      obtain rfl := Option.some.inj hleaf
      obtain rfl := Option.some.inj hp
      exact verify_honest tmhash items j hjlt

/-- The witness: `markerHash` is an ideal hash, and the theorem holds at the
one-item tree. -/
theorem proofsFromByteSlices_verify_marker :
    IdealHash.Ideal IdealHash.markerHash ∧
      (proofsFromByteSlices IdealHash.markerHash [[0]]).1 =
        hashFromByteSlices IdealHash.markerHash [[0]] ∧
      (proofsFromByteSlices IdealHash.markerHash [[0]]).2.length = 1 ∧
      (∀ i (hi : i < (proofsFromByteSlices IdealHash.markerHash [[0]]).2.length),
        (proofsFromByteSlices IdealHash.markerHash [[0]]).2[i].total = 1 ∧
          (proofsFromByteSlices IdealHash.markerHash [[0]]).2[i].index = i) ∧
      ∀ (p : Proof) (leaf : Bytes), p.total = 1 → 0 ≤ p.index → p.index < 1 →
        (p.verify IdealHash.markerHash (hashFromByteSlices IdealHash.markerHash [[0]]) leaf =
            .ok () ↔
          [[(0 : UInt8)]][p.index.toNat]? = some leaf ∧
            (proofsFromByteSlices IdealHash.markerHash [[0]]).2[p.index.toNat]? = some p) :=
  ⟨IdealHash.markerHash_ideal,
    proofsFromByteSlices_verify IdealHash.markerHash_ideal [[0]]⟩

/-- `Verify` reads the `LeafHash` field: a proof of total 1 and index 0 with
no aunts, the honest ones for the one item `[0]`, is rejected with an empty
`LeafHash`, though the leaf is the item at its index. -/
theorem verify_ignoring_leafHash_counterexample :
    ¬ ((({ total := 1, index := 0, leafHash := [], aunts := [] } : Proof).verify
          IdealHash.markerHash (hashFromByteSlices IdealHash.markerHash [[0]]) [0] = .ok ()) ↔
        ([[(0 : UInt8)]][0]? = some [0] ∧
          ((proofsFromByteSlices IdealHash.markerHash [[0]]).2[0]?).map Proof.aunts =
            some [])) := by
  rw [proofsFromByteSlices_getElem? _ _ 0 (by simp), auditPath_of_lt_two _ _ (by simp)]
  decide

end Ostracon.Crypto.Merkle
