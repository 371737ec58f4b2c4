import Mathlib
/-!
# Split-point Merkle trees

A Merkle tree over a list of leaves whose left subtree holds `split n` of the
`n` leaves, for a split function that leaves both subtrees non-empty.  The
RFC 6962 tree (split at the largest power of two below `n`) is the instance
used by the code, but nothing here depends on the choice of split.

The module gives the honest side (`root`, `auditPath`) and the checking side
(`fromPath`, which rebuilds a root from a leaf digest and a root-first path),
and proves the two facts every inclusion proof rests on:

* `fromPath_auditPath` — the honest path of leaf `i` rebuilds the root;
* `fromPath_binding` — an arbitrary path that rebuilds the root of a tree of
  the same size is the honest path of that index, and its leaf digest is the
  digest of the leaf stored there.

Binding is stated against `Binding`, which asks `inner` to be injective only
when the computed argument is a digest.  That is the form in which a hash on
byte strings delivers it: the checker concatenates a digest it computed with
an aunt the prover chose.
-/

namespace MerkleTree

variable {α D : Type}

/-- The three hash operations a tree is built from. -/
structure Hasher (α D : Type) where
  leaf : α → D
  inner : D → D → D
  empty : D

/-- A split function that leaves both subtrees of a tree of size `n ≥ 2`
non-empty. -/
structure Splitter where
  split : Nat → Nat
  pos : ∀ {n : Nat}, 2 ≤ n → 0 < split n
  lt : ∀ {n : Nat}, 2 ≤ n → split n < n

variable (H : Hasher α D) (S : Splitter)

/-- The root digest of the tree over `xs`. -/
def root : List α → D
  | [] => H.empty
  | [x] => H.leaf x
  | x :: y :: zs =>
      H.inner (root ((x :: y :: zs).take (S.split (x :: y :: zs).length)))
        (root ((x :: y :: zs).drop (S.split (x :: y :: zs).length)))
termination_by xs => xs.length
decreasing_by
  · have := S.lt (n := (x :: y :: zs).length) (by simp)
    simp only [List.length_take, List.length_cons] at this ⊢
    omega
  · have := S.pos (n := (x :: y :: zs).length) (by simp)
    simp only [List.length_drop, List.length_cons] at this ⊢
    omega

/-- The honest path of leaf `i`: the digests of the sibling subtrees met on
the way from the root down to the leaf, root first. -/
def auditPath (xs : List α) (i : Nat) : List D :=
  if _ : 2 ≤ xs.length then
    if i < S.split xs.length then
      root H S (xs.drop (S.split xs.length)) :: auditPath (xs.take (S.split xs.length)) i
    else
      root H S (xs.take (S.split xs.length)) ::
        auditPath (xs.drop (S.split xs.length)) (i - S.split xs.length)
  else []
termination_by xs.length
decreasing_by
  · have := S.lt ‹2 ≤ xs.length›
    simp only [List.length_take]
    omega
  · have := S.pos ‹2 ≤ xs.length›
    simp only [List.length_drop]
    omega

/-- Rebuild a root from leaf digest `lh` at index `i` of a tree of size `n`
and a root-first path; `none` when the path has the wrong length or the index
is out of range. -/
def fromPath (lh : D) (i n : Nat) (path : List D) : Option D :=
  if n ≤ i then none
  else if _ : 2 ≤ n then
    match path with
    | [] => none
    | sib :: rest =>
        if i < S.split n then
          (fromPath lh i (S.split n) rest).map (H.inner · sib)
        else
          (fromPath lh (i - S.split n) (n - S.split n) rest).map (H.inner sib ·)
  else
    match path with
    | [] => some lh
    | _ :: _ => none
termination_by n
decreasing_by
  · exact S.lt ‹2 ≤ n›
  · have := S.pos ‹2 ≤ n›
    omega

/-! ## Unfolding lemmas -/

@[simp] theorem root_nil : root H S [] = H.empty := by
  rw [root]

@[simp] theorem root_singleton (x : α) : root H S [x] = H.leaf x := by
  rw [root]

theorem root_of_two_le {xs : List α} (h : 2 ≤ xs.length) :
    root H S xs =
      H.inner (root H S (xs.take (S.split xs.length)))
        (root H S (xs.drop (S.split xs.length))) := by
  match xs, h with
  | x :: y :: zs, _ => rw [root]

theorem auditPath_of_lt_two {xs : List α} (h : xs.length < 2) (i : Nat) :
    auditPath H S xs i = [] := by
  rw [auditPath, dif_neg (by omega)]

theorem fromPath_of_le {lh : D} {i n : Nat} (h : n ≤ i) (path : List D) :
    fromPath H S lh i n path = none := by
  rw [fromPath.eq_def, if_pos h]

theorem fromPath_one (lh : D) (path : List D) :
    fromPath H S lh 0 1 path = if path = [] then some lh else none := by
  rw [fromPath.eq_def, if_neg (by omega), dif_neg (by omega)]
  cases path <;> simp

theorem fromPath_cons_left {lh : D} {i n : Nat} (hn : 2 ≤ n) (hi : i < S.split n)
    (sib : D) (rest : List D) :
    fromPath H S lh i n (sib :: rest) =
      (fromPath H S lh i (S.split n) rest).map (H.inner · sib) := by
  have := S.lt hn
  rw [fromPath.eq_def, if_neg (by omega), dif_pos hn]
  simp only [if_pos hi]

theorem fromPath_cons_right {lh : D} {i n : Nat} (hn : 2 ≤ n) (hin : i < n)
    (hi : ¬ i < S.split n) (sib : D) (rest : List D) :
    fromPath H S lh i n (sib :: rest) =
      (fromPath H S lh (i - S.split n) (n - S.split n) rest).map (H.inner sib ·) := by
  rw [fromPath.eq_def, if_neg (by omega), dif_pos hn]
  simp only [if_neg hi]

theorem fromPath_nil_of_two_le {lh : D} {i n : Nat} (hn : 2 ≤ n) :
    fromPath H S lh i n [] = none := by
  rw [fromPath.eq_def]
  split_ifs <;> rfl

/-! ## Completeness -/

theorem fromPath_auditPath (xs : List α) (i : Nat) (hi : i < xs.length) :
    fromPath H S (H.leaf (xs[i])) i xs.length (auditPath H S xs i) =
      some (root H S xs) := by
  induction xs, i using auditPath.induct S with
  | case1 xs i h hik ih =>
      -- the leaf lies in the left subtree
      have hk := S.lt h
      have hlen : (xs.take (S.split xs.length)).length = S.split xs.length := by
        simp only [List.length_take]
        omega
      have hrec := ih (by omega)
      simp only [List.getElem_take, hlen] at hrec
      rw [auditPath, dif_pos h, if_pos hik, fromPath_cons_left H S h hik, hrec,
        root_of_two_le H S h]
      rfl
  | case2 xs i h hik ih =>
      -- the leaf lies in the right subtree, at the shifted index
      have hk := S.lt h
      have hlen : (xs.drop (S.split xs.length)).length = xs.length - S.split xs.length := by
        simp only [List.length_drop]
      have hrec := ih (by omega)
      simp only [List.getElem_drop, hlen] at hrec
      have hidx : S.split xs.length + (i - S.split xs.length) = i := by omega
      simp only [hidx] at hrec
      rw [auditPath, dif_pos h, if_neg hik, fromPath_cons_right H S h hi hik, hrec,
        root_of_two_le H S h]
      rfl
  | case3 xs i h =>
      -- a single leaf: the path is empty
      have hone : xs.length = 1 := by omega
      match xs, hone with
      | [x], _ =>
          have hi0 : i = 0 := by simpa using hi
          subst hi0
          rw [auditPath_of_lt_two H S (by omega), List.length_singleton, fromPath_one]
          simp

/-! ## Binding -/

/-- What binding asks of the hash: leaves and inner nodes are digests, leaf
hashing is injective, and an inner node determines its two children as soon
as the child on the computed side is known to be a digest. -/
structure Binding (good : D → Prop) : Prop where
  leaf_good : ∀ x, good (H.leaf x)
  inner_good : ∀ a b, good (H.inner a b)
  leaf_inj : ∀ {x y : α}, H.leaf x = H.leaf y → x = y
  inner_inj_left : ∀ {a b x y : D}, good a → good b → H.inner a x = H.inner b y → a = b ∧ x = y
  inner_inj_right : ∀ {a b x y : D}, good a → good b → H.inner x a = H.inner y b → x = y ∧ a = b

variable {H} {good : D → Prop}

theorem root_good (hb : Binding H good) {xs : List α} (hne : xs ≠ []) : good (root H S xs) := by
  match xs, hne with
  | [x], _ => simpa using hb.leaf_good x
  | x :: y :: zs, _ =>
      rw [root_of_two_le H S (by simp)]
      exact hb.inner_good _ _

theorem fromPath_good (hb : Binding H good) {lh : D} (hlh : good lh) :
    ∀ {i n : Nat} {path : List D} {d : D}, fromPath H S lh i n path = some d → good d := by
  intro i n path d hd
  induction path generalizing i n d with
  | nil =>
      by_cases hn : 2 ≤ n
      · rw [fromPath_nil_of_two_le H S hn] at hd
        cases hd
      · rw [fromPath.eq_def] at hd
        split_ifs at hd
        cases hd
        exact hlh
  | cons sib rest ih =>
      rw [fromPath.eq_def] at hd
      split_ifs at hd with hle hn hik
      · obtain ⟨c, -, rfl⟩ := Option.map_eq_some_iff.mp hd
        exact hb.inner_good _ _
      · obtain ⟨c, -, rfl⟩ := Option.map_eq_some_iff.mp hd
        exact hb.inner_good _ _

theorem fromPath_binding (hb : Binding H good) (xs : List α) (i : Nat) (hi : i < xs.length)
    {lh : D} (hlh : good lh) {path : List D}
    (hpath : fromPath H S lh i xs.length path = some (root H S xs)) :
    lh = H.leaf (xs[i]) ∧ path = auditPath H S xs i := by
  induction xs, i using auditPath.induct S generalizing path with
  | case1 xs i h hik ih =>
      have hk := S.lt h
      have hlen : (xs.take (S.split xs.length)).length = S.split xs.length := by
        simp only [List.length_take]
        omega
      cases path with
      | nil => rw [fromPath_nil_of_two_le H S h] at hpath; cases hpath
      | cons sib rest =>
          rw [fromPath_cons_left H S h hik, root_of_two_le H S h] at hpath
          obtain ⟨c, hc, hinner⟩ := Option.map_eq_some_iff.mp hpath
          -- the computed child and the stored left subtree are both digests
          have hcgood : good c := fromPath_good S hb hlh hc
          have hleft : good (root H S (xs.take (S.split xs.length))) :=
            root_good S hb (List.ne_nil_of_length_pos (by rw [hlen]; exact S.pos h))
          obtain ⟨rfl, rfl⟩ := hb.inner_inj_left hcgood hleft hinner
          have hc' : fromPath H S lh i (xs.take (S.split xs.length)).length rest =
              some (root H S (xs.take (S.split xs.length))) := by
            rw [hlen]
            exact hc
          obtain ⟨hleaf, hrest⟩ := ih (by omega) hc'
          refine ⟨by simpa using hleaf, ?_⟩
          rw [auditPath, dif_pos h, if_pos (by omega), hrest]
  | case2 xs i h hik ih =>
      have hk := S.lt h
      have hlen : (xs.drop (S.split xs.length)).length = xs.length - S.split xs.length := by
        simp only [List.length_drop]
      cases path with
      | nil => rw [fromPath_nil_of_two_le H S h] at hpath; cases hpath
      | cons sib rest =>
          rw [fromPath_cons_right H S h hi hik, root_of_two_le H S h] at hpath
          obtain ⟨c, hc, hinner⟩ := Option.map_eq_some_iff.mp hpath
          have hcgood : good c := fromPath_good S hb hlh hc
          have hright : good (root H S (xs.drop (S.split xs.length))) :=
            root_good S hb (List.ne_nil_of_length_pos (by rw [hlen]; omega))
          obtain ⟨rfl, rfl⟩ := hb.inner_inj_right hcgood hright hinner
          have hc' : fromPath H S lh (i - S.split xs.length) (xs.drop (S.split xs.length)).length
              rest = some (root H S (xs.drop (S.split xs.length))) := by
            rw [hlen]
            exact hc
          obtain ⟨hleaf, hrest⟩ := ih (by omega) hc'
          have hidx : S.split xs.length + (i - S.split xs.length) = i := by omega
          refine ⟨by simpa [hidx] using hleaf, ?_⟩
          rw [auditPath, dif_pos h, if_neg hik, hrest]
  | case3 xs i h =>
      have hone : xs.length = 1 := by omega
      match xs, hone with
      | [x], _ =>
          have hi0 : i = 0 := by simpa using hi
          subst hi0
          rw [List.length_singleton, fromPath_one, root_singleton] at hpath
          split_ifs at hpath with hnil
          cases hpath
          exact ⟨rfl, by rw [hnil, auditPath_of_lt_two H S (by omega)]⟩

end MerkleTree
