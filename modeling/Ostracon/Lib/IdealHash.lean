import Ostracon.Lib.MerkleTree
/-!
# Ideal hashes on byte strings

A hash on byte strings is *ideal* here when it is injective and no digest is
a proper prefix or a proper suffix of another one.  A real digest has a fixed
width, which gives the second and third properties for free; the first one is
the usual idealisation of collision resistance.  Injectivity together with a
fixed width cannot hold on all byte strings, so the fixed width is replaced by
the two framing properties that the Merkle proofs actually use, and
`markerHash` shows that the three hypotheses can hold at once.

For a tree hasher that tags leaf and inner inputs with one byte each,
`framed_binding` turns an ideal hash into the `MerkleTree.Binding` law.
-/

namespace IdealHash

/-- The hypotheses placed on a hash of byte strings. -/
structure Ideal (sum : List UInt8 → List UInt8) : Prop where
  injective : Function.Injective sum
  prefix_free : ∀ {a b s t : List UInt8}, sum a ++ s = sum b ++ t → sum a = sum b
  suffix_free : ∀ {a b s t : List UInt8}, s ++ sum a = t ++ sum b → sum a = sum b

theorem Ideal.ne_nil {sum : List UInt8 → List UInt8} (hsum : Ideal sum) (z : List UInt8) :
    sum z ≠ [] := by
  intro hz
  have hcat : sum z ++ sum (0 :: z) = sum (0 :: z) ++ [] := by simp [hz]
  have := congrArg List.length (hsum.injective (hsum.prefix_free hcat))
  simp at this

/-- The tree hasher that hashes `leafTag :: x` at a leaf, `innerTag :: l ++ r`
at an inner node and the empty string for the empty tree. -/
def framed (sum : List UInt8 → List UInt8) (leafTag innerTag : UInt8) :
    MerkleTree.Hasher (List UInt8) (List UInt8) where
  leaf x := sum (leafTag :: x)
  inner l r := sum (innerTag :: (l ++ r))
  empty := sum []

theorem framed_binding {sum : List UInt8 → List UInt8} (hsum : Ideal sum) (leafTag innerTag : UInt8) :
    MerkleTree.Binding (framed sum leafTag innerTag) (fun d => ∃ z, d = sum z) where
  leaf_good x := ⟨_, rfl⟩
  inner_good a b := ⟨_, rfl⟩
  leaf_inj h := by
    have := hsum.injective h
    simpa using this
  inner_inj_left := by
    rintro a b x y ⟨za, rfl⟩ ⟨zb, rfl⟩ h
    have hcat : sum za ++ x = sum zb ++ y := by
      simpa using hsum.injective h
    have hd : sum za = sum zb := hsum.prefix_free hcat
    rw [hd] at hcat
    exact ⟨hd, List.append_cancel_left hcat⟩
  inner_inj_right := by
    rintro a b x y ⟨za, rfl⟩ ⟨zb, rfl⟩ h
    have hcat : x ++ sum za = y ++ sum zb := by
      simpa using hsum.injective h
    have hd : sum za = sum zb := hsum.suffix_free hcat
    rw [hd] at hcat
    exact ⟨List.append_cancel_right hcat, hd⟩

/-! ## A concrete ideal hash -/

/-- Each byte written as its two nibbles, so that the byte `255` never occurs. -/
def nibbles : List UInt8 → List UInt8
  | [] => []
  | b :: bs => b / 16 :: b % 16 :: nibbles bs

/-- The nibble encoding framed by a `255` marker on both sides. -/
def markerHash (x : List UInt8) : List UInt8 := 255 :: (nibbles x ++ [255])

theorem not_mem_nibbles (x : List UInt8) : (255 : UInt8) ∉ nibbles x := by
  induction x with
  | nil => simp [nibbles]
  | cons b bs ih =>
      have hdiv : b / 16 ≠ 255 := by
        intro h
        have hval := congrArg UInt8.toNat h
        have hlt := b.toNat_lt
        simp only [UInt8.toNat_div, UInt8.reduceToNat] at hval
        omega
      have hmod : b % 16 ≠ 255 := by
        intro h
        have hval := congrArg UInt8.toNat h
        simp only [UInt8.toNat_mod, UInt8.reduceToNat] at hval
        omega
      simp only [nibbles, List.mem_cons, not_or]
      exact ⟨Ne.symm hdiv, Ne.symm hmod, ih⟩

theorem nibbles_injective : Function.Injective nibbles := by
  intro x
  induction x with
  | nil =>
      intro y h
      cases y with
      | nil => rfl
      | cons c cs => simp [nibbles] at h
  | cons b bs ih =>
      intro y h
      cases y with
      | nil => simp [nibbles] at h
      | cons c cs =>
          simp only [nibbles, List.cons.injEq] at h
          obtain ⟨hdiv, hmod, hrest⟩ := h
          have hb : b = c := by
            apply UInt8.toNat_inj.mp
            have h1 := congrArg UInt8.toNat hdiv
            have h2 := congrArg UInt8.toNat hmod
            simp only [UInt8.toNat_div, UInt8.toNat_mod, UInt8.reduceToNat] at h1 h2
            omega
          rw [hb, ih hrest]

theorem append_marker_cancel {u v s t : List UInt8} (hu : (255 : UInt8) ∉ u) (hv : (255 : UInt8) ∉ v)
    (h : u ++ 255 :: s = v ++ 255 :: t) : u = v ∧ s = t := by
  induction u generalizing v with
  | nil =>
      cases v with
      | nil => simpa using h
      | cons c cs =>
          simp only [List.nil_append, List.cons_append, List.cons.injEq] at h
          exact absurd (h.1 ▸ List.mem_cons_self) hv
  | cons b bs ih =>
      cases v with
      | nil =>
          simp only [List.nil_append, List.cons_append, List.cons.injEq] at h
          exact absurd (h.1 ▸ List.mem_cons_self) hu
      | cons c cs =>
          simp only [List.cons_append, List.cons.injEq] at h
          obtain ⟨rfl, hrest⟩ := h
          have := ih (fun hm => hu (List.mem_cons_of_mem _ hm))
            (fun hm => hv (List.mem_cons_of_mem _ hm)) hrest
          exact ⟨by rw [this.1], this.2⟩

theorem markerHash_ideal : Ideal markerHash where
  injective := by
    intro a b h
    simp only [markerHash, List.cons.injEq, List.append_cancel_right_eq, true_and] at h
    exact nibbles_injective h
  prefix_free := by
    intro a b s t h
    simp only [markerHash, List.cons_append, List.append_assoc, List.cons.injEq, true_and] at h
    have := append_marker_cancel (not_mem_nibbles a) (not_mem_nibbles b) h
    simp only [markerHash, this.1]
  suffix_free := by
    intro a b s t h
    have hrev := congrArg List.reverse h
    simp only [markerHash, List.reverse_append, List.reverse_cons, List.reverse_nil,
      List.nil_append, List.cons_append, List.append_assoc, List.cons.injEq, true_and] at hrev
    have hu : (255 : UInt8) ∉ (nibbles a).reverse := by
      simpa using not_mem_nibbles a
    have hv : (255 : UInt8) ∉ (nibbles b).reverse := by
      simpa using not_mem_nibbles b
    have := append_marker_cancel hu hv hrev
    simp only [markerHash, List.reverse_inj.mp this.1]

end IdealHash
