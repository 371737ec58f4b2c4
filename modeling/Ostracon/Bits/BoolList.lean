import Ostracon.Bits.Shape
import Mathlib.Tactic.SplitIfs
import Mathlib.Tactic.Set
/-!
# Bit arrays against lists of booleans

A bit array of `Bits` bits stands for the list of its first `Bits` bits
(`BitArray.toBools`), and the operations of `bit_array.go` are meant to act
on that list: `Or`, for one, pointwise to the longer size (`Bools.or`).  The
bits of the last word above `Bits` are padding, which `IsEmpty` reads.

On well-formed arrays `GetIndex`, `SetIndex` and the JSON round trip act as
the list model says (`getIndex_eq_toBools`, `setIndex_toBools`,
`unmarshalJSON_marshalJSON`).  Two operations put set bits into the padding:
`Not` flips it with the word, and `Update` copies the words of a longer array
into the receiver's last word.  `Or` with a second operand of more words than
the receiver loses the bits of the extra words, since its loop stops at the
receiver's word count.
-/

namespace Ostracon.Bits

/-! ## Bits of a word -/

/-- Bit `j` of a word. -/
def wordBit (w : UInt64) (j : Nat) : Bool := w.toBitVec.getLsbD j

@[simp] theorem wordBit_zero (j : Nat) : wordBit 0 j = false := by
  simp [wordBit]

@[simp] theorem wordBit_or (a b : UInt64) (j : Nat) : wordBit (a ||| b) j = (wordBit a j || wordBit b j) := by
  simp [wordBit]

@[simp] theorem wordBit_and (a b : UInt64) (j : Nat) : wordBit (a &&& b) j = (wordBit a j && wordBit b j) := by
  simp [wordBit]

theorem wordBit_not (a : UInt64) {j : Nat} (h : j < 64) : wordBit (~~~a) j = !wordBit a j := by
  simp [wordBit, h]

theorem wordBit_eq_testBit (a : UInt64) (j : Nat) : wordBit a j = a.toNat.testBit j := rfl

theorem toNat_shl1 {k : Int} (h0 : 0 ≤ k) (h : k < 64) : (shl1 k).toNat = 2 ^ k.toNat := by
  have hk : k.toNat < 64 := by omega
  simp only [shl1, h0, h, and_self, ↓reduceIte]
  simp [Nat.mod_eq_of_lt hk]
  rw [Nat.one_shiftLeft]
  exact Nat.mod_eq_of_lt (Nat.pow_lt_pow_right (by decide) hk)

theorem wordBit_shl1 {k : Int} (h0 : 0 ≤ k) (h : k < 64) (j : Nat) :
    wordBit (shl1 k) j = decide (j = k.toNat) := by
  rw [wordBit_eq_testBit, toNat_shl1 h0 h, Nat.testBit_two_pow]
  by_cases hj : j = k.toNat
  · simp [hj]
  · simp [hj, Ne.symm hj]

theorem eq_zero_iff_wordBit (w : UInt64) : w = 0 ↔ ∀ j < 64, wordBit w j = false := by
  constructor
  · rintro rfl j _
    exact wordBit_zero j
  · intro h
    apply UInt64.toBitVec_inj.mp
    apply BitVec.eq_of_getLsbD_eq
    intro j hj
    simpa [wordBit] using h j hj

theorem decide_and_shl1_pos (w : UInt64) {k : Int} (h0 : 0 ≤ k) (h : k < 64) :
    decide (w &&& shl1 k > 0) = wordBit w k.toNat := by
  have hbits : ∀ j, wordBit (w &&& shl1 k) j = (decide (j = k.toNat) && wordBit w k.toNat) := by
    intro j
    rw [wordBit_and, wordBit_shl1 h0 h]
    by_cases hj : j = k.toNat
    · simp [hj]
    · simp [hj]
  by_cases hw : wordBit w k.toNat
  · have hne : w &&& shl1 k ≠ 0 := by
      intro hzero
      have := hbits k.toNat
      rw [hzero, wordBit_zero] at this
      simp [hw] at this
    simp [hw, UInt64.pos_iff_ne_zero, hne]
  · have heq : w &&& shl1 k = 0 :=
      (eq_zero_iff_wordBit _).mpr fun j _ => by simp [hbits j, hw]
    simp [hw, heq]

theorem wordBit_setBit {i : Int} (hi : 0 ≤ i) (v : Bool) (e : UInt64) {j : Nat} (hj : j < 64) :
    wordBit (BitArray.setBit i v e) j = if j = i.toNat % 64 then v else wordBit e j := by
  have hmod : 0 ≤ i.tmod 64 ∧ i.tmod 64 < 64 := by
    rw [Int.tmod_eq_emod_of_nonneg hi]
    omega
  have hk : (i.tmod 64).toNat = i.toNat % 64 := by
    rw [Int.tmod_eq_emod_of_nonneg hi]
    omega
  unfold BitArray.setBit
  cases v with
  | true => simp [wordBit_shl1 hmod.1 hmod.2, hk, Bool.or_comm]
  | false =>
    simp only [Bool.false_eq_true, ↓reduceIte, wordBit_and, wordBit_not _ hj, wordBit_shl1 hmod.1 hmod.2, hk]
    by_cases hjk : j = i.toNat % 64 <;> simp [hjk]

/-! ## The list model -/

-- what `Or` should do to the bits two arrays stand for
namespace Bools

/-- `Or`: the size of the longer list, the shorter read as `false` past its end. -/
def or (a b : List Bool) : List Bool :=
  (List.range (max a.length b.length)).map fun i => a.getD i false || b.getD i false

end Bools

theorem getD_map_range (f : Nat → Bool) (n i : Nat) :
    ((List.range n).map f).getD i false = (decide (i < n) && f i) := by
  rw [List.getD_eq_getElem?_getD, List.getElem?_map]
  by_cases h : i < n <;> simp [h]

theorem getD_modify (l : List UInt64) (w j : Nat) (f : UInt64 → UInt64) :
    (l.modify w f).getD j 0 = if j = w ∧ j < l.length then f (l.getD j 0) else l.getD j 0 := by
  rw [List.getD_eq_getElem?_getD, List.getElem?_modify, List.getD_eq_getElem?_getD]
  by_cases hj : j < l.length <;> simp [hj, eq_comm]

theorem set_map_range (f : Nat → Bool) (n i : Nat) (v : Bool) :
    ((List.range n).map f).set i v = (List.range n).map fun j => if j = i then v else f j := by
  apply List.ext_getElem
  · simp
  · intro j _ _
    simp [List.getElem_set, eq_comm]

namespace BitArray

/-- Bit `i` of the words, `0` past the last word. -/
def bitAt (bA : BitArray) (i : Nat) : Bool := wordBit (bA.elems.getD (i / 64) 0) (i % 64)

/-- The bits the array stands for: its first `Bits`. -/
def toBools (bA : BitArray) : List Bool := (List.range bA.bits.toNat).map bA.bitAt

/-- No bit of the words is set at or above the size. -/
def PaddingZero (bA : BitArray) : Prop := ∀ i, bA.bits.toNat ≤ i → bA.bitAt i = false

variable {bA c o : BitArray}

@[simp] theorem length_toBools (bA : BitArray) : bA.toBools.length = bA.bits.toNat := by
  simp [toBools]

theorem getD_toBools (bA : BitArray) (i : Nat) :
    bA.toBools.getD i false = (decide (i < bA.bits.toNat) && bA.bitAt i) :=
  getD_map_range _ _ _

theorem toBools_eq_of_bitAt {f : Nat → Bool} {n : Nat} (hbits : c.bits.toNat = n)
    (h : ∀ i < n, c.bitAt i = f i) : c.toBools = (List.range n).map f := by
  rw [toBools, hbits]
  exact List.map_congr_left fun i hi => h i (List.mem_range.mp hi)

/-! ### `getIndex` -/

theorem tdiv_toNat {i : Int} (hi : 0 ≤ i) : i.tdiv 64 = ((i.toNat / 64 : Nat) : Int) := by
  rw [Int.tdiv_eq_ediv_of_nonneg hi]
  omega

theorem getIndex_eq_toBools (h : bA.WF) {i : Int} (hi : 0 ≤ i) :
    bA.getIndex i = some (bA.toBools.getD i.toNat false) := by
  unfold getIndex
  rw [getD_toBools]
  by_cases hlt : i < bA.bits
  · -- the word `Elems[i/64]` is there, and the mask reads bit `i % 64` of it
    have hword : i.toNat / 64 < bA.elems.length := by
      have := tdiv_lt_numElems hi hlt
      rw [← h.elems_length, tdiv_toNat hi] at this
      omega
    have hmod : 0 ≤ i.tmod 64 ∧ i.tmod 64 < 64 := by
      rw [Int.tmod_eq_emod_of_nonneg hi]
      omega
    have hk : (i.tmod 64).toNat = i.toNat % 64 := by
      rw [Int.tmod_eq_emod_of_nonneg hi]
      omega
    rw [if_neg (by omega), tdiv_toNat hi, GoSlice.index_natCast, List.getElem?_eq_getElem hword]
    simp only [Option.pure_def, decide_and_shl1_pos _ hmod.1 hmod.2, hk,
      show i.toNat < bA.bits.toNat by omega, decide_true, Bool.true_and, bitAt]
    rw [List.getD_eq_getElem?_getD, List.getElem?_eq_getElem hword, Option.getD_some]
    rfl
  · rw [if_pos (by omega)]
    simp [show ¬ i.toNat < bA.bits.toNat by omega]

/-! ### Fresh arrays and `setIndex` -/

theorem newBitArray_toBools {n : Int} (h : newBitArray n = some bA) :
    bA.WF ∧ bA.PaddingZero ∧ bA.toBools = List.replicate n.toNat false := by
  have hwf := BitArrayPtr.newBitArray_wellFormed n
  rw [h] at hwf
  unfold newBitArray at h
  split_ifs at h with hn
  cases h
  -- every word of a fresh array is zero
  have hzero : ∀ i, BitArray.bitAt ⟨n, List.replicate (numElems n).toNat 0⟩ i = false := by
    intro i
    simp [bitAt, List.getD_eq_getElem?_getD, List.getElem?_replicate]
    split_ifs <;> simp
  refine ⟨(hwf _ rfl).1, fun i _ => hzero i, ?_⟩
  rw [toBools, List.map_congr_left fun i _ => hzero i, List.map_const', List.length_range]

theorem setIndex_of_lt_eq (h : bA.WF) {i : Int} (hi : 0 ≤ i) (hlt : i < bA.bits) (v : Bool) :
    bA.setIndex i v = some ({ bA with elems := bA.elems.modify (i.toNat / 64) (setBit i v) }, true) := by
  have hword : i.toNat / 64 < bA.elems.length := by
    have := tdiv_lt_numElems hi hlt
    rw [← h.elems_length, tdiv_toNat hi] at this
    omega
  rw [setIndex_of_lt v hlt, tdiv_toNat hi,
    GoSlice.modify_eq_some (Int.natCast_nonneg _) (by omega), Option.bind_some]
  rfl

theorem bitAt_setIndex (h : bA.WF) {i : Int} (hi : 0 ≤ i) (hlt : i < bA.bits) (v : Bool) (j : Nat) :
    BitArray.bitAt { bA with elems := bA.elems.modify (i.toNat / 64) (setBit i v) } j =
      if j = i.toNat then v else bA.bitAt j := by
  have hword : i.toNat / 64 < bA.elems.length := by
    have := tdiv_lt_numElems hi hlt
    rw [← h.elems_length, tdiv_toNat hi] at this
    omega
  unfold bitAt
  rw [getD_modify]
  by_cases hj : j = i.toNat
  · subst hj
    simp [hword, wordBit_setBit hi v _ (Nat.mod_lt _ (by decide))]
  · -- another bit of the same word, or a bit of another word
    by_cases hw : j / 64 = i.toNat / 64
    · simp only [hw, hword, and_self, ↓reduceIte, hj, wordBit_setBit hi v _ (Nat.mod_lt _ (by decide))]
      rw [if_neg (by omega)]
    · simp [hw, hj]

theorem setIndex_toBools (h : bA.WF) {i : Int} (hi : 0 ≤ i) (hlt : i < bA.bits) (v : Bool) :
    ∃ c, bA.setIndex i v = some (c, true) ∧ c.WF ∧ c.toBools = bA.toBools.set i.toNat v ∧
      (bA.PaddingZero → c.PaddingZero) := by
  refine ⟨_, setIndex_of_lt_eq h hi hlt v, h.of_shape rfl (by simp), ?_, fun hpad j hj => ?_⟩
  · rw [show bA.toBools = (List.range bA.bits.toNat).map bA.bitAt from rfl, set_map_range]
    exact toBools_eq_of_bitAt rfl fun j _ => bitAt_setIndex h hi hlt v j
  · have hj' : bA.bits.toNat ≤ j := hj
    rw [bitAt_setIndex h hi hlt v j, if_neg (by omega)]
    exact hpad j hj'

/-! ### JSON -/

theorem mapM_eq_some_map {α β : Type} {g : α → Option β} {f : α → β} :
    ∀ {l : List α}, (∀ a ∈ l, g a = some (f a)) → l.mapM g = some (l.map f)
  | [], _ => rfl
  | a :: l, h => by
    rw [List.mapM_cons, h a List.mem_cons_self, mapM_eq_some_map fun b hb => h b (List.mem_cons_of_mem _ hb)]
    rfl

/-- The character `MarshalJSON` writes for a bit. -/
def jsonChar (b : Bool) : Char := if b then 'x' else '_'

theorem marshalJSON_eq (h : bA.WF) :
    BitArrayPtr.marshalJSON (some bA) = some ('"' :: bA.toBools.map jsonChar ++ ['"']) := by
  simp only [BitArrayPtr.marshalJSON]
  rw [mapM_eq_some_map (f := fun i : Nat => jsonChar (bA.toBools.getD i false)) fun i _ => by
    rw [getIndex_eq_toBools h (Int.natCast_nonneg i), Int.toNat_natCast]
    rfl]
  -- the characters are those of the list, read below its length
  have hchars : (List.range bA.bits.toNat).map (fun i => jsonChar (bA.toBools.getD i false)) =
      bA.toBools.map jsonChar := by
    rw [show bA.toBools = (List.range bA.bits.toNat).map bA.bitAt from rfl, List.map_map]
    apply List.map_congr_left
    intro i hi
    rw [← show bA.toBools = (List.range bA.bits.toNat).map bA.bitAt from rfl, getD_toBools]
    simp [List.mem_range.mp hi]
  rw [hchars]
  rfl

theorem jsonBits_quoted {cs : List Char} (hcs : ∀ c ∈ cs, c = '_' ∨ c = 'x') :
    jsonBits ('"' :: cs ++ ['"']) = some cs := by
  have hall : cs.reverse.all (fun c => c = '_' ∨ c = 'x') = true := by
    simpa using hcs
  simp only [jsonBits, List.cons_append, List.reverse_append, List.reverse_cons, List.reverse_nil,
    List.nil_append]
  rw [if_pos hall, List.reverse_reverse]

theorem unmarshal_loop (bools : List Bool) (c₀ : BitArray) (hwf : c₀.WF) (hpad : c₀.PaddingZero)
    (hbits : c₀.bits.toNat = bools.length) (hzero : ∀ i, c₀.bitAt i = false) :
    ∀ k ≤ bools.length, ∃ c, GoSlice.loop k (fun i bA2 =>
        if (bools.map jsonChar)[i]? = some 'x' then (bA2.setIndex i true).map (·.1) else some bA2) c₀ = some c ∧
      c.WF ∧ c.PaddingZero ∧ c.bits = c₀.bits ∧ ∀ i, c.bitAt i = (decide (i < k) && bools.getD i false)
  | 0, _ => ⟨c₀, rfl, hwf, hpad, rfl, fun i => by simp [hzero i]⟩
  | k + 1, hk => by
    obtain ⟨c, hloop, hcwf, hcpad, hcbits, hcbit⟩ := unmarshal_loop bools c₀ hwf hpad hbits hzero k (by omega)
    have hchar : (bools.map jsonChar)[k]? = some (jsonChar (bools.getD k false)) := by
      rw [List.getElem?_map, List.getElem?_eq_getElem (by omega), List.getD_eq_getElem?_getD,
        List.getElem?_eq_getElem (by omega)]
      rfl
    have hk' : (k : Int) < c.bits := by omega
    rw [GoSlice.loop_succ, hloop, Option.bind_some, hchar]
    by_cases hset : bools.getD k false = true
    · -- an `x`: the bit is set, the others stay
      obtain ⟨c', hc', hc'wf, -, hc'pad⟩ := setIndex_toBools hcwf (Int.natCast_nonneg k) hk' true
      refine ⟨c', ?_, hc'wf, hc'pad hcpad, ?_, fun i => ?_⟩
      · simp only [hset, jsonChar, ↓reduceIte, hc', Option.map_some]
      · rw [(setIndex_shape hc').1, hcbits]
      · rw [setIndex_of_lt_eq hcwf (Int.natCast_nonneg k) hk' true] at hc'
        cases hc'
        rw [bitAt_setIndex hcwf (Int.natCast_nonneg k) hk' true, Int.toNat_natCast, hcbit]
        by_cases hik : i = k
        · subst hik
          rw [if_pos rfl, hset]
          simp
        · rw [if_neg hik, decide_eq_decide.mpr (show i < k ↔ i < k + 1 by omega)]
    · -- an `_`: nothing changes
      have hfalse : bools.getD k false = false := by simpa using hset
      refine ⟨c, ?_, hcwf, hcpad, hcbits, fun i => ?_⟩
      · simp only [hfalse, jsonChar, Bool.false_eq_true, ↓reduceIte, Option.some.injEq,
          show ('_' : Char) ≠ 'x' by decide]
      rw [hcbit]
      by_cases hik : i = k
      · subst hik
        rw [hfalse]
        simp
      · rw [decide_eq_decide.mpr (show i < k ↔ i < k + 1 by omega)]

/-- `MarshalJSON` then `UnmarshalJSON` gives back the array's bits, in a
fresh array with zero padding. -/
theorem unmarshalJSON_marshalJSON (h : bA.WF) (hpos : 0 < bA.bits) :
    ∃ s c, BitArrayPtr.marshalJSON (some bA) = some s ∧ unmarshalJSON s = some (.ok c) ∧
      c.WF ∧ c.PaddingZero ∧ c.toBools = bA.toBools := by
  have hcs : ∀ c ∈ bA.toBools.map jsonChar, c = '_' ∨ c = 'x' := by
    intro c hc
    obtain ⟨b, -, rfl⟩ := List.mem_map.mp hc
    cases b <;> simp [jsonChar]
  have hnull : ('"' :: bA.toBools.map jsonChar ++ ['"']) ≠ BitArrayPtr.jsonNull := by
    simp [BitArrayPtr.jsonNull]
  have hlen : (bA.toBools.length : Int) = bA.bits := by simp; omega
  -- the fresh array of the right size, all zero
  have hnew : newBitArray bA.bits = some ⟨bA.bits, List.replicate (numElems bA.bits).toNat 0⟩ := by
    rw [newBitArray, if_neg (by omega)]
  obtain ⟨hwf₀, hpad₀, -⟩ := newBitArray_toBools hnew
  have hzero : ∀ i, BitArray.bitAt ⟨bA.bits, List.replicate (numElems bA.bits).toNat 0⟩ i = false := by
    intro i
    simp [bitAt, List.getD_eq_getElem?_getD, List.getElem?_replicate]
    split_ifs <;> simp
  obtain ⟨c, hloop, hcwf, hcpad, hcbits, hcbit⟩ := unmarshal_loop bA.toBools
    ⟨bA.bits, List.replicate (numElems bA.bits).toNat 0⟩ hwf₀ hpad₀ (by simp) hzero bA.toBools.length
    (Nat.le_refl _)
  refine ⟨_, c, marshalJSON_eq h, ?_, hcwf, hcpad, ?_⟩
  · rw [unmarshalJSON, if_neg hnull, jsonBits_quoted hcs]
    simp only [List.length_map, hlen, hnew, hloop]
    rfl
  · rw [show bA.toBools = (List.range bA.bits.toNat).map bA.bitAt from rfl]
    refine toBools_eq_of_bitAt (by rw [hcbits]) fun i hi => ?_
    rw [hcbit, getD_toBools]
    simp [hi]

/-- `unmarshalJSON_marshalJSON` at the three bits `x_x`. -/
theorem unmarshalJSON_marshalJSON_threeBits :
    (⟨3, [5]⟩ : BitArray).WF ∧ ∃ s c, BitArrayPtr.marshalJSON (some ⟨3, [5]⟩) = some s ∧
      unmarshalJSON s = some (.ok c) ∧ c.WF ∧ c.PaddingZero ∧ c.toBools = [true, false, true] := by
  have hwf : (⟨3, [5]⟩ : BitArray).WF := by decide
  obtain ⟨s, c, hs, hc, hcwf, hpad, hbools⟩ := unmarshalJSON_marshalJSON hwf (by decide)
  exact ⟨hwf, s, c, hs, hc, hcwf, hpad, hbools.trans (by decide)⟩

end BitArray

/-! ## Where the arrays leave the list model -/

/-- Four runs from `NewBitArray` on which the code and the list model part.
`NewBitArray(1).Or(o)`, for `o` of 65 bits with bit 64 set, has bit 64
unset: the loop ors only the receiver's one word.  `Not` of a full array of
one bit sets the 63 padding bits, and `IsEmpty` of the result is `false`
although its one bit is not set; `Update` of `NewBitArray(1)` from a 2-bit
array with bit 1 set does the same.  `UnmarshalJSON` of `""` panics, and
`IsFull` panics on the array `UnmarshalJSON` makes of `null`. -/
theorem bitArray_diverges_from_bools :
    -- `Or` drops the second word of the longer operand
    newBitArray 1 = some ⟨1, [0]⟩ ∧
    ((newBitArray 65).bind fun o => (o.setIndex 64 true).map (·.1)) = some ⟨65, [0, 1]⟩ ∧
    BitArrayPtr.or (some ⟨1, [0]⟩) (some ⟨65, [0, 1]⟩) = some (some ⟨65, [0, 0]⟩) ∧
    (Bools.or (BitArray.toBools ⟨1, [0]⟩) (BitArray.toBools ⟨65, [0, 1]⟩)).getD 64 false = true ∧
    BitArray.getIndex ⟨65, [0, 0]⟩ 64 = some false ∧
    -- `Not` sets the padding, and `IsEmpty` reads it
    ((newBitArray 1).bind fun b => (b.setIndex 0 true).map (·.1)) = some ⟨1, [1]⟩ ∧
    BitArrayPtr.not (some ⟨1, [1]⟩) = some (some ⟨1, [18446744073709551614]⟩) ∧
    BitArray.toBools ⟨1, [18446744073709551614]⟩ = [false] ∧
    BitArrayPtr.isEmpty (some ⟨1, [18446744073709551614]⟩) = false ∧
    -- `Update` copies a set bit into the padding
    ((newBitArray 2).bind fun b => (b.setIndex 1 true).map (·.1)) = some ⟨2, [2]⟩ ∧
    BitArrayPtr.update (some ⟨1, [0]⟩) (some ⟨2, [2]⟩) = some ⟨1, [2]⟩ ∧
    BitArray.toBools ⟨1, [2]⟩ = [false] ∧
    BitArrayPtr.isEmpty (some ⟨1, [2]⟩) = false ∧
    -- `UnmarshalJSON` panics on `""`, and `IsFull` on what it makes of `null`
    BitArray.unmarshalJSON ['"', '"'] = none ∧
    BitArray.unmarshalJSON BitArrayPtr.jsonNull = some (.ok ⟨0, []⟩) ∧
    BitArrayPtr.isFull (some ⟨0, []⟩) = none := by
  refine ⟨by decide, by decide, by decide, by decide, by decide, by decide, by decide, by decide, by decide,
    by decide, by decide, by decide, by decide, rfl, rfl, by decide⟩

end Ostracon.Bits
