import Ostracon.Bits.BitArray
/-!
# When bit array operations panic

Whether an operation of `bit_array.go` panics depends on the shape of its
operands only: their sizes and how many words they hold.  For each operation
this module says when it panics, and what shape its result has.

* `setIndex` panics exactly at an index below the size whose word is missing
  (`setIndex_eq_none_iff`), and `getTrueIndices`, hence `PickRandom`, exactly
  on a negative size or an array without words (`getTrueIndices_eq_none_iff`).
* On well-formed arrays (`BitArray.WF`, the shape `NewBitArray` gives) no
  operation the reactor uses panics, and every result is well formed again.
  `Sub` and `Or` with a well-formed receiver keep that for any second operand,
  and `Update` keeps the receiver's shape whatever it copies from.
-/

namespace Ostracon.Bits

/-! ## Word counts -/

theorem numElems_eq {bits : Int} (h : 0 ≤ bits) : numElems bits = (bits + 63) / 64 :=
  Int.tdiv_eq_ediv_of_nonneg (by omega)

theorem numElems_nonneg {bits : Int} (h : 0 ≤ bits) : 0 ≤ numElems bits := by
  rw [numElems_eq h]
  omega

theorem numElems_pos {bits : Int} (h : 0 < bits) : 0 < numElems bits := by
  rw [numElems_eq (Int.le_of_lt h)]
  omega

theorem numElems_mono {a b : Int} (h0 : 0 ≤ a) (h : a ≤ b) : numElems a ≤ numElems b := by
  rw [numElems_eq h0, numElems_eq (by omega)]
  omega

theorem tdiv_lt_numElems {i bits : Int} (h0 : 0 ≤ i) (h : i < bits) :
    i.tdiv 64 < numElems bits := by
  rw [numElems_eq (by omega), Int.tdiv_eq_ediv_of_nonneg h0]
  omega

namespace BitArray

variable {bA c : BitArray}

@[simp] theorem copy_eq (bA : BitArray) : bA.copy = bA := by
  simp [copy, GoSlice.copy_replicate_length]

@[simp] theorem zero_fromProto (p : ProtoBitArray) : zero.fromProto (some p) = ⟨p.bits, p.elems⟩ := by
  by_cases hp : p.elems.length > 0
  · simp [fromProto, hp]
  · have : p.elems = [] := List.eq_nil_of_length_eq_zero (by omega)
    simp [fromProto, zero, this]

theorem WF.of_shape (h : bA.WF) (hbits : c.bits = bA.bits)
    (hlen : c.elems.length = bA.elems.length) : c.WF where
  bits_nonneg := hbits ▸ h.bits_nonneg
  elems_length := by rw [hlen, hbits, h.elems_length]

theorem WF.eq_nil_iff (h : bA.WF) : bA.elems = [] ↔ bA.bits = 0 := by
  have hlen := h.elems_length
  have hnn := h.bits_nonneg
  rw [numElems_eq hnn] at hlen
  rw [← List.length_eq_zero_iff]
  omega

/-! ## `setIndex` -/

theorem setIndex_eq_none_iff {i : Int} {v : Bool} :
    bA.setIndex i v = none ↔ i < bA.bits ∧ ¬(0 ≤ i.tdiv 64 ∧ i.tdiv 64 < bA.elems.length) := by
  by_cases hlt : i < bA.bits
  · rw [setIndex_of_lt v hlt, ← GoSlice.modify_eq_none_iff (f := setBit i v)]
    cases GoSlice.modify bA.elems (i.tdiv 64) (setBit i v) <;> simp [hlt]
  · simp [setIndex_of_le v (Int.not_lt.mp hlt), hlt]

theorem setIndex_shape {i : Int} {v r : Bool} (h : bA.setIndex i v = some (c, r)) :
    c.bits = bA.bits ∧ c.elems.length = bA.elems.length ∧ r = decide (i < bA.bits) := by
  by_cases hlt : i < bA.bits
  · rw [setIndex_of_lt v hlt] at h
    cases hm : GoSlice.modify bA.elems (i.tdiv 64) (setBit i v) with
    | none => simp [hm] at h
    | some elems =>
      simp only [hm, Option.bind_some, Option.some.injEq, Prod.mk.injEq] at h
      obtain ⟨rfl, rfl⟩ := h
      exact ⟨rfl, GoSlice.length_of_modify hm, (decide_eq_true hlt).symm⟩
  · rw [setIndex_of_le v (Int.not_lt.mp hlt), Option.some.injEq, Prod.mk.injEq] at h
    obtain ⟨rfl, rfl⟩ := h
    exact ⟨rfl, rfl, (decide_eq_false hlt).symm⟩

theorem WF.setIndex (h : bA.WF) {i : Int} (hi : 0 ≤ i) (v : Bool) :
    ∃ c, bA.setIndex i v = some (c, decide (i < bA.bits)) ∧ c.WF := by
  cases hs : bA.setIndex i v with
  | none =>
    obtain ⟨hlt, hout⟩ := setIndex_eq_none_iff.mp hs
    have hword := tdiv_lt_numElems hi hlt
    rw [← h.elems_length] at hword
    exact absurd ⟨Int.tdiv_nonneg hi (by decide), hword⟩ hout
  | some res =>
    obtain ⟨c, r⟩ := res
    obtain ⟨hbits, hlen, rfl⟩ := setIndex_shape hs
    exact ⟨c, rfl, h.of_shape hbits hlen⟩

/-! ## Fresh arrays and loops over words -/

theorem copyBits_of_nonneg {bits : Int} (h : 0 ≤ numElems bits) :
    ∃ c, bA.copyBits bits = some c ∧ c.bits = bits ∧
      (c.elems.length : Int) = numElems bits := by
  refine ⟨⟨bits, GoSlice.copy (List.replicate (numElems bits).toNat 0) bA.elems⟩, ?_, rfl, ?_⟩
  · rw [copyBits_eq, GoSlice.make_of_nonneg _ h, Option.bind_some]
  · simp only [GoSlice.length_copy, List.length_replicate]
    omega

theorem loop_combineAt (op : UInt64 → UInt64 → UInt64) {o : List UInt64} {n : Nat}
    (hc : n ≤ c.elems.length) (ho : n ≤ o.length) :
    ∃ c', GoSlice.loop n (combineAt op o) c = some c' ∧
      c'.bits = c.bits ∧ c'.elems.length = c.elems.length := by
  refine GoSlice.loop_inv (fun c' : BitArray => c'.bits = c.bits ∧ c'.elems.length = c.elems.length)
    (fun i hi c' hc' => ?_) ⟨rfl, rfl⟩
  obtain ⟨hbits, hlen⟩ := hc'
  have hx : (GoSlice.index o i).isSome := GoSlice.index_isSome_iff.mpr ⟨by omega, by omega⟩
  obtain ⟨x, hx⟩ := Option.isSome_iff_exists.mp hx
  have hm := GoSlice.modify_eq_some (s := c'.elems) (f := fun e => op e x)
    (Int.natCast_nonneg i) (by omega)
  refine ⟨{ c' with elems := c'.elems.modify i fun e => op e x }, ?_, hbits, ?_⟩
  · rw [combineAt_eq, hx, Option.bind_some, hm, Option.bind_some]
    rfl
  · simp [hlen]

theorem not_shape (bA : BitArray) :
    ∃ c, bA.not = some c ∧ c.bits = bA.bits ∧ c.elems.length = bA.elems.length := by
  unfold BitArray.not
  rw [copy_eq]
  refine GoSlice.loop_inv (fun c' : BitArray => c'.bits = bA.bits ∧ c'.elems.length = bA.elems.length)
    (fun i hi c' hc' => ?_) ⟨rfl, rfl⟩
  obtain ⟨hbits, hlen⟩ := hc'
  have hm := GoSlice.modify_eq_some (s := c'.elems) (f := fun e => ~~~e)
    (Int.natCast_nonneg i) (by omega)
  refine ⟨{ c' with elems := c'.elems.modify i fun e => ~~~e }, ?_, hbits, ?_⟩
  · rw [complementAt_eq, hm, Option.bind_some]
    rfl
  · simp [hlen]

/-! ## `getTrueIndices` -/

theorem wordTrueIndices_isSome {elems : List UInt64} {i : Nat} (hi : i < elems.length)
    (st : Int × List Int) : (wordTrueIndices elems i st).isSome := by
  have hx := GoSlice.index_natCast elems i
  rw [List.getElem?_eq_getElem hi] at hx
  unfold wordTrueIndices
  rw [hx, Option.bind_eq_bind, Option.bind_some]
  split <;> rfl

theorem loop_wordTrueIndices (elems : List UInt64) (st : Int × List Int) :
    ∃ st', GoSlice.loop (elems.length - 1) (wordTrueIndices elems) st = some st' := by
  have hbody : ∀ i < elems.length - 1, ∀ st : Int × List Int, True →
      ∃ st', wordTrueIndices elems i st = some st' ∧ True := fun i hi st _ =>
    ⟨_, (Option.some_get (wordTrueIndices_isSome (by omega) st)).symm, trivial⟩
  obtain ⟨st', h, -⟩ := GoSlice.loop_inv (fun _ => True) hbody (s := st) trivial
  exact ⟨st', h⟩

theorem getTrueIndices_eq_none_iff : bA.getTrueIndices = none ↔ bA.bits < 0 ∨ bA.elems = [] := by
  by_cases hneg : bA.bits < 0
  · simp [getTrueIndices, hneg]
  · obtain ⟨st, hst⟩ := loop_wordTrueIndices bA.elems (0, [])
    rw [getTrueIndices_of_nonneg (Int.not_lt.mp hneg), hst, Option.bind_some]
    cases hl : GoSlice.index bA.elems ((bA.elems.length : Int) - 1) with
    | none =>
      have := GoSlice.index_eq_none_iff.mp hl
      simp only [Option.bind_none, true_iff]
      exact Or.inr (List.eq_nil_of_length_eq_zero (by omega))
    | some x =>
      simp only [Option.bind_some, reduceCtorEq, false_iff, not_or]
      refine ⟨hneg, fun hnil => ?_⟩
      simp [hnil] at hl

theorem elemTrueIndices_succ (elem : UInt64) (n : Nat) (st : Int × List Int) :
    elemTrueIndices elem (n + 1) st =
      ((elemTrueIndices elem n st).1 + 1,
        if elem &&& shl1 n > 0 then (elemTrueIndices elem n st).2 ++ [(elemTrueIndices elem n st).1]
        else (elemTrueIndices elem n st).2) := by
  simp only [elemTrueIndices, List.range_succ, List.foldl_append, List.foldl_cons, List.foldl_nil]

theorem elemTrueIndices_nonneg (elem : UInt64) (n : Nat) {st : Int × List Int}
    (h : 0 ≤ st.1 ∧ ∀ x ∈ st.2, 0 ≤ x) :
    0 ≤ (elemTrueIndices elem n st).1 ∧ ∀ x ∈ (elemTrueIndices elem n st).2, 0 ≤ x := by
  induction n with
  | zero => simpa [elemTrueIndices] using h
  | succ n ih =>
    obtain ⟨hcur, hall⟩ := ih
    rw [elemTrueIndices_succ]
    refine ⟨by omega, fun x hx => ?_⟩
    split at hx
    · rcases List.mem_append.mp hx with hx | hx
      · exact hall x hx
      · rw [List.mem_singleton.mp hx]
        exact hcur
    · exact hall x hx

theorem wordTrueIndices_nonneg {elems : List UInt64} {i : Nat} {st st' : Int × List Int}
    (h : wordTrueIndices elems i st = some st') (hst : 0 ≤ st.1 ∧ ∀ x ∈ st.2, 0 ≤ x) :
    0 ≤ st'.1 ∧ ∀ x ∈ st'.2, 0 ≤ x := by
  unfold wordTrueIndices at h
  cases hx : GoSlice.index elems i with
  | none => simp [hx] at h
  | some elem =>
    rw [hx, Option.bind_eq_bind, Option.bind_some] at h
    split at h
    · cases h
      exact ⟨by omega, hst.2⟩
    · cases h
      exact elemTrueIndices_nonneg elem 64 hst

theorem getTrueIndices_nonneg {t : List Int} (h : bA.getTrueIndices = some t) : ∀ x ∈ t, 0 ≤ x := by
  have hbits : 0 ≤ bA.bits := Int.not_lt.mp fun hneg => by
    rw [getTrueIndices_eq_none_iff.mpr (Or.inl hneg)] at h
    cases h
  -- the loop over the words before the last keeps the scan position and
  -- every recorded index non-negative
  have hbody : ∀ i < bA.elems.length - 1, ∀ st : Int × List Int, (0 ≤ st.1 ∧ ∀ x ∈ st.2, 0 ≤ x) →
      ∃ st', wordTrueIndices bA.elems i st = some st' ∧ (0 ≤ st'.1 ∧ ∀ x ∈ st'.2, 0 ≤ x) := by
    intro i hi st hst
    obtain ⟨st', hst'⟩ :=
      Option.isSome_iff_exists.mp (@wordTrueIndices_isSome bA.elems i (by omega) st)
    exact ⟨st', hst', wordTrueIndices_nonneg hst' hst⟩
  obtain ⟨st, hloop, hst⟩ := GoSlice.loop_inv _ hbody (s := ((0 : Int), ([] : List Int)))
    ⟨Int.le_refl 0, fun _ hx => by cases hx⟩
  rw [getTrueIndices_of_nonneg hbits, hloop, Option.bind_some] at h
  cases hl : GoSlice.index bA.elems ((bA.elems.length : Int) - 1) with
  | none => simp [hl] at h
  | some lastElem =>
    rw [hl, Option.bind_some, Option.some.injEq] at h
    subst h
    exact (elemTrueIndices_nonneg lastElem _ hst).2

end BitArray

/-! ## The exported methods -/

namespace BitArrayPtr

open BitArray

variable {bA o : BitArrayPtr}

theorem pickRandom_eq_none_iff {b : BitArray} {r : Nat} :
    pickRandom (some b) r = none ↔ b.getTrueIndices = none := by
  rw [pickRandom_some]
  cases b.getTrueIndices with
  | none => simp
  | some t =>
    simp only [Option.bind_some, reduceCtorEq, iff_false]
    split
    · simp
    · have hlt : r % t.length < t.length := Nat.mod_lt _ (by omega)
      rw [GoSlice.index_natCast, List.getElem?_eq_getElem hlt]
      simp

@[simp] theorem wellFormed_none : BitArrayPtr.WellFormed none := fun _ h => by cases h

theorem pickRandom_nonneg {r : Nat} {picked : Int × Bool} (h : bA.pickRandom r = some picked) :
    0 ≤ picked.1 := by
  obtain ⟨i, ok⟩ := picked
  cases bA with
  | none =>
    cases h
    exact Int.le_refl 0
  | some b =>
    rw [pickRandom_some] at h
    cases ht : b.getTrueIndices with
    | none => simp [ht] at h
    | some t =>
      rw [ht, Option.bind_some] at h
      split at h
      · cases h
        exact Int.le_refl 0
      · obtain ⟨x, hx, hxi⟩ := Option.bind_eq_some_iff.mp h
        rw [Option.some.injEq, Prod.mk.injEq] at hxi
        obtain ⟨rfl, -⟩ := hxi
        exact getTrueIndices_nonneg ht x (GoSlice.mem_of_index_eq_some hx)

theorem newBitArray_wellFormed (bits : Int) : (newBitArray bits).WellFormed := by
  unfold newBitArray
  split
  · exact fun _ h => by cases h
  · rintro b ⟨⟩
    have : 0 < numElems bits := numElems_pos (by omega)
    refine ⟨⟨by dsimp only; omega, ?_⟩, by dsimp only; omega⟩
    simp only [List.length_replicate]
    omega

theorem WellFormed.copy (h : bA.WellFormed) : bA.copy.WellFormed := by
  cases bA with
  | none => exact fun _ h => by cases h
  | some b => simpa [BitArrayPtr.copy] using h

theorem WellFormed.setIndex (h : bA.WellFormed) {i : Int} (hi : 0 ≤ i) (v : Bool) :
    ∃ bA' r, bA.setIndex i v = some (bA', r) ∧ bA'.WellFormed := by
  cases bA with
  | none => exact ⟨none, false, rfl, fun _ h => by cases h⟩
  | some b =>
    obtain ⟨hwf, hpos⟩ := h b rfl
    obtain ⟨c, hc, hcwf⟩ := hwf.setIndex hi v
    obtain ⟨hbits, -⟩ := setIndex_shape hc
    refine ⟨some c, decide (i < b.bits), by simp [BitArrayPtr.setIndex, hc], ?_⟩
    rintro _ ⟨⟩
    exact ⟨hcwf, hbits ▸ hpos⟩

theorem sub_of_wf {b : BitArray} (hb : b.WF) (o : BitArray) :
    ∃ c, sub (some b) (some o) = some (some c) ∧ c.bits = b.bits ∧ c.WF := by
  obtain ⟨c₀, hc₀, hbits₀, hlen₀⟩ := b.copyBits_of_nonneg (numElems_nonneg hb.bits_nonneg)
  have hc : min b.elems.length o.elems.length ≤ c₀.elems.length := by
    have := hb.elems_length
    omega
  obtain ⟨c, hc, hbits, hlen⟩ := loop_combineAt (fun e x => e &&& ~~~x) hc (Nat.min_le_right _ _)
  refine ⟨c, by simp [BitArrayPtr.sub, hc₀, hc], by rw [hbits, hbits₀], ⟨?_, ?_⟩⟩
  · rw [hbits, hbits₀]
    exact hb.bits_nonneg
  · rw [hlen, hbits, hbits₀, hlen₀]

theorem or_of_wf {b : BitArray} (hb : b.WF) (o : BitArray) :
    ∃ c, BitArrayPtr.or (some b) (some o) = some (some c) ∧ c.bits = max b.bits o.bits ∧ c.WF := by
  have hle : b.bits ≤ max b.bits o.bits := Int.le_max_left _ _
  obtain ⟨c₀, hc₀, hbits₀, hlen₀⟩ :=
    b.copyBits_of_nonneg (numElems_nonneg (Int.le_trans hb.bits_nonneg hle))
  have hc : min b.elems.length o.elems.length ≤ c₀.elems.length := by
    have := hb.elems_length
    have := numElems_mono hb.bits_nonneg hle
    omega
  obtain ⟨c, hc, hbits, hlen⟩ := loop_combineAt (· ||| ·) hc (Nat.min_le_right _ _)
  refine ⟨c, by simp [BitArrayPtr.or, hc₀, hc], by rw [hbits, hbits₀], ⟨?_, ?_⟩⟩
  · rw [hbits, hbits₀]
    exact Int.le_trans hb.bits_nonneg hle
  · rw [hlen, hbits, hbits₀, hlen₀]

theorem or_isSome_of_wf {b : BitArray} (hb : b.WF) (o : BitArrayPtr) :
    ∃ c, BitArrayPtr.or (some b) o = some c := by
  cases o with
  | none => exact ⟨_, rfl⟩
  | some o =>
    obtain ⟨c, hc, -⟩ := or_of_wf hb o
    exact ⟨_, hc⟩

theorem WellFormed.sub (h : bA.WellFormed) (o : BitArrayPtr) :
    ∃ c, BitArrayPtr.sub bA o = some c ∧ c.WellFormed := by
  cases bA with
  | none => exact ⟨none, by cases o <;> rfl, fun _ h => by cases h⟩
  | some b =>
    cases o with
    | none => exact ⟨none, rfl, fun _ h => by cases h⟩
    | some o =>
      obtain ⟨hwf, hpos⟩ := h b rfl
      obtain ⟨c, hc, hbits, hcwf⟩ := sub_of_wf hwf o
      refine ⟨some c, hc, ?_⟩
      rintro _ ⟨⟩
      exact ⟨hcwf, hbits ▸ hpos⟩

theorem WellFormed.update (h : bA.WellFormed) (o : BitArrayPtr) : (bA.update o).WellFormed := by
  cases bA with
  | none => exact fun _ h => by cases h
  | some b =>
    cases o with
    | none => exact h
    | some o =>
      obtain ⟨hwf, hpos⟩ := h b rfl
      rintro _ ⟨⟩
      exact ⟨hwf.of_shape rfl (GoSlice.length_copy _ _), hpos⟩

theorem WellFormed.not (h : bA.WellFormed) : ∃ c, bA.not = some c ∧ c.WellFormed := by
  cases bA with
  | none => exact ⟨none, rfl, fun _ h => by cases h⟩
  | some b =>
    obtain ⟨hwf, hpos⟩ := h b rfl
    obtain ⟨c, hc, hbits, hlen⟩ := b.not_shape
    refine ⟨some c, by simp [BitArrayPtr.not, hc], ?_⟩
    rintro _ ⟨⟩
    exact ⟨hwf.of_shape hbits hlen, hbits ▸ hpos⟩

theorem WellFormed.pickRandom (h : bA.WellFormed) (r : Nat) : ∃ res, bA.pickRandom r = some res := by
  cases bA with
  | none => exact ⟨(0, false), rfl⟩
  | some b =>
    obtain ⟨hwf, hpos⟩ := h b rfl
    cases hp : BitArrayPtr.pickRandom (some b) r with
    | some res => exact ⟨res, rfl⟩
    | none =>
      rcases getTrueIndices_eq_none_iff.mp (pickRandom_eq_none_iff.mp hp) with hneg | hnil
      · omega
      · have := hwf.eq_nil_iff.mp hnil
        omega

theorem fromProto_toProto {b : BitArray} (hb : b.WF) :
    zero.fromProto (BitArrayPtr.toProto (some b)) = b := by
  by_cases hlen : b.elems.length = 0
  · have hnil : b.elems = [] := List.eq_nil_of_length_eq_zero hlen
    have hbits := hb.eq_nil_iff.mp hnil
    obtain ⟨bits, elems⟩ := b
    dsimp only at hnil hbits
    subst hnil hbits
    rfl
  · simp [BitArrayPtr.toProto, hlen]

end BitArrayPtr

end Ostracon.Bits
