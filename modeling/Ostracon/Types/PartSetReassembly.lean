import Ostracon.Types.PartSetRead
/-!
# Reassembling a block from its parts

A part set filled from a header by `AddPart` keeps one invariant over every
run, whatever parts a peer sends (`addParts_inv`): the bit array mirrors the
slots, `count` and `byteSize` total the filled slots, and each filled slot
holds a part whose `Index` is the slot and whose proof passes against the
set's hash.  From it:

* `complete_readBack` — a complete set reads back as the concatenation of
  the parts in its slots, `Count() = Total()`, and `ByteSize()` is the length
  of what is read;
* `addParts_readBack` — the same for a set built from a header, whatever
  parts were sent to it.

A part's proof is checked against the set's hash, not against its slot:
`AddPart` never compares `part.Index` with the index inside `part.Proof`.  `addPart_misplaced_part` sends the bytes and
proof of part 0 first as part 1, then as part 0: both are taken, the set is
complete, and it reads back `[0, 1, 0, 1]` for the data `[0, 1, 2]`.
-/

namespace Ostracon.Types

open Ostracon.Crypto.Merkle MerkleTree

variable (tmhash : Bytes → Bytes)

/-! ## One call of `AddPart` -/

theorem addPart_total (ps : PartSet) (part : Part) :
    (ps.addPart tmhash part).2.total = ps.total := by
  unfold PartSet.addPart
  split_ifs
  · rfl
  · dsimp only
    split_ifs
    · rfl
    · split <;> rfl

theorem addPart_hash (ps : PartSet) (part : Part) :
    (ps.addPart tmhash part).2.hash = ps.hash := by
  unfold PartSet.addPart
  split_ifs
  · rfl
  · dsimp only
    split_ifs
    · rfl
    · split <;> rfl

theorem addPart_of_rejected {ps : PartSet} {part : Part}
    (h : (ps.addPart tmhash part).1.1 = false) : (ps.addPart tmhash part).2 = ps := by
  revert h
  unfold PartSet.addPart
  split_ifs
  · exact fun _ => rfl
  · dsimp only
    split_ifs
    · exact fun _ => rfl
    · split
      · exact fun _ => rfl
      · exact fun h => by cases h

theorem addPart_of_accepted {ps : PartSet} {part : Part}
    (h : (ps.addPart tmhash part).1.1 = true) :
    ∃ hlt : part.index.toNat < ps.parts.length,
      ps.parts[part.index.toNat] = none ∧
      part.proof.verify tmhash ps.hash part.bytes = .ok () ∧
      (ps.addPart tmhash part).1 = (true, none) ∧
      (ps.addPart tmhash part).2.parts = ps.parts.set part.index.toNat (some part) ∧
      (ps.addPart tmhash part).2.partsBitArray = ps.partsBitArray.set part.index.toNat true ∧
      (ps.addPart tmhash part).2.count = ps.count + 1 ∧
      (ps.addPart tmhash part).2.byteSize = ps.byteSize + part.bytes.length := by
  revert h
  unfold PartSet.addPart
  split_ifs with hge
  · exact fun h => by cases h
  · have hlt : part.index.toNat < ps.parts.length := by
      rw [ps.parts_length]
      exact UInt32.lt_iff_toNat_lt.mp (UInt32.not_le.mp hge)
    dsimp only
    split_ifs with hsome
    · exact fun h => by cases h
    · split
      · exact fun h => by cases h
      · rename_i hver
        exact fun _ => ⟨hlt, Option.not_isSome_iff_eq_none.mp hsome, hver, rfl, rfl, rfl, rfl, rfl⟩

theorem addPart_accepts {ps : PartSet} {part : Part} (hlt : part.index < ps.total)
    (hempty : ps.parts[part.index.toNat]? = some none)
    (hver : part.proof.verify tmhash ps.hash part.bytes = .ok ()) :
    (ps.addPart tmhash part).1 = (true, none) := by
  have hge : ¬ part.index ≥ ps.total := UInt32.not_le.mpr hlt
  have hlen : part.index.toNat < ps.parts.length := by
    rw [ps.parts_length]
    exact UInt32.lt_iff_toNat_lt.mp hlt
  have hnone : ps.parts[part.index.toNat] = none := by
    rw [List.getElem?_eq_getElem hlen] at hempty
    exact Option.some.inj hempty
  unfold PartSet.addPart
  rw [dif_neg hge]
  simp only [hnone, Option.isSome_none, Bool.false_eq_true, if_false, hver]

/-! ## The invariant over runs -/

/-- The bytes a slot adds to `byteSize`. -/
def slotSize : Option Part → Int
  | some p => p.bytes.length
  | none => 0

/-- The invariant of a part set filled from a header. -/
structure PartSet.Inv (ps : PartSet) : Prop where
  bitArray_eq : ps.partsBitArray = ps.parts.map Option.isSome
  count_eq : ps.count.toNat = ps.parts.countP Option.isSome
  byteSize_eq : ps.byteSize = (ps.parts.map slotSize).sum
  slot : ∀ (j : Nat) (p : Part), ps.parts[j]? = some (some p) →
    p.index.toNat = j ∧ p.proof.verify tmhash ps.hash p.bytes = .ok ()

theorem newPartSetFromHeader_inv (header : PartSetHeader) :
    (newPartSetFromHeader header).Inv tmhash where
  bitArray_eq := by simp [newPartSetFromHeader, List.map_replicate]
  count_eq := by simp [newPartSetFromHeader, List.countP_replicate]
  byteSize_eq := by simp [newPartSetFromHeader, List.map_replicate, slotSize]
  slot j p h := by
    simp only [newPartSetFromHeader, List.getElem?_replicate] at h
    split_ifs at h
    cases h

theorem count_set_of_none {ps : PartSet} {j : Nat} (hlt : j < ps.parts.length)
    (hnone : ps.parts[j] = none) (part : Part) :
    (ps.parts.set j (some part)).countP Option.isSome = ps.parts.countP Option.isSome + 1 ∧
      ps.parts.countP Option.isSome + 1 ≤ ps.parts.length := by
  have hset := List.countP_set (p := Option.isSome) (a := some part) hlt
  simp only [hnone, Option.isSome_none, Bool.false_eq_true, if_false, Option.isSome_some,
    if_true, Nat.sub_zero] at hset
  have hle := List.countP_le_length (p := Option.isSome) (l := ps.parts.set j (some part))
  rw [List.length_set] at hle
  omega

theorem addPart_inv {ps : PartSet} (hinv : ps.Inv tmhash) (part : Part) :
    (ps.addPart tmhash part).2.Inv tmhash := by
  cases hb : (ps.addPart tmhash part).1.1 with
  | false =>
      rw [addPart_of_rejected tmhash hb]
      exact hinv
  | true =>
      obtain ⟨hlt, hnone, hver, -, hparts, hbits, hcount, hsize⟩ := addPart_of_accepted tmhash hb
      obtain ⟨hset, hbound⟩ := count_set_of_none hlt hnone part
      have htotal : ps.parts.length < 2 ^ 32 := by
        rw [ps.parts_length]
        exact ps.total.toNat_lt
      constructor
      · rw [hparts, hbits, hinv.bitArray_eq, List.map_set]
        rfl
      · rw [hparts, hcount, UInt32.toNat_add, hinv.count_eq, hset]
        simp only [UInt32.reduceToNat]
        omega
      · rw [hparts, hsize, hinv.byteSize_eq, List.map_set, List.sum_set']
        simp [hlt, hnone, slotSize]
      · -- the new slot holds the part just checked; every other slot is as before
        intro j p hj
        rw [hparts, List.getElem?_set] at hj
        rw [addPart_hash]
        split_ifs at hj with hidx
        · obtain rfl := Option.some.inj (Option.some.inj hj)
          exact ⟨hidx, hver⟩
        · exact hinv.slot j p hj

theorem addParts_inv {ps : PartSet} (hinv : ps.Inv tmhash) (parts : List Part) :
    (ps.addParts tmhash parts).Inv tmhash := by
  induction parts generalizing ps with
  | nil => exact hinv
  | cons part rest ih => exact ih (addPart_inv tmhash hinv part)

theorem addParts_total (ps : PartSet) (parts : List Part) :
    (ps.addParts tmhash parts).total = ps.total := by
  induction parts generalizing ps with
  | nil => rfl
  | cons part rest ih =>
      show ((ps.addPart tmhash part).2.addParts tmhash rest).total = ps.total
      rw [ih, addPart_total]

theorem addParts_hash (ps : PartSet) (parts : List Part) :
    (ps.addParts tmhash parts).hash = ps.hash := by
  induction parts generalizing ps with
  | nil => rfl
  | cons part rest ih =>
      show ((ps.addPart tmhash part).2.addParts tmhash rest).hash = ps.hash
      rw [ih, addPart_hash]

/-! ## Reading a complete set -/

theorem mapM_id_of_isSome {α : Type} {l : List (Option α)} (h : ∀ o ∈ l, o.isSome) :
    ∃ xs : List α, l.mapM id = some xs ∧ l = xs.map some := by
  induction l with
  | nil => exact ⟨[], rfl, rfl⟩
  | cons o l ih =>
      obtain ⟨x, rfl⟩ := Option.isSome_iff_exists.mp (h o List.mem_cons_self)
      obtain ⟨xs, hxs, rfl⟩ := ih (fun o' ho' => h o' (List.mem_cons_of_mem _ ho'))
      exact ⟨x :: xs, by simp [hxs], rfl⟩

theorem sum_slotSize (parts : List Part) :
    ((parts.map some).map slotSize).sum = ((parts.flatMap Part.bytes).length : Int) := by
  induction parts with
  | nil => rfl
  | cons p ps ih =>
      simp only [List.map_cons, List.sum_cons, List.flatMap_cons, List.length_append, ih,
        slotSize]
      push_cast
      rfl

/-- A complete set: its slots hold parts with their own index and a passing
proof, `Count() = Total()`, `ByteSize()` is the number of bytes read back,
and reading to EOF yields the slots' bytes in slot order. -/
theorem complete_readBack {ps : PartSet} (hinv : ps.Inv tmhash) (hc : ps.isComplete = true)
    (hpos : 0 < ps.total.toNat) :
    ∃ parts : List Part, ps.parts = parts.map some ∧
      (∀ j (hj : j < parts.length), parts[j].index.toNat = j ∧
        parts[j].proof.verify tmhash ps.hash parts[j].bytes = .ok ()) ∧
      ps.count = ps.total ∧ ps.byteSize = (parts.flatMap Part.bytes).length ∧
      ∃ psr, ps.getReader = some psr ∧ ∀ ms : List Nat, (∀ m ∈ ms, 0 < m) →
        (parts.flatMap Part.bytes).length < ms.sum →
        psr.readToEOF ms = some (parts.flatMap Part.bytes) := by
  have hcount : ps.count = ps.total := by simpa [PartSet.isComplete] using hc
  -- a complete set has every slot filled
  have hfull : ps.parts.countP Option.isSome = ps.parts.length := by
    rw [← hinv.count_eq, hcount, ps.parts_length]
  obtain ⟨parts, hmapM, hparts⟩ := mapM_id_of_isSome (List.countP_eq_length.mp hfull)
  have hne : parts ≠ [] := by
    intro hnil
    have := ps.parts_length
    rw [hparts, hnil] at this
    simp at this
    omega
  refine ⟨parts, hparts, ?_, hcount, ?_, ?_⟩
  · intro j hj
    exact hinv.slot j parts[j] (by simp [hparts, hj])
  · rw [hinv.byteSize_eq, hparts, sum_slotSize]
  · refine ⟨newPartSetReader parts hne, ?_, fun ms hms hsize => ?_⟩
    · simp [PartSet.getReader, hc, hmapM, hne]
    · rw [readToEOF_eq_remaining _ ms hms (by rwa [newPartSetReader_remaining]),
        newPartSetReader_remaining]

/-- Whatever parts a peer sends, once the set built from a header is
complete it reads back as the bytes of its slots, with the count and byte
size that say so. -/
theorem addParts_readBack (header : PartSetHeader) (sent : List Part)
    (hc : ((newPartSetFromHeader header).addParts tmhash sent).isComplete = true)
    (hpos : 0 < header.total.toNat) :
    ∃ parts : List Part, ((newPartSetFromHeader header).addParts tmhash sent).parts = parts.map some ∧
      (∀ j (hj : j < parts.length), parts[j].index.toNat = j ∧
        parts[j].proof.verify tmhash header.hash parts[j].bytes = .ok ()) ∧
      ((newPartSetFromHeader header).addParts tmhash sent).count = header.total ∧
      ((newPartSetFromHeader header).addParts tmhash sent).byteSize =
        (parts.flatMap Part.bytes).length ∧
      ∃ psr, ((newPartSetFromHeader header).addParts tmhash sent).getReader = some psr ∧
        ∀ ms : List Nat, (∀ m ∈ ms, 0 < m) → (parts.flatMap Part.bytes).length < ms.sum →
          psr.readToEOF ms = some (parts.flatMap Part.bytes) := by
  have hinv := addParts_inv tmhash (newPartSetFromHeader_inv tmhash header) sent
  have htotal : ((newPartSetFromHeader header).addParts tmhash sent).total = header.total :=
    addParts_total tmhash (newPartSetFromHeader header) sent
  have hhash : ((newPartSetFromHeader header).addParts tmhash sent).hash = header.hash :=
    addParts_hash tmhash (newPartSetFromHeader header) sent
  obtain ⟨parts, hparts, hslots, hcount, hsize, hread⟩ :=
    complete_readBack tmhash hinv hc (by rw [htotal]; exact hpos)
  refine ⟨parts, hparts, ?_, by rw [hcount, htotal], hsize, hread⟩
  intro j hj
  rw [← hhash]
  exact hslots j hj

/-! ## The part set of `NewPartSetFromData` -/

/-- The chunks `NewPartSetFromData` cuts the data into, for `total` parts. -/
def chunksOf (data : Bytes) (partSize total : UInt32) : List Bytes :=
  ((List.range total.toNat).map UInt32.ofNat).map (partBytes data partSize)

/-- What `NewPartSetFromData` builds when it does not panic: the part count,
the root of the chunks as hash, and in slot `j` part `j` with chunk `j` and
the honest proof of index `j`. -/
theorem newPartSetFromData_eq_some {data : Bytes} {partSize : UInt32} {ps : PartSet}
    (h : newPartSetFromData tmhash data partSize = some ps) :
    ps.total = (UInt32.ofNat data.length + partSize - 1) / partSize ∧
      ps.hash = hashFromByteSlices tmhash (chunksOf data partSize ps.total) ∧
      ∀ j (hj : j < (chunksOf data partSize ps.total).length),
        ps.parts[j]? = some (some
          { index := UInt32.ofNat j, bytes := (chunksOf data partSize ps.total)[j],
            proof := ⟨(chunksOf data partSize ps.total).length, j,
              leafHash tmhash (chunksOf data partSize ps.total)[j],
              (auditPath (merkleHasher tmhash) splitter (chunksOf data partSize ps.total) j).reverse⟩ }) := by
  unfold newPartSetFromData at h
  split_ifs at h
  dsimp only at h
  split_ifs at h
  obtain rfl := Option.some.inj h
  refine ⟨rfl, proofsFromByteSlices_root tmhash _, fun j hj => ?_⟩
  unfold chunksOf at hj ⊢
  dsimp only at hj ⊢
  have hz : (_ : List (Bytes × Proof))[j]? = some (_, _) := List.getElem?_zip_eq_some.mpr
    ⟨List.getElem?_eq_getElem hj, proofsFromByteSlices_getElem? tmhash _ j hj⟩
  simp only [List.getElem?_mapIdx]
  rw [hz]
  rfl

/-- Two parts taken one after the other by an empty set of two slots
complete it. -/
theorem addPart_addPart_isComplete {ps : PartSet} {p q : Part} (htotal : ps.total = 2)
    (hcount : ps.count = 0) (h₁ : (ps.addPart tmhash p).1 = (true, none))
    (h₂ : ((ps.addPart tmhash p).2.addPart tmhash q).1 = (true, none)) :
    ((ps.addPart tmhash p).2.addPart tmhash q).2.isComplete = true := by
  obtain ⟨-, -, -, -, -, -, hcount₁, -⟩ := addPart_of_accepted tmhash (congrArg Prod.fst h₁)
  obtain ⟨-, -, -, -, -, -, hcount₂, -⟩ := addPart_of_accepted tmhash (congrArg Prod.fst h₂)
  have htot : ((ps.addPart tmhash p).2.addPart tmhash q).2.total = 2 := by
    rw [addPart_total, addPart_total, htotal]
  rw [PartSet.isComplete, hcount₂, hcount₁, hcount, htot]
  rfl

/-- `NewPartSetFromData([0, 1, 2], 2)` cuts the data into `[0, 1]` and `[2]`:
slot `j` holds part `j` with its honest proof, and a set built from the
header starts with both slots empty. -/
theorem newPartSetFromData_threeBytes {ps₀ : PartSet}
    (hps₀ : newPartSetFromData tmhash [0, 1, 2] 2 = some ps₀) :
    ps₀.total = 2 ∧ (newPartSetFromHeader ps₀.header).parts = [none, none] ∧
      ∃ part₀ part₁ : Part, ps₀.parts[0]? = some (some part₀) ∧ ps₀.parts[1]? = some (some part₁) ∧
        part₀.index = 0 ∧ part₁.index = 1 ∧ part₀.bytes = [0, 1] ∧
        part₀.proof.verify tmhash ps₀.hash part₀.bytes = .ok () ∧
        part₁.proof.verify tmhash ps₀.hash part₁.bytes = .ok () := by
  obtain ⟨htotal, hhash, hparts⟩ := newPartSetFromData_eq_some tmhash hps₀
  have htwo : ps₀.total = 2 := by rw [htotal]; decide
  have hchunks : chunksOf [0, 1, 2] 2 ps₀.total = [[0, 1], [2]] := by rw [htwo]; decide
  have hpart₀ := hparts 0 (by rw [hchunks]; decide)
  have hpart₁ := hparts 1 (by rw [hchunks]; decide)
  simp only [hchunks] at hpart₀ hpart₁ hhash
  have hver₀ := verify_honest tmhash [[0, 1], [2]] 0 (by decide)
  have hver₁ := verify_honest tmhash [[0, 1], [2]] 1 (by decide)
  rw [← hhash] at hver₀ hver₁
  have hempty : (newPartSetFromHeader ps₀.header).parts = [none, none] := by
    show List.replicate ps₀.total.toNat none = _
    rw [htwo]
    rfl
  exact ⟨htwo, hempty, _, _, hpart₀, hpart₁, rfl, rfl, rfl, hver₀, hver₁⟩

/-! ## A part at the wrong slot -/

/-- For every hash, a set built from the header of
`NewPartSetFromData([0, 1, 2], 2)` takes part 0, bytes and proof unchanged,
first as part 1 and then as part 0: it is complete, `ByteSize()` is 4 and
it reads back `[0, 1, 0, 1]`, where the data is `[0, 1, 2]` of 3 bytes. -/
theorem addPart_misplaced_part :
    ∃ ps₀ : PartSet, newPartSetFromData tmhash [0, 1, 2] 2 = some ps₀ ∧
      ∃ part₀ : Part, ps₀.parts[0]? = some (some part₀) ∧ part₀.bytes = [0, 1] ∧
        let ps₁ := (newPartSetFromHeader ps₀.header).addPart tmhash { part₀ with index := 1 }
        let ps₂ := ps₁.2.addPart tmhash part₀
        ps₁.1 = (true, none) ∧ ps₂.1 = (true, none) ∧ ps₂.2.isComplete = true ∧
          ps₂.2.byteSize = 4 ∧
          ∃ psr, ps₂.2.getReader = some psr ∧ psr.readToEOF [512] = some [0, 1, 0, 1] := by
  obtain ⟨ps₀, hps₀⟩ : ∃ ps₀, newPartSetFromData tmhash [0, 1, 2] 2 = some ps₀ := ⟨_, rfl⟩
  obtain ⟨htwo, hempty₀, part₀, -, hget₀, -, hidx₀, -, hbytes₀, hver₀, -⟩ :=
    newPartSetFromData_threeBytes tmhash hps₀
  refine ⟨ps₀, hps₀, part₀, hget₀, hbytes₀, ?_⟩
  intro ps₁ ps₂
  -- the honest proof of part 0 passes whatever slot it is sent for
  have hacc₁ : ps₁.1 = (true, none) :=
    addPart_accepts tmhash (by show (1 : UInt32) < ps₀.total; rw [htwo]; decide)
      (by rw [hempty₀]; rfl) hver₀
  obtain ⟨-, -, -, -, hparts₁, -, -, hsize₁⟩ :=
    addPart_of_accepted tmhash (congrArg Prod.fst hacc₁)
  rw [hempty₀] at hparts₁
  have hacc₂ : ps₂.1 = (true, none) :=
    addPart_accepts tmhash
      (by rw [addPart_total, hidx₀]; show (0 : UInt32) < ps₀.total; rw [htwo]; decide)
      (by rw [hparts₁, hidx₀]; rfl) (by rw [addPart_hash]; exact hver₀)
  obtain ⟨-, -, -, -, hparts₂, -, -, hsize₂⟩ :=
    addPart_of_accepted tmhash (congrArg Prod.fst hacc₂)
  have hslots : ps₂.2.parts = [some part₀, some { part₀ with index := 1 }] := by
    rw [hparts₂, hparts₁, hidx₀]
    rfl
  have hcomplete : ps₂.2.isComplete = true := addPart_addPart_isComplete tmhash htwo rfl hacc₁ hacc₂
  refine ⟨hacc₁, hacc₂, hcomplete, ?_, ?_⟩
  · rw [hsize₂, hsize₁, hbytes₀]
    rfl
  · -- both slots hold the bytes of part 0, and the reader delivers them twice
    have hget : ps₂.2.getReader =
        some (newPartSetReader [part₀, { part₀ with index := 1 }] (List.cons_ne_nil _ _)) := by
      simp only [PartSet.getReader, hcomplete, hslots]
      rfl
    refine ⟨_, hget, ?_⟩
    have hall : ([part₀, { part₀ with index := 1 }] : List Part).flatMap Part.bytes = [0, 1, 0, 1] := by
      simp [hbytes₀]
    rw [readToEOF_eq_remaining _ [512] (by simp) (by rw [newPartSetReader_remaining, hall]; decide),
      newPartSetReader_remaining, hall]

/-- `addParts_readBack` for the set built from the header of
`NewPartSetFromData([0, 1, 2], 2)` under the identity as hash, sent its two
honest parts, the second first. -/
theorem addParts_readBack_reversed :
    ∃ ps₀ : PartSet, newPartSetFromData id [0, 1, 2] 2 = some ps₀ ∧ ∃ part₀ part₁ : Part,
      ps₀.parts[0]? = some (some part₀) ∧ ps₀.parts[1]? = some (some part₁) ∧
      ((newPartSetFromHeader ps₀.header).addParts id [part₁, part₀]).isComplete = true ∧
      ∃ parts : List Part, ((newPartSetFromHeader ps₀.header).addParts id [part₁, part₀]).parts =
          parts.map some ∧
        (∀ j (hj : j < parts.length), parts[j].index.toNat = j ∧
          parts[j].proof.verify id ps₀.header.hash parts[j].bytes = .ok ()) ∧
        ((newPartSetFromHeader ps₀.header).addParts id [part₁, part₀]).count = ps₀.header.total ∧
        ((newPartSetFromHeader ps₀.header).addParts id [part₁, part₀]).byteSize =
          (parts.flatMap Part.bytes).length ∧
        ∃ psr, ((newPartSetFromHeader ps₀.header).addParts id [part₁, part₀]).getReader = some psr ∧
          ∀ ms : List Nat, (∀ m ∈ ms, 0 < m) → (parts.flatMap Part.bytes).length < ms.sum →
            psr.readToEOF ms = some (parts.flatMap Part.bytes) := by
  obtain ⟨ps₀, hps₀⟩ : ∃ ps₀, newPartSetFromData id [0, 1, 2] 2 = some ps₀ := ⟨_, rfl⟩
  obtain ⟨htwo, hempty, part₀, part₁, hget₀, hget₁, hidx₀, hidx₁, -, hv₀, hv₁⟩ :=
    newPartSetFromData_threeBytes id hps₀
  -- part 1 goes into the empty slot 1, then part 0 into slot 0
  have hacc₁ : ((newPartSetFromHeader ps₀.header).addPart id part₁).1 = (true, none) :=
    addPart_accepts id (by rw [hidx₁]; show (1 : UInt32) < ps₀.total; rw [htwo]; decide)
      (by rw [hempty, hidx₁]; rfl) hv₁
  obtain ⟨-, -, -, -, hparts₁, -, -, -⟩ := addPart_of_accepted id (congrArg Prod.fst hacc₁)
  have hacc₂ : (((newPartSetFromHeader ps₀.header).addPart id part₁).2.addPart id part₀).1 =
      (true, none) :=
    addPart_accepts id
      (by rw [addPart_total, hidx₀]; show (0 : UInt32) < ps₀.total; rw [htwo]; decide)
      (by rw [hparts₁, hempty, hidx₀, hidx₁]; rfl) (by rw [addPart_hash]; exact hv₀)
  have hcomplete : ((newPartSetFromHeader ps₀.header).addParts id [part₁, part₀]).isComplete = true :=
    addPart_addPart_isComplete id htwo rfl hacc₁ hacc₂
  exact ⟨ps₀, hps₀, part₀, part₁, hget₀, hget₁, hcomplete,
    addParts_readBack id ps₀.header [part₁, part₀] hcomplete (by show 0 < ps₀.total.toNat; rw [htwo]; decide)⟩

end Ostracon.Types
