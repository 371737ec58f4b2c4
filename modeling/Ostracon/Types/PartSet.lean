import Ostracon.Crypto.MerkleProof
import Mathlib.Algebra.BigOperators.Group.List.Basic
/-!
# `types/part_set.go`: block parts

The model of `PartSet` as the consensus reactor uses it: a proposer cuts a
block into parts with `NewPartSetFromData`, a receiver starts from the header
with `NewPartSetFromHeader`, adds parts one by one with `AddPart`, and once
the set is complete reads the block back through `GetReader`.

* Lengths and indices that are `uint32` in Go are `UInt32`, so that the part
  count of `NewPartSetFromData` wraps as it does there; `byteSize` is an
  `int64` that no run of the model can overflow and is kept as an `Int`.
* A `PartSet` carries as fields the two facts every indexing of the code
  relies on: it has one slot and one bit per part.
* A Go panic (division by zero, a slice with its bounds crossed, reading an
  incomplete set) is `none`.
* `PartSetReader.Read` calls itself twice in a row on the same reader.  Its
  result carries the reader it leaves behind, together with the two facts
  the termination argument needs: the parts are unchanged and the current
  part never moves back.
-/

namespace Ostracon.Types

open Ostracon.Crypto.Merkle

/-- `Part`. -/
structure Part where
  index : UInt32
  bytes : Bytes
  proof : Proof
  deriving DecidableEq, Repr

/-- `PartSetHeader`. -/
structure PartSetHeader where
  total : UInt32
  hash : Bytes
  deriving DecidableEq, Repr

/-- The two errors of `AddPart`. -/
inductive PartSetError
  /-- "error part set unexpected index" -/
  | unexpectedIndex
  /-- "error part set invalid proof" -/
  | invalidProof
  deriving DecidableEq, Repr

/-- `PartSet`, without its mutex.  `parts` holds `nil` as `none`, and
`partsBitArray` is the `bits.BitArray` as a list of bits. -/
structure PartSet where
  total : UInt32
  hash : Bytes
  parts : List (Option Part)
  partsBitArray : List Bool
  count : UInt32
  byteSize : Int
  parts_length : parts.length = total.toNat
  bitArray_length : partsBitArray.length = total.toNat

/-! ## Building a part set -/

/-- The low bound `i*partSize` of the slice of part `i`, in `uint32`. -/
def partLow (partSize i : UInt32) : Nat := (i * partSize).toNat

/-- The high bound `MinInt(len(data), int((i+1)*partSize))` of the slice of
part `i`; the product is taken in `uint32`. -/
def partHigh (data : Bytes) (partSize i : UInt32) : Nat :=
  min data.length ((i + 1) * partSize).toNat

/-- `data[i*partSize : MinInt(len(data), int((i+1)*partSize))]`. -/
def partBytes (data : Bytes) (partSize i : UInt32) : Bytes :=
  (data.take (partHigh data partSize i)).drop (partLow partSize i)

section Build

variable (tmhash : Bytes → Bytes)

/-- `NewPartSetFromData`; `none` where the Go code panics: on a zero
`partSize` (integer division by zero) and where a slice has its low bound
above its high bound, which the `uint32` products can cause. -/
def newPartSetFromData (data : Bytes) (partSize : UInt32) : Option PartSet :=
  if partSize = 0 then none
  else
    let total : UInt32 := (UInt32.ofNat data.length + partSize - 1) / partSize
    let idxs : List UInt32 := (List.range total.toNat).map UInt32.ofNat
    if idxs.all fun i => partLow partSize i ≤ partHigh data partSize i then
      let partsBytes := idxs.map (partBytes data partSize)
      let rootProofs := proofsFromByteSlices tmhash partsBytes
      some
        { total := total
          hash := rootProofs.1
          parts := (partsBytes.zip rootProofs.2).mapIdx fun i bp =>
            some { index := UInt32.ofNat i, bytes := bp.1, proof := bp.2 }
          partsBitArray := List.replicate total.toNat true
          count := total
          byteSize := data.length
          parts_length := by
            simp [partsBytes, rootProofs, idxs, proofsFromByteSlices_length]
          bitArray_length := List.length_replicate }
    else none

end Build

/-- `NewPartSetFromHeader`. -/
def newPartSetFromHeader (header : PartSetHeader) : PartSet where
  total := header.total
  hash := header.hash
  parts := List.replicate header.total.toNat none
  partsBitArray := List.replicate header.total.toNat false
  count := 0
  byteSize := 0
  parts_length := List.length_replicate
  bitArray_length := List.length_replicate

/-- `PartSet.Header`. -/
def PartSet.header (ps : PartSet) : PartSetHeader :=
  { total := ps.total, hash := ps.hash }

/-- `PartSet.IsComplete`. -/
def PartSet.isComplete (ps : PartSet) : Bool := ps.count == ps.total

/-! ## Adding a part -/

section AddPart

variable (tmhash : Bytes → Bytes)

/-- `PartSet.AddPart`: the returned `(bool, error)` pair and the part set
after the call.  The slot lookup is in range because `part.Index < total`
and the set has one slot per part. -/
def PartSet.addPart (ps : PartSet) (part : Part) : (Bool × Option PartSetError) × PartSet :=
  if h : part.index ≥ ps.total then ((false, some .unexpectedIndex), ps)
  else
    have hlt : part.index.toNat < ps.parts.length := by
      rw [ps.parts_length]
      exact UInt32.lt_iff_toNat_lt.mp (UInt32.not_le.mp h)
    if (ps.parts[part.index.toNat]).isSome then ((false, none), ps)
    else
      match part.proof.verify tmhash ps.hash part.bytes with
      | .error _ => ((false, some .invalidProof), ps)
      | .ok () =>
          ((true, none),
            { ps with
              parts := ps.parts.set part.index.toNat (some part)
              partsBitArray := ps.partsBitArray.set part.index.toNat true
              count := ps.count + 1
              byteSize := ps.byteSize + part.bytes.length
              parts_length := by rw [List.length_set, ps.parts_length]
              bitArray_length := by rw [List.length_set, ps.bitArray_length] })

/-- The part set after adding `parts` in order, as the consensus state does
with the block parts it receives. -/
def PartSet.addParts (ps : PartSet) (parts : List Part) : PartSet :=
  parts.foldl (fun ps part => (ps.addPart tmhash part).2) ps

end AddPart

/-! ## Reading a complete part set back -/

/-- The error `io.EOF`, the only one the readers return. -/
inductive IoError
  | eof
  deriving DecidableEq, Repr

/-- `bytes.Reader`: the bytes and the read position. -/
structure BytesReader where
  s : Bytes
  i : Nat
  deriving DecidableEq, Repr

/-- `bytes.Reader.Len`: the number of unread bytes. -/
def BytesReader.len (r : BytesReader) : Nat := r.s.length - r.i

/-- `bytes.Reader.Read` into a buffer of `m` bytes: the bytes written, the
error, and the reader after the call. -/
def BytesReader.read (r : BytesReader) (m : Nat) : (Bytes × Option IoError) × BytesReader :=
  if r.i ≥ r.s.length then (([], some .eof), r)
  else
    let n := (r.s.drop r.i).take m
    ((n, none), { r with i := r.i + n.length })

/-- `PartSetReader`: the index of the part being read, the parts, and a
reader over the bytes of that part. -/
structure PartSetReader where
  i : Nat
  parts : List Part
  reader : BytesReader
  deriving DecidableEq, Repr

/-- `NewPartSetReader`; it reads `parts[0]`, so the list is not empty. -/
def newPartSetReader (parts : List Part) (h : parts ≠ []) : PartSetReader :=
  { i := 0, parts := parts, reader := ⟨(parts.head h).bytes, 0⟩ }

/-- What a call of `PartSetReader.Read` returns, with the reader after it. -/
structure ReadResult (psr : PartSetReader) where
  n : Bytes
  err : Option IoError
  next : PartSetReader
  parts_eq : next.parts = psr.parts
  i_le : psr.i ≤ next.i

/-- `PartSetReader.Read` into a buffer of `m` bytes. -/
def PartSetReader.read (psr : PartSetReader) (m : Nat) : ReadResult psr :=
  let readerLen := psr.reader.len
  if readerLen ≥ m then
    let r := psr.reader.read m
    ⟨r.1.1, r.1.2, { psr with reader := r.2 }, rfl, Nat.le_refl _⟩
  else if readerLen > 0 then
    -- the first call fills p[:readerLen], the second one the rest of p
    match PartSetReader.read psr readerLen with
    | ⟨n1, some err, next1, hp1, hi1⟩ => ⟨n1, some err, next1, hp1, hi1⟩
    | ⟨n1, none, next1, hp1, hi1⟩ =>
        let r2 := PartSetReader.read next1 (m - readerLen)
        ⟨n1 ++ r2.n, r2.err, r2.next, r2.parts_eq.trans hp1, Nat.le_trans hi1 r2.i_le⟩
  else if h : psr.i + 1 ≥ psr.parts.length then
    ⟨[], some .eof, { psr with i := psr.i + 1 }, rfl, Nat.le_succ _⟩
  else
    let r := PartSetReader.read
      { psr with i := psr.i + 1, reader := ⟨psr.parts[psr.i + 1].bytes, 0⟩ } m
    ⟨r.n, r.err, r.next, r.parts_eq, Nat.le_trans (Nat.le_succ _) r.i_le⟩
termination_by (psr.parts.length - psr.i, m)
decreasing_by
  · exact Prod.Lex.right _ (by omega)
  · -- the first call leaves the parts and never moves back
    rw [hp1]
    by_cases hlt : psr.parts.length - next1.i < psr.parts.length - psr.i
    · exact Prod.Lex.left _ _ hlt
    · rw [show psr.parts.length - next1.i = psr.parts.length - psr.i by omega]
      exact Prod.Lex.right _ (by omega)
  · exact Prod.Lex.left _ _ (by omega)

/-- `PartSet.GetReader`; `none` where the Go code panics: on an incomplete
set, on a set without parts (`parts[0]`), and on a `nil` part, which Go
dereferences when the reader reaches it. -/
def PartSet.getReader (ps : PartSet) : Option PartSetReader :=
  if !ps.isComplete then none
  else
    match ps.parts.mapM id with
    | none => none
    | some parts => if h : parts = [] then none else some (newPartSetReader parts h)

/-- Reading to EOF as `io.ReadAll` does, with the buffer sizes it offers
given in order: every read appends what it wrote, and the first error ends
the loop.  `none` when the sizes run out first. -/
def PartSetReader.readToEOF (psr : PartSetReader) : List Nat → Option Bytes
  | [] => none
  | m :: ms =>
      let r := psr.read m
      match r.err with
      | some _ => some r.n
      | none => (r.next.readToEOF ms).map (r.n ++ ·)

end Ostracon.Types
