import Ostracon.Lib.GoSlice
/-!
# Bit arrays

`libs/bits/bit_array.go`: the operations the consensus reactor applies to the
bit arrays it keeps for a peer, and the conversion from and to protobuf.

* `BitArray` holds `Bits` and the `Elems` slice of 64-bit words, without its
  mutex; nothing in the type ties the two together.  `BitArray.WF` is the
  shape `NewBitArray` gives them, `len(Elems) = (Bits+63)/64`.
* A `*BitArray` is a `BitArrayPtr`, `nil` being `none`.  The exported methods
  take one and handle `nil`; the unexported ones take a `BitArray`.
* An operation that can panic returns an `Option`, `none` being the panic; a
  method that writes to its receiver returns what it wrote.
* `PickRandom` draws with `tmrand.Intn`; the draw is an argument here.
-/

namespace Ostracon.Bits

/-- `BitArray`. -/
structure BitArray where
  bits : Int
  elems : List UInt64
  deriving DecidableEq, Repr

/-- `*BitArray`. -/
abbrev BitArrayPtr := Option BitArray

/-- `(bits+63)/64`, the number of words of `bits` bits; Go's `/` truncates
toward zero. -/
def numElems (bits : Int) : Int := (bits + 63).tdiv 64

/-- `uint64(1) << uint(k)`.  Go shifts the bit out for a count of 64 or more,
and `uint(k)` of a negative `k` is at least `2^63`. -/
def shl1 (k : Int) : UInt64 := if 0 ≤ k ∧ k < 64 then 1 <<< k.toNat.toUInt64 else 0

/-- `NewBitArray`: `nil` for a size that is not positive. -/
def newBitArray (bits : Int) : BitArrayPtr :=
  if bits ≤ 0 then none else some ⟨bits, List.replicate (numElems bits).toNat 0⟩

namespace BitArray

/-- `new(bits.BitArray)`. -/
def zero : BitArray := ⟨0, []⟩

/-- The word `Elems[i/64]` with the bit of `i` set to `v`. -/
def setBit (i : Int) (v : Bool) (e : UInt64) : UInt64 :=
  if v then e ||| shl1 (i.tmod 64) else e &&& ~~~shl1 (i.tmod 64)

/-- `setIndex`: `false` at an index past the size; otherwise the word
`Elems[i/64]` written. -/
def setIndex (bA : BitArray) (i : Int) (v : Bool) : Option (BitArray × Bool) :=
  if i ≥ bA.bits then some (bA, false)
  else do
    let elems ← GoSlice.modify bA.elems (i.tdiv 64) (setBit i v)
    pure ({ bA with elems }, true)

/-- `getIndex`: `false` at an index past the size. -/
def getIndex (bA : BitArray) (i : Int) : Option Bool :=
  if i ≥ bA.bits then some false
  else do
    let e ← GoSlice.index bA.elems (i.tdiv 64)
    pure (e &&& shl1 (i.tmod 64) > 0)

/-- `copy`. -/
def copy (bA : BitArray) : BitArray :=
  ⟨bA.bits, GoSlice.copy (List.replicate bA.elems.length 0) bA.elems⟩

/-- `copyBits`: a fresh array of `bits` bits with `bA`'s words copied in. -/
def copyBits (bA : BitArray) (bits : Int) : Option BitArray := do
  let c ← GoSlice.make (numElems bits) 0
  pure ⟨bits, GoSlice.copy c bA.elems⟩

/-- `c.Elems[i] = op(c.Elems[i], o[i])`, the loop body of `Or` and `Sub`. -/
def combineAt (op : UInt64 → UInt64 → UInt64) (o : List UInt64) (i : Nat) (c : BitArray) :
    Option BitArray := do
  let x ← GoSlice.index o i
  let elems ← GoSlice.modify c.elems i fun e => op e x
  pure { c with elems }

/-- `and`: the size of the smaller array, every word of the result and-ed
with the word of `o`. -/
def and (bA o : BitArray) : Option BitArray := do
  let c ← bA.copyBits (min bA.bits o.bits)
  GoSlice.loop c.elems.length (combineAt (· &&& ·) o.elems) c

/-- `c.Elems[i] = ^c.Elems[i]`, the loop body of `not`. -/
def complementAt (i : Nat) (c : BitArray) : Option BitArray := do
  let elems ← GoSlice.modify c.elems i fun e => ~~~e
  pure { c with elems }

/-- `not`. -/
def not (bA : BitArray) : Option BitArray :=
  GoSlice.loop bA.copy.elems.length complementAt bA.copy

/-- The `for j` loop of `getTrueIndices` over the first `n` bits of `elem`:
the index `curBit` of each set bit appended, `curBit` advanced by `n`. -/
def elemTrueIndices (elem : UInt64) (n : Nat) (st : Int × List Int) : Int × List Int :=
  (List.range n).foldl (fun st (j : Nat) =>
    (st.1 + 1, if elem &&& shl1 j > 0 then st.2 ++ [st.1] else st.2)) st

/-- One iteration of the loop of `getTrueIndices` over all words but the
last, on `(curBit, trueIndices)`. -/
def wordTrueIndices (elems : List UInt64) (i : Nat) (st : Int × List Int) :
    Option (Int × List Int) := do
  let elem ← GoSlice.index elems i
  if elem = 0 then pure (st.1 + 64, st.2) else pure (elemTrueIndices elem 64 st)

/-- `getTrueIndices`.  `make([]int, 0, bA.Bits)` panics for a negative
capacity, and `bA.Elems[numElems-1]` for an empty `Elems`. -/
def getTrueIndices (bA : BitArray) : Option (List Int) :=
  if bA.bits < 0 then none
  else do
    let st ← GoSlice.loop (bA.elems.length - 1) (wordTrueIndices bA.elems) (0, [])
    let lastElem ← GoSlice.index bA.elems ((bA.elems.length : Int) - 1)
    pure (elemTrueIndices lastElem (bA.bits - st.1).toNat st).2

/-! ### Equations -/

theorem setIndex_of_le {bA : BitArray} {i : Int} (v : Bool) (h : bA.bits ≤ i) :
    bA.setIndex i v = some (bA, false) :=
  if_pos h

theorem setIndex_of_lt {bA : BitArray} {i : Int} (v : Bool) (h : i < bA.bits) :
    bA.setIndex i v = (GoSlice.modify bA.elems (i.tdiv 64) (setBit i v)).bind
      fun elems => some ({ bA with elems }, true) :=
  if_neg (Int.not_le.mpr h)

theorem copyBits_eq (bA : BitArray) (bits : Int) :
    bA.copyBits bits =
      (GoSlice.make (numElems bits) 0).bind fun c => some ⟨bits, GoSlice.copy c bA.elems⟩ :=
  rfl

theorem combineAt_eq (op : UInt64 → UInt64 → UInt64) (o : List UInt64) (i : Nat) (c : BitArray) :
    combineAt op o i c = (GoSlice.index o i).bind fun x =>
      (GoSlice.modify c.elems i fun e => op e x).bind fun elems => some { c with elems } :=
  rfl

theorem complementAt_eq (i : Nat) (c : BitArray) :
    complementAt i c = (GoSlice.modify c.elems i fun e => ~~~e).bind
      fun elems => some { c with elems } :=
  rfl

theorem getTrueIndices_of_nonneg {bA : BitArray} (h : 0 ≤ bA.bits) :
    bA.getTrueIndices =
      (GoSlice.loop (bA.elems.length - 1) (wordTrueIndices bA.elems) (0, [])).bind fun st =>
        (GoSlice.index bA.elems ((bA.elems.length : Int) - 1)).bind fun lastElem =>
          some (elemTrueIndices lastElem (bA.bits - st.1).toNat st).2 :=
  if_neg (Int.not_lt.mpr h)

/-- The shape `NewBitArray` gives: a size that is not negative, and one word
for every 64 bits. -/
structure WF (bA : BitArray) : Prop where
  bits_nonneg : 0 ≤ bA.bits
  elems_length : (bA.elems.length : Int) = numElems bA.bits

instance (bA : BitArray) : Decidable bA.WF :=
  decidable_of_iff (0 ≤ bA.bits ∧ (bA.elems.length : Int) = numElems bA.bits)
    ⟨fun ⟨h₁, h₂⟩ => ⟨h₁, h₂⟩, fun ⟨h₁, h₂⟩ => ⟨h₁, h₂⟩⟩

end BitArray

namespace BitArrayPtr

/-- `Size`. -/
def size : BitArrayPtr → Int
  | none => 0
  | some bA => bA.bits

/-- `SetIndex`. -/
def setIndex : BitArrayPtr → Int → Bool → Option (BitArrayPtr × Bool)
  | none, _, _ => some (none, false)
  | some bA, i, v => (bA.setIndex i v).map fun r => (some r.1, r.2)

/-- `GetIndex`. -/
def getIndex : BitArrayPtr → Int → Option Bool
  | none, _ => some false
  | some bA, i => bA.getIndex i

/-- `Copy`. -/
def copy : BitArrayPtr → BitArrayPtr
  | none => none
  | some bA => some bA.copy

/-- `Or`: the size of the larger array, the words both have or-ed. -/
def or : BitArrayPtr → BitArrayPtr → Option BitArrayPtr
  | none, none => some none
  | none, some o => some (some o.copy)
  | some bA, none => some (some bA.copy)
  | some bA, some o => do
    let c ← bA.copyBits (max bA.bits o.bits)
    let c ← GoSlice.loop (min bA.elems.length o.elems.length)
      (BitArray.combineAt (· ||| ·) o.elems) c
    pure (some c)

/-- `And`. -/
def and : BitArrayPtr → BitArrayPtr → Option BitArrayPtr
  | some bA, some o => (bA.and o).map some
  | _, _ => some none

/-- `Not`. -/
def not : BitArrayPtr → Option BitArrayPtr
  | none => some none
  | some bA => bA.not.map some

/-- `Sub`: the size of `bA`, the bits of `o` cleared from the words both have. -/
def sub : BitArrayPtr → BitArrayPtr → Option BitArrayPtr
  | some bA, some o => do
    let c ← bA.copyBits bA.bits
    let c ← GoSlice.loop (min bA.elems.length o.elems.length)
      (BitArray.combineAt (fun e x => e &&& ~~~x) o.elems) c
    pure (some c)
  | _, _ => some none

/-- `IsEmpty`: no word is non-zero. -/
def isEmpty : BitArrayPtr → Bool
  | none => true
  | some bA => bA.elems.all (· = 0)

/-- `IsFull`: every word but the last is all ones, and so are the low
`lastElemBits` bits of the last; `Elems[:len(Elems)-1]` panics when there is
no word. -/
def isFull : BitArrayPtr → Option Bool
  | none => some true
  | some bA =>
    if bA.elems.length = 0 then none
    else
      let lastElemBits := (bA.bits + 63).tmod 64 + 1
      let lastElem := bA.elems.getLast?.getD 0
      some (bA.elems.dropLast.all (~~~· = 0) && (lastElem + 1) &&& (shl1 lastElemBits - 1) = 0)

/-- `PickRandom`, with `r` the draw of `tmrand.Intn(len(trueIndices))` before
it is reduced modulo the length. -/
def pickRandom : BitArrayPtr → Nat → Option (Int × Bool)
  | none, _ => some (0, false)
  | some bA, r => do
    let trueIndices ← bA.getTrueIndices
    if trueIndices.length = 0 then pure (0, false)
    else do
      let i ← GoSlice.index trueIndices (r % trueIndices.length : Nat)
      pure (i, true)

theorem pickRandom_some (b : BitArray) (r : Nat) :
    pickRandom (some b) r = b.getTrueIndices.bind fun trueIndices =>
      if trueIndices.length = 0 then some (0, false)
      else (GoSlice.index trueIndices (r % trueIndices.length : Nat)).bind fun i => some (i, true) :=
  rfl

/-- `Update`: the receiver's words overwritten by `o`'s as far as both reach. -/
def update : BitArrayPtr → BitArrayPtr → BitArrayPtr
  | some bA, some o => some { bA with elems := GoSlice.copy bA.elems o.elems }
  | bA, _ => bA

/-- The JSON text `null`. -/
def jsonNull : List Char := ['n', 'u', 'l', 'l']

/-- `MarshalJSON`: `null`, or the bits as `x` and `_` between quotes. -/
def marshalJSON : BitArrayPtr → Option (List Char)
  | none => some jsonNull
  | some bA => do
    let bits ← (List.range bA.bits.toNat).mapM fun (i : Nat) =>
      (bA.getIndex i).map fun b => if b then 'x' else '_'
    pure ('"' :: bits ++ ['"'])

/-- What `NewBitArray` returns: `nil`, or a well-formed array of positive
size. -/
def WellFormed (bA : BitArrayPtr) : Prop := ∀ b ∈ bA, b.WF ∧ 0 < b.bits

instance (bA : BitArrayPtr) : Decidable bA.WellFormed :=
  match bA with
  | none => isTrue fun _ h => nomatch h
  | some b => decidable_of_iff (b.WF ∧ 0 < b.bits)
      ⟨fun h _ hb => Option.some_inj.mp hb ▸ h, fun h => h b rfl⟩

end BitArrayPtr

/-! ## JSON -/

/-- The group `bitArrayJSONRegexp`, ``\A"([_x]*)"\z``, captures: the string
between the two quotes, when it is made of `_` and `x` only. -/
def jsonBits (bz : List Char) : Option (List Char) :=
  match bz with
  | '"' :: rest =>
    match rest.reverse with
    | '"' :: inner => if inner.all (fun c => c = '_' ∨ c = 'x') then some inner.reverse else none
    | [] | _ :: _ => none
  | _ => none

/-- The error `UnmarshalJSON` returns for a string the regexp rejects. -/
inductive JSONError
  | badFormat (got : List Char)
  deriving DecidableEq, Repr

/-- `UnmarshalJSON`, as the value it stores in the receiver or the error it
returns, which leaves the receiver as it was.  For `""` the fresh array
`NewBitArray(0)` is `nil`, and `*bA = *bA2` panics. -/
def BitArray.unmarshalJSON (bz : List Char) : Option (Except JSONError BitArray) :=
  if bz = BitArrayPtr.jsonNull then some (.ok ⟨0, []⟩)
  else
    match jsonBits bz with
    | none => some (.error (.badFormat bz))
    | some bits =>
      match newBitArray bits.length with
      | none => none
      | some bA2 =>
        (GoSlice.loop bits.length (fun i bA2 =>
          if bits[i]? = some 'x' then (bA2.setIndex i true).map (·.1) else some bA2) bA2).map .ok

/-! ## Protobuf -/

/-- `tmprotobits.BitArray`. -/
structure ProtoBitArray where
  bits : Int
  elems : List UInt64
  deriving DecidableEq, Repr

/-- `ToProto`: `nil` for a `nil` array and for one without words. -/
def BitArrayPtr.toProto : BitArrayPtr → Option ProtoBitArray
  | none => none
  | some bA => if bA.elems.length = 0 then none else some ⟨bA.bits, bA.elems⟩

/-- `FromProto` on the receiver `bA`.  `int(protoBitArray.Bits)` keeps the
value on a 64-bit platform.  In the `nil` case, `bA = nil` assigns the
receiver variable only, so the caller's array is left as it was; so are its
words when the message has none. -/
def BitArray.fromProto (bA : BitArray) : Option ProtoBitArray → BitArray
  | none => bA
  | some p => ⟨p.bits, if p.elems.length > 0 then p.elems else bA.elems⟩

end Ostracon.Bits
