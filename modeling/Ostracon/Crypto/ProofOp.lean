import Ostracon.Crypto.MerkleProof
import Ostracon.Crypto.KeyPath
import Mathlib.Tactic.SplitIfs
/-!
# Chained proofs and the proof runtime

The model of `crypto/merkle/proof_op.go` and `proof_value.go`.  A
`ProofRuntime` turns each `ProofOp` of a proof into a `ProofOperator` with
the decoder registered for its type, and `ProofOperators.Verify` runs the
operators in turn on the arguments, each non-empty operator key popping the
last key of the key path, and compares the first result with the root.
`DefaultProofRuntime` knows one operator, `ValueOp`: its run checks the leaf
hash of its key and value and returns the root its Merkle proof computes.

What holds, for every proof, root, key path and arguments:
`defaultProofRuntime_verify_eq_none_iff` says that `Verify` panics exactly
when the key path decodes, the proof has no operator and the arguments are
empty, which is the call `VerifyAbsence` makes for an empty proof; and
`defaultProofRuntime_verify_ok` says that an accepted proof has value
operators whose keys are the key path read from the end, and whose last
operator's Merkle proof computes the root, when the root is not empty.

What does not: `ValueOp.Run` passes a failed `ComputeRootHash` on as the
empty root, so an empty root, or a later operator, accepts a proof whose
index is not below its total (`verify_accepts_out_of_range_proof`).
-/

namespace Ostracon.Crypto.Merkle

open MerkleTree

/-! ## Decoding a proof operator -/

/-- `tmhash.Size`. -/
def tmhashSize : Nat := 32

/-- `MaxAunts`. -/
def maxAunts : Nat := 100

/-- The errors of `Proof.ValidateBasic`. -/
inductive ProofValidateError
  /-- "negative Total" -/
  | negativeTotal
  /-- "negative Index" -/
  | negativeIndex
  /-- "expected LeafHash size to be %d, got %d" -/
  | leafHashSize (got : Nat)
  /-- "expected no more than %d aunts, got %d" -/
  | tooManyAunts (got : Nat)
  /-- "expected Aunts#%d size to be %d, got %d" -/
  | auntSize (i got : Nat)
  deriving DecidableEq, Repr

/-- The loop of `ValidateBasic` over the aunts from number `i` on. -/
def validateAunts : Nat → List Bytes → Except ProofValidateError Unit
  | _, [] => .ok ()
  | i, aunt :: aunts =>
    if aunt.length ≠ tmhashSize then .error (.auntSize i aunt.length) else validateAunts (i + 1) aunts

/-- `Proof.ValidateBasic`. -/
def Proof.validateBasic (sp : Proof) : Except ProofValidateError Unit :=
  if sp.total < 0 then .error .negativeTotal
  else if sp.index < 0 then .error .negativeIndex
  else if sp.leafHash.length ≠ tmhashSize then .error (.leafHashSize sp.leafHash.length)
  else if sp.aunts.length > maxAunts then .error (.tooManyAunts sp.aunts.length)
  else validateAunts 0 sp.aunts

/-- The errors of decoding a proof operator. -/
inductive DecodeError
  /-- "unrecognized proof type %v" -/
  | unrecognizedType (typ : String)
  /-- "unexpected ProofOp.Type; got %v, want %v" -/
  | unexpectedType (got want : String)
  /-- "decoding ProofOp.Data into ValueOp: %w" -/
  | unmarshal
  /-- "nil proof" -/
  | nilProof
  /-- an error of `Proof.ValidateBasic` -/
  | invalidProof (err : ProofValidateError)
  deriving DecidableEq, Repr

/-- `ProofFromProto`; `tmcrypto.Proof` has the fields of `Proof`. -/
def proofFromProto (pb : Option Proof) : Except DecodeError Proof :=
  match pb with
  | none => .error .nilProof
  | some sp => (sp.validateBasic.mapError .invalidProof).map fun _ => sp

/-- `tmcrypto.ValueOp`. -/
structure ValueOpProto where
  key : Bytes
  proof : Option Proof

/-- `tmcrypto.ProofOp`.  `Data` is kept as what `ValueOp.Unmarshal` reads
from it, `none` when it does not parse. -/
structure ProofOp where
  type : String
  key : Bytes
  data : Option ValueOpProto

/-- `tmcrypto.ProofOps`. -/
structure ProofOps where
  ops : List ProofOp

/-- `ProofOpValue`. -/
def proofOpValue : String := "simple:v"

/-- `ValueOp`. -/
structure ValueOp where
  key : Bytes
  proof : Proof

/-- `ValueOpDecoder`.  The key is the `ProofOp`'s, not the one in `Data`. -/
def valueOpDecoder (pop : ProofOp) : Except DecodeError ValueOp :=
  if pop.type ≠ proofOpValue then .error (.unexpectedType pop.type proofOpValue)
  else
    match pop.data with
    | none => .error .unmarshal
    | some pbop => (proofFromProto pbop.proof).map fun sp => ⟨pop.key, sp⟩

/-! ## Running a value operator -/

/-- `binary.PutUvarint`: seven bits a byte, low bits first, the high bit set
on every byte but the last. -/
def putUvarint (x : Nat) : Bytes :=
  if x < 128 then [x.toUInt8] else (x % 128 + 128).toUInt8 :: putUvarint (x / 128)
termination_by x
decreasing_by omega

/-- `encodeByteSlice`: the uvarint length, then the bytes. -/
def encodeByteSlice (bz : Bytes) : Bytes := putUvarint bz.length ++ bz

/-- The errors of `ValueOp.Run`. -/
inductive OpError
  /-- "expected 1 arg, got %v" -/
  | expectedOneArg (got : Nat)
  /-- "leaf hash mismatch: want %X got %X" -/
  | leafHashMismatch (want got : Bytes)
  deriving DecidableEq, Repr

/-- `ProofOperator`, by the two methods `Verify` calls. -/
structure ProofOperator where
  run : List Bytes → Except OpError (List Bytes)
  getKey : Bytes

/-- `ProofOperators`. -/
abbrev ProofOperators := List ProofOperator

section Runtime

variable (tmhash : Bytes → Bytes)

/-- The leaf `ValueOp.Run` hashes: the key and the hash of the value, each
length-prefixed. -/
def kvHash (key value : Bytes) : Bytes :=
  leafHash tmhash (encodeByteSlice key ++ encodeByteSlice (tmhash value))

/-- `ValueOp.Run`.  A `nil` root of `ComputeRootHash` is passed on as the
empty slice, which is what every later use of it reads. -/
def ValueOp.run (op : ValueOp) (args : List Bytes) : Except OpError (List Bytes) :=
  match args with
  | [value] =>
    if kvHash tmhash op.key value ≠ op.proof.leafHash then
      .error (.leafHashMismatch op.proof.leafHash (kvHash tmhash op.key value))
    else .ok [(op.proof.computeRootHash tmhash).getD []]
  | _ => .error (.expectedOneArg args.length)

/-- A `ValueOp` as the `ProofOperator` interface holds it. -/
def ValueOp.toOperator (op : ValueOp) : ProofOperator := ⟨op.run tmhash, op.key⟩

/-! ## The runtime -/

/-- `OpDecoder`. -/
abbrev OpDecoder := ProofOp → Except DecodeError ProofOperator

/-- `ProofRuntime`: its decoders by type. -/
structure ProofRuntime where
  decoders : List (String × OpDecoder)

/-- `NewProofRuntime`. -/
def newProofRuntime : ProofRuntime := ⟨[]⟩

/-- `RegisterOpDecoder`; `none` is its panic on a type already registered. -/
def ProofRuntime.registerOpDecoder (prt : ProofRuntime) (typ : String) (dec : OpDecoder) :
    Option ProofRuntime :=
  if (prt.decoders.lookup typ).isSome then none else some ⟨(typ, dec) :: prt.decoders⟩

/-- `ProofRuntime.Decode`. -/
def ProofRuntime.decode (prt : ProofRuntime) (pop : ProofOp) : Except DecodeError ProofOperator :=
  match prt.decoders.lookup pop.type with
  | none => .error (.unrecognizedType pop.type)
  | some decoder => decoder pop

/-- `ProofRuntime.DecodeProof`: the first operator that does not decode
stops it. -/
def ProofRuntime.decodeProof (prt : ProofRuntime) (proof : ProofOps) :
    Except DecodeError ProofOperators :=
  proof.ops.mapM prt.decode

/-- `DefaultProofRuntime`: the value decoder, its result as a
`ProofOperator`. -/
def defaultProofRuntime : ProofRuntime :=
  ⟨[(proofOpValue, fun pop => (valueOpDecoder pop).map (ValueOp.toOperator tmhash))]⟩

end Runtime

/-! ## Verification -/

/-- The errors of `ProofOperators.Verify` and `ProofRuntime.Verify`. -/
inductive VerifyError
  /-- an error of `KeyPathToKeys`, returned as it is -/
  | keyPath (err : KeyPathError)
  /-- "key path has insufficient # of parts: expected no more keys but got %+v" -/
  | insufficientKeys (key : Bytes)
  /-- "key mismatch on operation #%d: expected %+v but got %+v" -/
  | keyMismatch (i : Nat) (lastKey key : Bytes)
  /-- an error of an operator's `Run`, returned as it is -/
  | run (err : OpError)
  /-- "calculated root hash is invalid: expected %X but got %X" -/
  | invalidRoot (root got : Bytes)
  /-- "keypath not consumed all" -/
  | keypathNotConsumed
  /-- "decoding proof: %w" around "decoding a proof operator: %w" -/
  | decodingProof (err : DecodeError)
  deriving DecidableEq, Repr

/-- The key check of operator number `i`: a non-empty key must be the last
key left, and consumes it. -/
def consumeKey (i : Nat) (key : Bytes) (keys : List Bytes) : Except VerifyError (List Bytes) :=
  if key.length ≠ 0 then
    match keys.getLast? with
    | none => .error (.insufficientKeys key)
    | some lastKey => if lastKey ≠ key then .error (.keyMismatch i lastKey key) else .ok keys.dropLast
  else .ok keys

/-- The operator loop of `ProofOperators.Verify` from operator number `i`
on: the keys left and the arguments of the next operator. -/
def verifyLoop : Nat → ProofOperators → List Bytes → List Bytes →
    Except VerifyError (List Bytes × List Bytes)
  | _, [], keys, args => .ok (keys, args)
  | i, op :: poz, keys, args => do
    let keys ← consumeKey i op.getKey keys
    let args ← (op.run args).mapError .run
    verifyLoop (i + 1) poz keys args

/-- `ProofOperators.Verify`; `none` is the panic of `args[0]` on empty
arguments. -/
def ProofOperators.verify (poz : ProofOperators) (root keypath : Bytes) (args : List Bytes) :
    Option (Except VerifyError Unit) :=
  match keyPathToKeys keypath with
  | .error err => some (.error (.keyPath err))
  | .ok keys =>
    match verifyLoop 0 poz keys args with
    | .error err => some (.error err)
    | .ok (keys, args) =>
      match args.head? with
      | none => none
      | some arg =>
        if root ≠ arg then some (.error (.invalidRoot root arg))
        else if keys.length ≠ 0 then some (.error .keypathNotConsumed)
        else some (.ok ())

/-- `ProofRuntime.Verify`. -/
def ProofRuntime.verify (prt : ProofRuntime) (proof : ProofOps) (root keypath : Bytes)
    (args : List Bytes) : Option (Except VerifyError Unit) :=
  match prt.decodeProof proof with
  | .error err => some (.error (.decodingProof err))
  | .ok poz => ProofOperators.verify poz root keypath args

/-- `ProofRuntime.VerifyValue`. -/
def ProofRuntime.verifyValue (prt : ProofRuntime) (proof : ProofOps) (root keypath value : Bytes) :
    Option (Except VerifyError Unit) :=
  prt.verify proof root keypath [value]

/-- `ProofRuntime.VerifyAbsence`: `args` is `nil`. -/
def ProofRuntime.verifyAbsence (prt : ProofRuntime) (proof : ProofOps) (root keypath : Bytes) :
    Option (Except VerifyError Unit) :=
  prt.verify proof root keypath []

/-! ## One step of the operator loop -/

theorem except_bind_ok {ε α β : Type} {x : Except ε α} {f : α → Except ε β} {b : β}
    (h : x >>= f = .ok b) : ∃ a, x = .ok a ∧ f a = .ok b := by
  cases x with
  | error e => cases h
  | ok a => exact ⟨a, rfl, h⟩

theorem consumeKey_ok {i : Nat} {key : Bytes} {keys keys' : List Bytes}
    (h : consumeKey i key keys = .ok keys') : keys = keys' ++ [key].filter (· ≠ []) := by
  unfold consumeKey at h
  by_cases hkey : key = []
  · -- an empty key consumes nothing
    rw [if_neg (by simp [hkey])] at h
    cases h
    simp [hkey]
  · rw [if_pos (by simpa using hkey)] at h
    split at h
    · cases h
    · rename_i lastKey hlast
      by_cases heq : lastKey = key
      · rw [if_neg (not_not.mpr heq)] at h
        cases h
        rw [List.filter_singleton, decide_eq_true hkey, cond_true, ← heq]
        exact (List.dropLast_append_getLast? _ hlast).symm
      · rw [if_pos heq] at h
        cases h

theorem verifyLoop_cons_ok {i : Nat} {op : ProofOperator} {poz : ProofOperators}
    {keys args : List Bytes} {r : List Bytes × List Bytes}
    (h : verifyLoop i (op :: poz) keys args = .ok r) :
    ∃ keys₁ args₁, consumeKey i op.getKey keys = .ok keys₁ ∧ op.run args = .ok args₁ ∧
      verifyLoop (i + 1) poz keys₁ args₁ = .ok r := by
  obtain ⟨keys₁, hkeys, h₁⟩ := except_bind_ok h
  obtain ⟨args₁, hargs, hloop⟩ := except_bind_ok h₁
  refine ⟨keys₁, args₁, hkeys, ?_, hloop⟩
  cases hrun : op.run args with
  | error e => rw [hrun] at hargs; cases hargs
  | ok out => rw [hrun] at hargs; cases hargs; rfl

theorem verifyLoop_keys {poz : ProofOperators} :
    ∀ {i : Nat} {keys args keys' args' : List Bytes}, verifyLoop i poz keys args = .ok (keys', args') →
      keys = keys' ++ ((poz.map ProofOperator.getKey).filter (· ≠ [])).reverse := by
  induction poz with
  | nil =>
    intro i keys args keys' args' h
    cases h
    simp
  | cons op poz ih =>
    intro i keys args keys' args' h
    obtain ⟨keys₁, args₁, hkey, -, hloop⟩ := verifyLoop_cons_ok h
    rw [consumeKey_ok hkey, ih hloop]
    by_cases hk : op.getKey = [] <;> simp [hk]

section Value

variable {tmhash : Bytes → Bytes}

theorem ValueOp.run_ok {op : ValueOp} {args out : List Bytes} (h : op.run tmhash args = .ok out) :
    ∃ value, args = [value] ∧ kvHash tmhash op.key value = op.proof.leafHash ∧
      out = [(op.proof.computeRootHash tmhash).getD []] := by
  unfold ValueOp.run at h
  split at h
  · rename_i value
    split at h
    · cases h
    · rename_i hleaf
      cases h
      exact ⟨value, rfl, not_not.mp hleaf, rfl⟩
  · cases h

theorem verifyLoop_valueOps {ops : List ValueOp} (hne : ops ≠ []) :
    ∀ {i : Nat} {keys args keys' args' : List Bytes},
      verifyLoop i (ops.map (ValueOp.toOperator tmhash)) keys args = .ok (keys', args') →
      ∃ op ∈ ops.getLast?, args' = [(op.proof.computeRootHash tmhash).getD []] := by
  induction ops with
  | nil => exact absurd rfl hne
  | cons op rest ih =>
    intro i keys args keys' args' h
    obtain ⟨keys₁, args₁, -, hrun, hloop⟩ := verifyLoop_cons_ok h
    obtain ⟨-, -, -, hout⟩ := ValueOp.run_ok hrun
    cases rest with
    | nil =>
      -- the last operator: its output is what the loop returns
      cases hloop
      exact ⟨op, rfl, hout⟩
    | cons op₂ rest =>
      obtain ⟨last, hlast, hargs⟩ := ih (List.cons_ne_nil _ _) hloop
      exact ⟨last, by simpa using hlast, hargs⟩

end Value

/-! ## The default runtime decodes value operators only -/

section Default

variable {tmhash : Bytes → Bytes}

theorem defaultProofRuntime_decode (pop : ProofOp) :
    (defaultProofRuntime tmhash).decode pop =
      if pop.type = proofOpValue then (valueOpDecoder pop).map (ValueOp.toOperator tmhash)
      else .error (.unrecognizedType pop.type) := by
  unfold ProofRuntime.decode defaultProofRuntime
  by_cases htype : pop.type = proofOpValue
  · have hbeq : (pop.type == proofOpValue) = true := beq_iff_eq.mpr htype
    simp only [List.lookup, hbeq, if_pos htype]
  · have hbeq : (pop.type == proofOpValue) = false := beq_eq_false_iff_ne.mpr htype
    simp only [List.lookup, hbeq, if_neg htype]

theorem defaultProofRuntime_decode_ok {pop : ProofOp} {o : ProofOperator}
    (h : (defaultProofRuntime tmhash).decode pop = .ok o) :
    ∃ op, valueOpDecoder pop = .ok op ∧ o = op.toOperator tmhash := by
  rw [defaultProofRuntime_decode] at h
  split at h
  · cases hdec : valueOpDecoder pop with
    | error e => rw [hdec] at h; cases h
    | ok op => rw [hdec] at h; cases h; exact ⟨op, rfl, rfl⟩
  · cases h

theorem defaultProofRuntime_decodeProof_ok {pops : List ProofOp} :
    ∀ {poz : ProofOperators}, (defaultProofRuntime tmhash).decodeProof ⟨pops⟩ = .ok poz →
      ∃ ops : List ValueOp, pops.mapM valueOpDecoder = .ok ops ∧
        poz = ops.map (ValueOp.toOperator tmhash) := by
  induction pops with
  | nil =>
    intro poz h
    cases h
    exact ⟨[], rfl, rfl⟩
  | cons pop pops ih =>
    intro poz h
    unfold ProofRuntime.decodeProof at h
    rw [List.mapM_cons] at h
    obtain ⟨o, ho, h₁⟩ := except_bind_ok h
    obtain ⟨poz₁, hpoz, h₂⟩ := except_bind_ok h₁
    obtain ⟨op, hop, rfl⟩ := defaultProofRuntime_decode_ok ho
    obtain ⟨ops, hops, rfl⟩ := ih hpoz
    cases h₂
    refine ⟨op :: ops, ?_, rfl⟩
    rw [List.mapM_cons, hop, hops]
    rfl

end Default

/-! ## When `Verify` panics, and what it accepts -/

section Verify

variable {tmhash : Bytes → Bytes}

theorem eq_nil_of_mapM_ok_nil {α β ε : Type} {f : α → Except ε β} :
    ∀ {l : List α}, l.mapM f = .ok [] → l = []
  | [], _ => rfl
  | a :: l, h => by
    rw [List.mapM_cons] at h
    obtain ⟨b, -, h₁⟩ := except_bind_ok h
    obtain ⟨bs, -, h₂⟩ := except_bind_ok h₁
    cases h₂

theorem computeHashFromAunts_bounds {index total : Int} {lh : Bytes} {aunts : List Bytes} {r : Bytes}
    (h : computeHashFromAunts tmhash index total lh aunts = some r) : 0 ≤ index ∧ index < total := by
  by_contra hout
  rw [computeHashFromAunts.eq_def, if_pos (by omega)] at h
  cases h

theorem computeRootHash_eq_fromPath {sp : Proof} {root : Bytes} (hroot : root ≠ [])
    (h : root = (sp.computeRootHash tmhash).getD []) :
    0 ≤ sp.index ∧ sp.index < sp.total ∧
      fromPath (merkleHasher tmhash) splitter sp.leafHash sp.index.toNat sp.total.toNat
        sp.aunts.reverse = some root := by
  cases hcomp : sp.computeRootHash tmhash with
  | none => rw [hcomp] at h; exact absurd h hroot
  | some r =>
    rw [hcomp, Option.getD_some] at h
    subst h
    obtain ⟨hlo, hhi⟩ := computeHashFromAunts_bounds hcomp
    refine ⟨hlo, hhi, ?_⟩
    rw [← computeHashFromAunts_eq_fromPath, Int.toNat_of_nonneg hlo, Int.toNat_of_nonneg (by omega)]
    exact hcomp

theorem defaultProofRuntime_verify_eq_none_iff (proof : ProofOps) (root keypath : Bytes)
    (args : List Bytes) :
    (defaultProofRuntime tmhash).verify proof root keypath args = none ↔
      (∃ keys, keyPathToKeys keypath = .ok keys) ∧ proof.ops = [] ∧ args = [] := by
  constructor
  · intro h
    unfold ProofRuntime.verify at h
    cases hdec : (defaultProofRuntime tmhash).decodeProof proof with
    | error e => simp [hdec] at h
    | ok poz =>
      simp only [hdec] at h
      obtain ⟨ops, hops, rfl⟩ := defaultProofRuntime_decodeProof_ok hdec
      unfold ProofOperators.verify at h
      cases hkp : keyPathToKeys keypath with
      | error e => simp [hkp] at h
      | ok keys =>
        simp only [hkp] at h
        cases hloop : verifyLoop 0 (ops.map (ValueOp.toOperator tmhash)) keys args with
        | error e => simp [hloop] at h
        | ok r =>
          obtain ⟨keys', args'⟩ := r
          simp only [hloop] at h
          -- only an empty argument list after the loop panics
          have hargs' : args' = [] := by
            cases args' with
            | nil => rfl
            | cons a rest =>
              simp only [List.head?_cons] at h
              split_ifs at h
          -- and a value operator always leaves one argument
          have hnil : ops = [] := by
            by_contra hne
            obtain ⟨_, _, hout⟩ := verifyLoop_valueOps hne hloop
            rw [hargs'] at hout
            cases hout
          subst hnil
          cases hloop
          exact ⟨⟨keys, rfl⟩, eq_nil_of_mapM_ok_nil hops, hargs'⟩
  · rintro ⟨⟨keys, hkp⟩, hops, rfl⟩
    have hdec : (defaultProofRuntime tmhash).decodeProof proof = .ok [] := by
      unfold ProofRuntime.decodeProof
      rw [hops]
      rfl
    unfold ProofRuntime.verify ProofOperators.verify
    rw [hdec, hkp]
    rfl

/-- `Verify` accepts exactly where the key path reads, the loop leaves no
key, and its first result is the root. -/
theorem ProofOperators.verify_eq_ok {poz : ProofOperators} {root keypath : Bytes} {args : List Bytes}
    (h : ProofOperators.verify poz root keypath args = some (.ok ())) :
    ∃ keys rest, keyPathToKeys keypath = .ok keys ∧ verifyLoop 0 poz keys args = .ok ([], root :: rest) := by
  unfold ProofOperators.verify at h
  cases hkp : keyPathToKeys keypath with
  | error e => simp [hkp] at h
  | ok keys =>
    simp only [hkp] at h
    cases hloop : verifyLoop 0 poz keys args with
    | error e => simp [hloop] at h
    | ok r =>
      obtain ⟨keys', args'⟩ := r
      simp only [hloop] at h
      cases args' with
      | nil => cases h
      | cons arg rest =>
        simp only [List.head?_cons] at h
        have hroot : root = arg := by
          by_contra hne
          rw [if_pos hne] at h
          cases h
        have hkeys' : keys' = [] := by
          by_contra hne
          rw [if_neg (not_not.mpr hroot), if_pos (by simpa using hne)] at h
          cases h
        exact ⟨keys, rest, rfl, by rw [hloop, hkeys', hroot]⟩

/-- What an accepted proof of the default runtime is made of: value
operators, whose non-empty keys are the key path read from the end, and the
last of which computes the root; a non-empty root is then the root of that
operator's audit path, at an index below its total. -/
theorem defaultProofRuntime_verify_ok {proof : ProofOps} {root keypath : Bytes} {args : List Bytes}
    (h : (defaultProofRuntime tmhash).verify proof root keypath args = some (.ok ())) :
    ∃ ops : List ValueOp, proof.ops.mapM valueOpDecoder = .ok ops ∧
      keyPathToKeys keypath = .ok ((ops.map ValueOp.key).filter (· ≠ [])).reverse ∧
      ∃ op ∈ ops.getLast?, root = (op.proof.computeRootHash tmhash).getD [] ∧
        (root ≠ [] → 0 ≤ op.proof.index ∧ op.proof.index < op.proof.total ∧
          fromPath (merkleHasher tmhash) splitter op.proof.leafHash op.proof.index.toNat
            op.proof.total.toNat op.proof.aunts.reverse = some root) := by
  unfold ProofRuntime.verify at h
  cases hdec : (defaultProofRuntime tmhash).decodeProof proof with
  | error e => simp [hdec] at h
  | ok poz =>
    simp only [hdec] at h
    obtain ⟨ops, hops, rfl⟩ := defaultProofRuntime_decodeProof_ok hdec
    obtain ⟨keys, rest, hkp, hloop⟩ := ProofOperators.verify_eq_ok h
    -- the keys the operators consume are the whole key path
    have hkeys := verifyLoop_keys hloop
    rw [List.nil_append, List.map_map] at hkeys
    have hne : ops ≠ [] := by
      rintro rfl
      exact keyPathToKeys_ne_nil hkp (by simpa using hkeys)
    obtain ⟨op, hop, hout⟩ := verifyLoop_valueOps hne hloop
    have hfirst : root = (op.proof.computeRootHash tmhash).getD [] := (List.cons.inj hout).1
    exact ⟨ops, hops, by rw [hkp, hkeys]; rfl, op, hop, hfirst,
      fun hne => computeRootHash_eq_fromPath hne hfirst⟩

end Verify

/-! ## A proof whose index is out of range -/

theorem except_ok_bind {ε α β : Type} (a : α) (f : α → Except ε β) : (Except.ok a >>= f) = f a := rfl

theorem except_pure {ε α : Type} (a : α) : (pure a : Except ε α) = .ok a := rfl

theorem verifyLoop_valueOp_cons {tmhash : Bytes → Bytes} {i : Nat} {op : ValueOp}
    {ops : List ValueOp} {keys keys₁ : List Bytes} {value : Bytes}
    (hkey : consumeKey i op.key keys = .ok keys₁)
    (hleaf : kvHash tmhash op.key value = op.proof.leafHash) :
    verifyLoop i ((op :: ops).map (ValueOp.toOperator tmhash)) keys [value] =
      verifyLoop (i + 1) (ops.map (ValueOp.toOperator tmhash)) keys₁
        [(op.proof.computeRootHash tmhash).getD []] := by
  have hrun : op.run tmhash [value] = .ok [(op.proof.computeRootHash tmhash).getD []] := by
    rw [ValueOp.run, if_neg (not_not.mpr hleaf)]
  simp only [List.map_cons, verifyLoop]
  rw [show (ValueOp.toOperator tmhash op).getKey = op.key from rfl, hkey, except_ok_bind,
    show (ValueOp.toOperator tmhash op).run = op.run tmhash from rfl, hrun]
  rfl

/-- The `ProofOp` of a value operator for `key` whose Merkle proof has the
given total, index 0, no aunt, and the leaf hash of `key` and `value`. -/
def valueProofOp (tmhash : Bytes → Bytes) (key value : Bytes) (total : Int) : ProofOp :=
  ⟨proofOpValue, key, some ⟨key, some ⟨total, 0, kvHash tmhash key value, []⟩⟩⟩

theorem decode_valueProofOp {tmhash : Bytes → Bytes} (hsize : ∀ b, (tmhash b).length = tmhashSize)
    (key value : Bytes) {total : Int} (htotal : 0 ≤ total) :
    (defaultProofRuntime tmhash).decode (valueProofOp tmhash key value total) =
      .ok (ValueOp.toOperator tmhash ⟨key, ⟨total, 0, kvHash tmhash key value, []⟩⟩) := by
  have hlen : (kvHash tmhash key value).length = tmhashSize := hsize _
  have hneg : ¬ total < 0 := by omega
  rw [defaultProofRuntime_decode,
    if_pos (show (valueProofOp tmhash key value total).type = proofOpValue from rfl)]
  simp [valueOpDecoder, valueProofOp, proofFromProto, Proof.validateBasic, hlen, validateAunts,
    maxAunts, Except.map, Except.mapError, hneg]

/-- An honest proof of a tree of one leaf, for key `l` and the empty value,
verifies against that leaf's hash. -/
theorem verifyValue_oneLeaf {tmhash : Bytes → Bytes} (hsize : ∀ b, (tmhash b).length = tmhashSize) :
    (defaultProofRuntime tmhash).verifyValue ⟨[valueProofOp tmhash [108] [] 1]⟩ (kvHash tmhash [108] [])
      [slash, 108] [] = some (.ok ()) := by
  have hroot : computeHashFromAunts tmhash 0 1 (kvHash tmhash [108] []) [] =
      some (kvHash tmhash [108] []) := by
    rw [computeHashFromAunts.eq_def, if_neg (by decide), if_pos rfl, if_neg (by decide)]
  have hdec := decode_valueProofOp hsize [108] [] (show (0 : Int) ≤ 1 by decide)
  have hkp : keyPathToKeys [slash, 108] = .ok [[108]] := by decide
  have hc : consumeKey 0 [108] [[108]] = .ok [] := by decide
  have hloop : verifyLoop 0 ([⟨[108], ⟨1, 0, kvHash tmhash [108] [], []⟩⟩].map
      (ValueOp.toOperator tmhash)) [[108]] [[]] = .ok ([], [kvHash tmhash [108] []]) := by
    rw [verifyLoop_valueOp_cons hc rfl, Proof.computeRootHash]
    dsimp only
    rw [hroot, Option.getD_some]
    rfl
  simp only [ProofRuntime.verifyValue, ProofRuntime.verify, ProofRuntime.decodeProof,
    List.mapM_cons, List.mapM_nil, hdec, except_ok_bind, except_pure]
  simp only [ProofOperators.verify, hkp, List.map_cons, List.map_nil] at hloop ⊢
  simp [hloop]

/-- A hash of 32 zero bytes for every input. -/
def zeroHash : Bytes → Bytes := fun _ => List.replicate 32 0

/-- `defaultProofRuntime_verify_ok` at the honest proof of one leaf. -/
theorem defaultProofRuntime_verify_ok_oneLeaf :
    (defaultProofRuntime zeroHash).verify ⟨[valueProofOp zeroHash [108] [] 1]⟩ (kvHash zeroHash [108] [])
        [slash, 108] [[]] = some (.ok ()) ∧
      ∃ ops : List ValueOp, [valueProofOp zeroHash [108] [] 1].mapM valueOpDecoder = .ok ops ∧
        keyPathToKeys [slash, 108] = .ok ((ops.map ValueOp.key).filter (· ≠ [])).reverse ∧
        ∃ op ∈ ops.getLast?, kvHash zeroHash [108] [] = (op.proof.computeRootHash zeroHash).getD [] ∧
          (kvHash zeroHash [108] [] ≠ [] → 0 ≤ op.proof.index ∧ op.proof.index < op.proof.total ∧
            fromPath (merkleHasher zeroHash) splitter op.proof.leafHash op.proof.index.toNat
              op.proof.total.toNat op.proof.aunts.reverse = some (kvHash zeroHash [108] [])) := by
  have h : (defaultProofRuntime zeroHash).verify ⟨[valueProofOp zeroHash [108] [] 1]⟩
      (kvHash zeroHash [108] []) [slash, 108] [[]] = some (.ok ()) :=
    verifyValue_oneLeaf fun _ => rfl
  exact ⟨h, defaultProofRuntime_verify_ok h⟩

/-- `VerifyAbsence` of the empty proof panics on `args[0]`.  A value proof of
total 0 decodes (`ValidateBasic` only asks for non-negative fields), its root
fails and is passed on as empty: it verifies its value against the empty
root, and, followed by an honest one-leaf proof, against that proof's
non-empty root. -/
theorem verify_accepts_out_of_range_proof (tmhash : Bytes → Bytes)
    (hsize : ∀ b, (tmhash b).length = tmhashSize) :
    (defaultProofRuntime tmhash).verifyAbsence ⟨[]⟩ [] [slash] = none ∧
      (defaultProofRuntime tmhash).verifyValue ⟨[valueProofOp tmhash [107] [] 0]⟩ []
        [slash, 107] [] = some (.ok ()) ∧
      (defaultProofRuntime tmhash).verifyValue
        ⟨[valueProofOp tmhash [107] [] 0, valueProofOp tmhash [108] [] 1]⟩ (kvHash tmhash [108] [])
        [slash, 108, slash, 107] [] = some (.ok ()) := by
  have hroot₀ : computeHashFromAunts tmhash 0 0 (kvHash tmhash [107] []) [] = none := by
    rw [computeHashFromAunts.eq_def, if_pos (by decide)]
  have hroot₁ : computeHashFromAunts tmhash 0 1 (kvHash tmhash [108] []) [] =
      some (kvHash tmhash [108] []) := by
    rw [computeHashFromAunts.eq_def, if_neg (by decide), if_pos rfl, if_neg (by decide)]
  have hdec₀ := decode_valueProofOp hsize [107] [] (Int.le_refl 0)
  have hdec₁ := decode_valueProofOp hsize [108] [] (show (0 : Int) ≤ 1 by decide)
  refine ⟨?_, ?_, ?_⟩
  · exact (defaultProofRuntime_verify_eq_none_iff _ _ _ _).mpr ⟨⟨[[]], by decide⟩, rfl, rfl⟩
  · -- one operator: the failed root is the empty root
    have hkp : keyPathToKeys [slash, 107] = .ok [[107]] := by decide
    have hc : consumeKey 0 [107] [[107]] = .ok [] := by decide
    have hloop : verifyLoop 0 ([⟨[107], ⟨0, 0, kvHash tmhash [107] [], []⟩⟩].map
        (ValueOp.toOperator tmhash)) [[107]] [[]] = .ok ([], [[]]) := by
      rw [verifyLoop_valueOp_cons hc rfl, Proof.computeRootHash]
      dsimp only
      rw [hroot₀]
      rfl
    simp only [ProofRuntime.verifyValue, ProofRuntime.verify, ProofRuntime.decodeProof,
      List.mapM_cons, List.mapM_nil, hdec₀, except_ok_bind, except_pure]
    simp only [ProofOperators.verify, hkp, List.map_cons, List.map_nil] at hloop ⊢
    simp [hloop]
  · -- two operators: the second hashes the empty root as its value
    have hkp : keyPathToKeys [slash, 108, slash, 107] = .ok [[108], [107]] := by decide
    have hc₁ : consumeKey 0 [107] [[108], [107]] = .ok [[108]] := by decide
    have hc₂ : consumeKey (0 + 1) [108] [[108]] = .ok [] := by decide
    have hloop : verifyLoop 0 ([⟨[107], ⟨0, 0, kvHash tmhash [107] [], []⟩⟩,
        ⟨[108], ⟨1, 0, kvHash tmhash [108] [], []⟩⟩].map (ValueOp.toOperator tmhash))
        [[108], [107]] [[]] = .ok ([], [kvHash tmhash [108] []]) := by
      rw [verifyLoop_valueOp_cons hc₁ rfl, Proof.computeRootHash]
      dsimp only
      rw [hroot₀, Option.getD_none, verifyLoop_valueOp_cons hc₂ rfl, Proof.computeRootHash]
      dsimp only
      rw [hroot₁, Option.getD_some]
      rfl
    simp only [ProofRuntime.verifyValue, ProofRuntime.verify, ProofRuntime.decodeProof,
      List.mapM_cons, List.mapM_nil, hdec₀, hdec₁, except_ok_bind, except_pure]
    simp only [ProofOperators.verify, hkp, List.map_cons, List.map_nil] at hloop ⊢
    simp [hloop]

theorem verify_accepts_out_of_range_proof_constHash :
    (∀ b : Bytes, ((fun _ => List.replicate 32 (0 : UInt8)) b).length = tmhashSize) ∧
      (defaultProofRuntime fun _ => List.replicate 32 0).verifyAbsence ⟨[]⟩ [] [slash] = none ∧
      (defaultProofRuntime fun _ => List.replicate 32 0).verifyValue
        ⟨[valueProofOp (fun _ => List.replicate 32 0) [107] [] 0]⟩ [] [slash, 107] [] = some (.ok ()) ∧
      (defaultProofRuntime fun _ => List.replicate 32 0).verifyValue
        ⟨[valueProofOp (fun _ => List.replicate 32 0) [107] [] 0,
          valueProofOp (fun _ => List.replicate 32 0) [108] [] 1]⟩
        (kvHash (fun _ => List.replicate 32 0) [108] []) [slash, 108, slash, 107] [] = some (.ok ()) :=
  ⟨fun _ => rfl, verify_accepts_out_of_range_proof _ fun _ => rfl⟩

end Ostracon.Crypto.Merkle
