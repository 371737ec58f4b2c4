import Ostracon.State.Validation
import Ostracon.Privval.FilePV
/-!
# `types/light.go`: light blocks and their `ValidateBasic`

A light block is a signed header with the validator set and the voter set it
claims.  `LightBlock.ValidateBasic` checks the formats of the header and of
the commit, that the commit is for the header, and that the header's hashes
are those of the two sets.  It checks no signature, and it reads the
addresses in the commit only for their length: it never ties them to the
voter set (`LightBlock.validateBasic_setCommitSig`).

The hashes are parameters (`Hashes`): the Merkle root of the header's
fields, and the hashes of a validator set and of a voter set.  The header
keeps the fields the evidence checks read.  The version, the last block ID,
the hashes of the last commit, of the data and of the evidence, and the VRF
proof are left out: `Header.ValidateBasic` checks only their formats, and
nothing else here reads them.  The pointers are never `nil` here, so the
checks for a missing header, commit or set are left out too.
-/

namespace Ostracon.Types

open Ostracon.Crypto Ostracon.Crypto.Merkle

variable {K S : Type}

/-- `MaxChainIDLen`. -/
def maxChainIDLen : Nat := 50

/-- `MaxSignatureSize`: the largest of the ed25519 and BLS signature sizes and
`64`. -/
def maxSignatureSize : Nat := max (max 64 blsSignatureSize) 64

/-- `Header`, with the fields the checks of evidence read. -/
structure Header where
  chainID : String
  height : Int
  time : Int
  votersHash : Bytes
  validatorsHash : Bytes
  nextValidatorsHash : Bytes
  consensusHash : Bytes
  appHash : Bytes
  lastResultsHash : Bytes
  proposerAddress : Bytes
  round : Int
  deriving DecidableEq, Repr

/-- The hashes the checks compare. -/
structure Hashes (K : Type) where
  /-- `merkle.HashFromByteSlices` of the header's encoded fields. -/
  headerFields : Header → Bytes
  /-- `ValidatorSet.Hash()`. -/
  validatorSet : List (Validator K) → Bytes
  /-- `VoterSet.Hash()`. -/
  voterSet : List (Validator K) → Bytes

/-- `Header.Hash()`: `nil` for a header without a validators or a voters
hash. -/
def Header.hash (hs : Hashes K) (h : Header) : Bytes :=
  if h.validatorsHash.isEmpty || h.votersHash.isEmpty then [] else hs.headerFields h

/-! ## `Header.ValidateBasic` -/

/-- The hashes `Header.ValidateBasic` checks with `ValidateHash`. -/
inductive HashField
  | validatorsHash
  | nextValidatorsHash
  | consensusHash
  | lastResultsHash
  | votersHash
  deriving DecidableEq, Repr

/-- The errors of `Header.ValidateBasic`. -/
inductive HeaderError
  /-- "chainID is too long; got: %d, max: %d" -/
  | chainIDTooLong (got max : Nat)
  /-- "negative Height" -/
  | negativeHeight
  /-- "zero Height" -/
  | zeroHeight
  /-- "invalid ProposerAddress length; got: %d, expected: %d" -/
  | proposerAddressLength (got expected : Nat)
  /-- "wrong ValidatorsHash: expected size to be %d bytes, got %d bytes", and
  so on for each hash -/
  | wrongHash (field : HashField) (got : Nat)
  /-- "negative Round" -/
  | negativeRound
  deriving DecidableEq, Repr

/-- `ValidateHash` of the header's hash `field`, with the error that names it. -/
def Header.validateHashField (field : HashField) (h : Bytes) : Except HeaderError Unit :=
  if validateHash h then .ok () else .error (.wrongHash field h.length)

/-- `Header.ValidateBasic`. -/
def Header.validateBasic (h : Header) : Except HeaderError Unit :=
  if h.chainID.utf8ByteSize > maxChainIDLen then .error (.chainIDTooLong h.chainID.utf8ByteSize maxChainIDLen)
  else if h.height < 0 then .error .negativeHeight
  else if h.height = 0 then .error .zeroHeight
  else if h.proposerAddress.length ≠ State.addressSize then
    .error (.proposerAddressLength h.proposerAddress.length State.addressSize)
  else do
    Header.validateHashField .validatorsHash h.validatorsHash
    Header.validateHashField .nextValidatorsHash h.nextValidatorsHash
    Header.validateHashField .consensusHash h.consensusHash
    Header.validateHashField .lastResultsHash h.lastResultsHash
    Header.validateHashField .votersHash h.votersHash
    if h.round < 0 then .error .negativeRound else .ok ()

/-! ## `Commit.ValidateBasic` -/

/-- The errors of `CommitSig.ValidateBasic`. -/
inductive CommitSigError
  /-- "validator address is present" -/
  | validatorAddressPresent
  /-- "time is present" -/
  | timePresent
  /-- "signature is present" -/
  | signaturePresent
  /-- "expected ValidatorAddress size to be %d bytes, got %d bytes" -/
  | validatorAddressSize (expected got : Nat)
  /-- "signature is too big %d (max: %d)" -/
  | signatureTooBig (got max : Nat)
  deriving DecidableEq, Repr

section Primitives

variable (c : Primitives K CanonicalVote S)

/-- `CommitSig.ValidateBasic`.  An absent entry carries nothing; any other one
an address of `crypto.AddressSize` bytes and a signature that is omitted or
not too big.  The flag is one of the three by its type. -/
def CommitSig.validateBasic (cs : CommitSig S) : Except CommitSigError Unit :=
  match cs.blockIDFlag with
  | .absent =>
    if cs.validatorAddress.length ≠ 0 then .error .validatorAddressPresent
    else if cs.timestamp ≠ 0 then .error .timePresent
    else if (cs.signature.map c.sigLen).getD 0 ≠ 0 then .error .signaturePresent
    else .ok ()
  | .commit | .nil =>
    if cs.validatorAddress.length ≠ State.addressSize then
      .error (.validatorAddressSize State.addressSize cs.validatorAddress.length)
    else
      match cs.signature with
      | some sig =>
        if c.sigLen sig > maxSignatureSize then .error (.signatureTooBig (c.sigLen sig) maxSignatureSize)
        else .ok ()
      | none => .ok ()

/-- The errors of `Commit.ValidateBasic`. -/
inductive CommitBasicError
  /-- "negative Height" -/
  | negativeHeight
  /-- "negative Round" -/
  | negativeRound
  /-- "commit cannot be for nil block" -/
  | nilBlock
  /-- "no signatures in commit" -/
  | noSignatures
  /-- "wrong CommitSig #%d: %v" -/
  | wrongCommitSig (idx : Nat) (err : CommitSigError)
  /-- "%d erased signatures are present, but no aggregate signature exist in commit" -/
  | erasedWithoutAggregate (omitted : Nat)
  /-- "erased signatures are not present, but aggregated signature exist in commit: %x" -/
  | aggregateWithoutErased
  /-- "signature is too big %d (max: %d)" -/
  | aggregateTooBig (got max : Nat)
  deriving DecidableEq, Repr

/-- Whether an entry counts among the omitted signatures: not absent, with no
signature of its own. -/
def CommitSig.omitted (cs : CommitSig S) : Bool := !cs.absent && cs.signature.isNone

/-- The loop of `Commit.ValidateBasic` from index `idx` on: each entry's
`ValidateBasic`, and the number of omitted signatures. -/
def validateCommitSigs : Nat → List (CommitSig S) → Except CommitBasicError Nat
  | _, [] => .ok 0
  | idx, cs :: rest =>
    match cs.validateBasic c with
    | .error err => .error (.wrongCommitSig idx err)
    | .ok () => (fun omitted => if cs.omitted then omitted + 1 else omitted) <$> validateCommitSigs (idx + 1) rest

/-- `Commit.ValidateBasic`: a commit above height `0` is for a block, has
entries that pass their checks, and has an aggregate exactly when some
signature is omitted. -/
def Commit.validateBasic (commit : Commit S) : Except CommitBasicError Unit :=
  if commit.height < 0 then .error .negativeHeight
  else if commit.round < 0 then .error .negativeRound
  else if 1 ≤ commit.height then
    if commit.blockID.isZero then .error .nilBlock
    else if commit.signatures = [] then .error .noSignatures
    else
      match validateCommitSigs c 0 commit.signatures with
      | .error err => .error err
      | .ok omitted =>
        match commit.aggregatedSignature with
        | none => if 0 < omitted then .error (.erasedWithoutAggregate omitted) else .ok ()
        | some aggr =>
          if omitted = 0 then .error .aggregateWithoutErased
          else if c.sigLen aggr > maxSignatureSize then .error (.aggregateTooBig (c.sigLen aggr) maxSignatureSize)
          else .ok ()
  else .ok ()

end Primitives

/-! ## Signed headers and light blocks -/

/-- `SignedHeader`. -/
structure SignedHeader (S : Type) where
  header : Header
  commit : Commit S
  deriving DecidableEq, Repr

/-- The errors of `SignedHeader.ValidateBasic`. -/
inductive SignedHeaderError
  /-- "invalid header: %w" -/
  | invalidHeader (err : HeaderError)
  /-- "invalid commit: %w" -/
  | invalidCommit (err : CommitBasicError)
  /-- "header belongs to another chain %q, not %q" -/
  | otherChain (got want : String)
  /-- "header and commit height mismatch: %d vs %d" -/
  | heightMismatch (header commit : Int)
  /-- "commit signs block %X, header is block %X" -/
  | hashMismatch (commit header : Bytes)
  deriving DecidableEq, Repr

/-- `SignedHeader.ValidateBasic(chainID)`. -/
def SignedHeader.validateBasic (c : Primitives K CanonicalVote S) (hs : Hashes K) (sh : SignedHeader S)
    (chainID : String) : Except SignedHeaderError Unit :=
  match sh.header.validateBasic with
  | .error err => .error (.invalidHeader err)
  | .ok () =>
    match sh.commit.validateBasic c with
    | .error err => .error (.invalidCommit err)
    | .ok () =>
      if sh.header.chainID ≠ chainID then .error (.otherChain sh.header.chainID chainID)
      else if sh.commit.height ≠ sh.header.height then .error (.heightMismatch sh.header.height sh.commit.height)
      else if sh.header.hash hs ≠ sh.commit.blockID.hash then
        .error (.hashMismatch sh.commit.blockID.hash (sh.header.hash hs))
      else .ok ()

/-- The errors of `Validator.ValidateBasic` for a validator with a key. -/
inductive ValidatorError
  /-- "validator has negative voting power" -/
  | negativeVotingPower
  /-- "validator address is the wrong size: %v" -/
  | addressSize (address : Bytes)
  deriving DecidableEq, Repr

/-- `Validator.ValidateBasic`. -/
def Validator.validateBasic (v : Validator K) : Except ValidatorError Unit :=
  if v.votingPower < 0 then .error .negativeVotingPower
  else if v.address.length ≠ State.addressSize then .error (.addressSize v.address)
  else .ok ()

/-- The errors of the `ValidateBasic` of a validator set and of a voter set. -/
inductive SetError
  /-- "validator set is nil or empty", "voter set is nil or empty" -/
  | nilOrEmpty (set : String)
  /-- "invalid validator #%d: %w" -/
  | invalidValidator (idx : Nat) (err : ValidatorError)
  deriving DecidableEq, Repr

/-- The loop of a set's `ValidateBasic` from index `idx` on. -/
def validateValidators : Nat → List (Validator K) → Except SetError Unit
  | _, [] => .ok ()
  | idx, v :: rest =>
    match v.validateBasic with
    | .error err => .error (.invalidValidator idx err)
    | .ok () => validateValidators (idx + 1) rest

/-- The `ValidateBasic` of a set of validators named `set` in its error. -/
def validateSet (set : String) (vals : List (Validator K)) : Except SetError Unit :=
  if vals = [] then .error (.nilOrEmpty set) else validateValidators 0 vals

/-- `ValidatorSet.ValidateBasic`, of the validators of the set. -/
def ValidatorSet.validateBasic (vals : List (Validator K)) : Except SetError Unit :=
  validateSet "validator set" vals

/-- `VoterSet.ValidateBasic`. -/
def VoterSet.validateBasic (voters : VoterSet K) : Except SetError Unit :=
  validateSet "voter set" voters.voters

/-- `LightBlock`: a signed header, the validators of its validator set, and
its voter set. -/
structure LightBlock (K S : Type) where
  signedHeader : SignedHeader S
  validatorSet : List (Validator K)
  voterSet : VoterSet K
  deriving DecidableEq, Repr

/-- The errors of `LightBlock.ValidateBasic`. -/
inductive LightBlockError
  /-- "invalid signed header: %w" -/
  | invalidSignedHeader (err : SignedHeaderError)
  /-- "invalid validator set: %w" -/
  | invalidValidatorSet (err : SetError)
  /-- "invalid voter set: %w" -/
  | invalidVoterSet (err : SetError)
  /-- "expected validator hash of header to match validator set hash (%X != %X)" -/
  | validatorsHashMismatch (header set : Bytes)
  /-- "expected voter hash of header to match voter set hash (%X != %X)" -/
  | votersHashMismatch (header set : Bytes)
  deriving DecidableEq, Repr

/-- `LightBlock.ValidateBasic(chainID)`. -/
def LightBlock.validateBasic (c : Primitives K CanonicalVote S) (hs : Hashes K) (lb : LightBlock K S)
    (chainID : String) : Except LightBlockError Unit :=
  match lb.signedHeader.validateBasic c hs chainID with
  | .error err => .error (.invalidSignedHeader err)
  | .ok () =>
    match ValidatorSet.validateBasic lb.validatorSet with
    | .error err => .error (.invalidValidatorSet err)
    | .ok () =>
      match lb.voterSet.validateBasic with
      | .error err => .error (.invalidVoterSet err)
      | .ok () =>
        if lb.signedHeader.header.validatorsHash ≠ hs.validatorSet lb.validatorSet then
          .error (.validatorsHashMismatch lb.signedHeader.header.validatorsHash (hs.validatorSet lb.validatorSet))
        else if lb.signedHeader.header.votersHash ≠ hs.voterSet lb.voterSet.voters then
          .error (.votersHashMismatch lb.signedHeader.header.votersHash (hs.voterSet lb.voterSet.voters))
        else .ok ()

/-! ## What the checks read of one entry of a commit

The evidence checks below run `LightBlock.ValidateBasic`, `VerifyCommitLight`
and `VerifyCommitLightTrusting` on a commit that a peer sent.  None of them
reads an entry that is not for the block beyond its format: replacing such
an entry by another one of the same format changes none of their results. -/

/-- The light block with the entry at `j` of its commit replaced by `cs`. -/
def LightBlock.setCommitSig (lb : LightBlock K S) (j : Nat) (cs : CommitSig S) : LightBlock K S :=
  { lb with
    signedHeader :=
      { lb.signedHeader with
        commit := { lb.signedHeader.commit with signatures := lb.signedHeader.commit.signatures.set j cs } } }

section SetSig

variable {c : Primitives K CanonicalVote S}

theorem CommitSig.validateBasic_setAddress (cs : CommitSig S) {address : Bytes}
    (h : address.length = cs.validatorAddress.length) :
    CommitSig.validateBasic c { cs with validatorAddress := address } = cs.validateBasic c := by
  unfold CommitSig.validateBasic
  cases cs.blockIDFlag <;> simp only [h]

theorem validateCommitSigs_set {cs cs' : CommitSig S} (hcs : cs'.validateBasic c = cs.validateBasic c)
    (homit : cs'.omitted = cs.omitted) :
    ∀ (sigs : List (CommitSig S)) (idx j : Nat), sigs[j]? = some cs →
      validateCommitSigs c idx (sigs.set j cs') = validateCommitSigs c idx sigs
  | [], _, _, h => by simp at h
  | s :: rest, idx, 0, h => by
    obtain rfl : s = cs := by simpa using h
    simp only [List.set_cons_zero, validateCommitSigs, hcs, homit]
  | s :: rest, idx, j + 1, h => by
    simp only [List.set_cons_succ, validateCommitSigs]
    rw [validateCommitSigs_set hcs homit rest (idx + 1) j (by simpa using h)]

theorem Commit.validateBasic_set {commit : Commit S} {j : Nat} {cs cs' : CommitSig S}
    (hj : commit.signatures[j]? = some cs) (hcs : cs'.validateBasic c = cs.validateBasic c)
    (homit : cs'.omitted = cs.omitted) :
    Commit.validateBasic c { commit with signatures := commit.signatures.set j cs' } = commit.validateBasic c := by
  have hnil : (commit.signatures.set j cs' = []) ↔ commit.signatures = [] := by
    rw [← List.length_eq_zero_iff, List.length_set, List.length_eq_zero_iff]
  unfold Commit.validateBasic
  simp only [hnil, validateCommitSigs_set hcs homit _ 0 j hj]

theorem LightBlock.validateBasic_setCommitSig (hs : Hashes K) (lb : LightBlock K S) (chainID : String)
    {j : Nat} {cs cs' : CommitSig S} (hj : lb.signedHeader.commit.signatures[j]? = some cs)
    (hcs : cs'.validateBasic c = cs.validateBasic c) (homit : cs'.omitted = cs.omitted) :
    (lb.setCommitSig j cs').validateBasic c hs chainID = lb.validateBasic c hs chainID := by
  unfold LightBlock.validateBasic LightBlock.setCommitSig SignedHeader.validateBasic
  simp only [Commit.validateBasic_set hj hcs homit]

end SetSig

section SetSigVerify

variable (c : Primitives K CanonicalVote S) (voters : VoterSet K) (chainID : String)

@[simp] theorem Commit.voteSignBytes_withSignatures (commit : Commit S) (sigs : List (CommitSig S)) :
    Commit.voteSignBytes { commit with signatures := sigs } = commit.voteSignBytes := rfl

theorem verifyCommitLightLoop_withSignatures (commit : Commit S) (sigs' : List (CommitSig S)) (required : Int) :
    ∀ (sigs : List (CommitSig S)) (idx : Nat) (tallied talliedUnverified : Int) (batch : BlsBatch K),
      verifyCommitLightLoop c voters chainID { commit with signatures := sigs' } required idx sigs tallied
          talliedUnverified batch =
        verifyCommitLightLoop c voters chainID commit required idx sigs tallied talliedUnverified batch
  | [], _, _, _, _ => rfl
  | s :: rest, idx, tallied, talliedUnverified, batch => by
    simp only [verifyCommitLightLoop, Commit.voteSignBytes_withSignatures,
      verifyCommitLightLoop_withSignatures commit sigs' required rest]

theorem verifyCommitLightLoop_set (commit : Commit S) (sigs' : List (CommitSig S)) (required : Int)
    {cs cs' : CommitSig S} (hcs : cs.forBlock = false) (hcs' : cs'.forBlock = false) :
    ∀ (sigs : List (CommitSig S)) (idx j : Nat) (tallied talliedUnverified : Int) (batch : BlsBatch K),
      sigs[j]? = some cs →
      verifyCommitLightLoop c voters chainID { commit with signatures := sigs' } required idx (sigs.set j cs')
          tallied talliedUnverified batch =
        verifyCommitLightLoop c voters chainID commit required idx sigs tallied talliedUnverified batch
  | [], _, _, _, _, _, h => by simp at h
  | s :: rest, idx, 0, tallied, talliedUnverified, batch, h => by
    obtain rfl : s = cs := by simpa using h
    simp only [List.set_cons_zero, verifyCommitLightLoop, hcs, hcs', Bool.not_false, if_true,
      verifyCommitLightLoop_withSignatures]
  | s :: rest, idx, j + 1, tallied, talliedUnverified, batch, h => by
    simp only [List.set_cons_succ, verifyCommitLightLoop, Commit.voteSignBytes_withSignatures,
      verifyCommitLightLoop_set commit sigs' required hcs hcs' rest _ j _ _ _ (by simpa using h)]

theorem verifyCommitLightTrustingLoop_withSignatures (commit : Commit S) (sigs' : List (CommitSig S))
    (required : Int) :
    ∀ (sigs : List (CommitSig S)) (idx : Nat) (seenVoters : List (Nat × Nat)) (tallied talliedUnverified : Int)
      (batch : BlsBatch K),
      verifyCommitLightTrustingLoop c voters chainID { commit with signatures := sigs' } required idx sigs
          seenVoters tallied talliedUnverified batch =
        verifyCommitLightTrustingLoop c voters chainID commit required idx sigs seenVoters tallied
          talliedUnverified batch
  | [], _, _, _, _, _ => rfl
  | s :: rest, idx, seenVoters, tallied, talliedUnverified, batch => by
    simp only [verifyCommitLightTrustingLoop, Commit.voteSignBytes_withSignatures,
      verifyCommitLightTrustingLoop_withSignatures commit sigs' required rest]

theorem verifyCommitLightTrustingLoop_set (commit : Commit S) (sigs' : List (CommitSig S)) (required : Int)
    {cs cs' : CommitSig S} (hcs : cs.forBlock = false) (hcs' : cs'.forBlock = false) :
    ∀ (sigs : List (CommitSig S)) (idx j : Nat) (seenVoters : List (Nat × Nat)) (tallied talliedUnverified : Int)
      (batch : BlsBatch K),
      sigs[j]? = some cs →
      verifyCommitLightTrustingLoop c voters chainID { commit with signatures := sigs' } required idx
          (sigs.set j cs') seenVoters tallied talliedUnverified batch =
        verifyCommitLightTrustingLoop c voters chainID commit required idx sigs seenVoters tallied
          talliedUnverified batch
  | [], _, _, _, _, _, _, h => by simp at h
  | s :: rest, idx, 0, seenVoters, tallied, talliedUnverified, batch, h => by
    obtain rfl : s = cs := by simpa using h
    simp only [List.set_cons_zero, verifyCommitLightTrustingLoop, hcs, hcs', Bool.not_false, if_true,
      verifyCommitLightTrustingLoop_withSignatures]
  | s :: rest, idx, j + 1, seenVoters, tallied, talliedUnverified, batch, h => by
    simp only [List.set_cons_succ, verifyCommitLightTrustingLoop, Commit.voteSignBytes_withSignatures,
      verifyCommitLightTrustingLoop_set commit sigs' required hcs hcs' rest _ j _ _ _ _ (by simpa using h)]

variable {commit : Commit S} {j : Nat} {cs cs' : CommitSig S}

theorem verifyCommitLight_set (blockID : BlockID) (height : Int) (hj : commit.signatures[j]? = some cs)
    (hcs : cs.forBlock = false) (hcs' : cs'.forBlock = false) :
    voters.verifyCommitLight c chainID blockID height { commit with signatures := commit.signatures.set j cs' } =
      voters.verifyCommitLight c chainID blockID height commit := by
  unfold VoterSet.verifyCommitLight checkAggregatedTally
  simp only [List.length_set, verifyCommitLightLoop_set c voters chainID commit _ _ hcs hcs' _ 0 j 0 0 _ hj]

theorem verifyCommitLightTrusting_set (trustLevel : Fraction) (hj : commit.signatures[j]? = some cs)
    (hcs : cs.forBlock = false) (hcs' : cs'.forBlock = false) :
    voters.verifyCommitLightTrusting c chainID { commit with signatures := commit.signatures.set j cs' }
        trustLevel =
      voters.verifyCommitLightTrusting c chainID commit trustLevel := by
  unfold VoterSet.verifyCommitLightTrusting checkAggregatedTally
  simp only [verifyCommitLightTrustingLoop_set c voters chainID commit _ _ hcs hcs' _ 0 j [] 0 0 _ hj]

end SetSigVerify

end Ostracon.Types
