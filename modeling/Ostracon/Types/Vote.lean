import Ostracon.Types.PartSet
import Ostracon.Crypto.Keys
/-!
# Votes, commit signatures and commits

The data of `types/vote.go`, `types/block.go` and `types/canonical.go` that
vote collection and commit verification read.

* A signature is a value of the abstract type `S`; a `nil` signature is
  `none`.  Timestamps are integers: only their equality matters here.
* The bytes a validator signs are `VoteSignBytes`, the length-delimited
  protobuf encoding of the canonical vote.  The encoding is injective, so the
  model signs the canonical vote itself (`CanonicalVote`).  It holds neither
  the validator's index nor its address.
* `BlockIDFlag` has the three values `CommitSig.ValidateBasic` accepts; the
  panic of `CommitSig.BlockID` on any other byte is left out.
-/

namespace Ostracon.Types

open Ostracon.Crypto Ostracon.Crypto.Merkle

/-- `tmhash.Size`. -/
def tmhashSize : Nat := 32

/-- `BlockID`. -/
structure BlockID where
  hash : Bytes
  partSetHeader : PartSetHeader
  deriving DecidableEq, Repr

/-- `PartSetHeader.IsZero`. -/
def PartSetHeader.isZero (psh : PartSetHeader) : Bool := psh.total == 0 && psh.hash.isEmpty

/-- `BlockID.IsZero`: the block ID of a nil vote. -/
def BlockID.isZero (blockID : BlockID) : Bool :=
  blockID.hash.isEmpty && blockID.partSetHeader.isZero

/-- `BlockID.IsComplete`. -/
def BlockID.isComplete (blockID : BlockID) : Bool :=
  blockID.hash.length == tmhashSize && blockID.partSetHeader.total > 0 &&
    blockID.partSetHeader.hash.length == tmhashSize

/-- The protobuf varint encoding. -/
def varint (n : Nat) : Bytes :=
  if n < 128 then [n.toUInt8] else (n % 128 + 128).toUInt8 :: varint (n / 128)
termination_by n
decreasing_by omega

/-- `PartSetHeader.ToProto().Marshal()`: field 1 (`total`) and field 2
(`hash`), each left out at its zero value. -/
def PartSetHeader.marshal (psh : PartSetHeader) : Bytes :=
  (if psh.total = 0 then [] else 0x08 :: varint psh.total.toNat) ++
    (if psh.hash = [] then [] else 0x12 :: (varint psh.hash.length ++ psh.hash))

/-- `BlockID.Key`: the hash followed by the marshalled part-set header. -/
def BlockID.key (blockID : BlockID) : Bytes := blockID.hash ++ blockID.partSetHeader.marshal

/-- `tmproto.SignedMsgType`. -/
inductive SignedMsgType
  | unknown
  | prevote
  | precommit
  | proposal
  deriving DecidableEq, Repr

/-- `CanonicalBlockID`. -/
structure CanonicalBlockID where
  hash : Bytes
  partSetHeader : PartSetHeader
  deriving DecidableEq, Repr

/-- `CanonicalVote`: what a vote signature covers. -/
structure CanonicalVote where
  type : SignedMsgType
  height : Int
  round : Int
  blockID : Option CanonicalBlockID
  timestamp : Int
  chainID : String
  deriving DecidableEq, Repr

/-- `ValidateHash`: a hash is empty or of `tmhash.Size` bytes. -/
def validateHash (h : Bytes) : Bool := h.isEmpty || h.length == tmhashSize

/-- `BlockID.ValidateBasic`, through `PartSetHeader.ValidateBasic`, as
`BlockIDFromProto` calls it. -/
def BlockID.validateBasic (blockID : BlockID) : Bool :=
  validateHash blockID.hash && validateHash blockID.partSetHeader.hash

/-- What `CanonicalizeBlockID` returns for a block ID `BlockIDFromProto`
takes: `nil` for the zero block ID. -/
def canonicalBlockID (blockID : BlockID) : Option CanonicalBlockID :=
  if blockID.isZero then none else some ⟨blockID.hash, blockID.partSetHeader⟩

/-- `CanonicalizeBlockID`; `none` where it panics, on a block ID that
`BlockIDFromProto` refuses. -/
def canonicalizeBlockID (blockID : BlockID) : Option (Option CanonicalBlockID) :=
  if blockID.validateBasic then some (canonicalBlockID blockID) else none

variable {S : Type}

/-- `Vote`. -/
structure Vote (S : Type) where
  type : SignedMsgType
  height : Int
  round : Int
  blockID : BlockID
  timestamp : Int
  validatorAddress : Bytes
  validatorIndex : Int
  signature : Option S
  deriving DecidableEq, Repr

/-- `CanonicalizeVote` of a vote whose block ID `CanonicalizeBlockID` takes;
`VoteSignBytes` is its encoding. -/
def Vote.signBytes (chainID : String) (vote : Vote S) : CanonicalVote where
  type := vote.type
  height := vote.height
  round := vote.round
  blockID := canonicalBlockID vote.blockID
  timestamp := vote.timestamp
  chainID := chainID

/-- The errors of `Vote.Verify`. -/
inductive VoteVerifyError
  /-- `ErrVoteInvalidValidatorAddress` -/
  | invalidValidatorAddress
  /-- `ErrVoteInvalidSignature` -/
  | invalidSignature
  deriving DecidableEq, Repr

/-- `Vote.Verify`; `none` where it panics: past the address, `VoteSignBytes`
canonicalizes the block ID.  Every `VerifySignature` checks the signature
size first, so a `nil` signature never verifies. -/
def Vote.verify {K : Type} (c : Primitives K CanonicalVote S) (chainID : String)
    (pubKey : PubKey K) (vote : Vote S) : Option (Except VoteVerifyError Unit) :=
  if c.address pubKey ≠ vote.validatorAddress then some (.error .invalidValidatorAddress)
  else
    (canonicalizeBlockID vote.blockID).map fun _ =>
      match vote.signature with
      | none => .error .invalidSignature
      | some sig =>
          if pubKey.verifySignature c (vote.signBytes chainID) sig then .ok ()
          else .error .invalidSignature

/-- `BlockIDFlag`. -/
inductive BlockIDFlag
  | absent
  | commit
  | nil
  deriving DecidableEq, Repr

/-- `CommitSig`. -/
structure CommitSig (S : Type) where
  blockIDFlag : BlockIDFlag
  validatorAddress : Bytes
  timestamp : Int
  signature : Option S
  deriving DecidableEq, Repr

/-- `NewCommitSigAbsent`. -/
def CommitSig.absentSig : CommitSig S := ⟨.absent, [], 0, none⟩

/-- `CommitSig.ForBlock`. -/
def CommitSig.forBlock (cs : CommitSig S) : Bool := cs.blockIDFlag == .commit

/-- `CommitSig.Absent`. -/
def CommitSig.absent (cs : CommitSig S) : Bool := cs.blockIDFlag == .absent

/-- `CommitSig.BlockID`: the commit's block ID for a vote for the block,
the zero block ID otherwise. -/
def CommitSig.blockID (cs : CommitSig S) (commitBlockID : BlockID) : BlockID :=
  match cs.blockIDFlag with
  | .commit => commitBlockID
  | .absent | .nil => ⟨[], ⟨0, []⟩⟩

/-- `Vote.CommitSig`; `none` where Go panics, on a block ID that is neither
complete nor zero. -/
def Vote.commitSig : Option (Vote S) → Option (CommitSig S)
  | none => some CommitSig.absentSig
  | some vote =>
      if vote.blockID.isComplete then
        some ⟨.commit, vote.validatorAddress, vote.timestamp, vote.signature⟩
      else if vote.blockID.isZero then
        some ⟨.nil, vote.validatorAddress, vote.timestamp, vote.signature⟩
      else none

/-- `Commit`, without its memoised hash and bit array. -/
structure Commit (S : Type) where
  height : Int
  round : Int
  blockID : BlockID
  signatures : List (CommitSig S)
  aggregatedSignature : Option S
  deriving DecidableEq, Repr

/-- `Commit.GetVote` for the signature `cs` at index `valIdx`. -/
def Commit.getVote (commit : Commit S) (valIdx : Nat) (cs : CommitSig S) : Vote S where
  type := .precommit
  height := commit.height
  round := commit.round
  blockID := cs.blockID commit.blockID
  timestamp := cs.timestamp
  validatorAddress := cs.validatorAddress
  validatorIndex := valIdx
  signature := cs.signature

/-- `Commit.VoteSignBytes(chainID, valIdx)`, where `cs` is
`commit.Signatures[valIdx]`: the loops that call it range over the
signatures and pass their own index. -/
def Commit.voteSignBytes (commit : Commit S) (chainID : String) (valIdx : Nat)
    (cs : CommitSig S) : CanonicalVote :=
  (commit.getVote valIdx cs).signBytes chainID

/-- The errors of `Commit.AggregateSignatures`, which panics on them. -/
inductive AggregateError
  /-- "The commit is already aggregated" -/
  | alreadyAggregated
  /-- "fail to aggregate signature: %s" -/
  | addSignature (err : BlsError)
  deriving DecidableEq, Repr

section Aggregate

variable {K : Type} (c : Primitives K CanonicalVote S)

/-- One iteration of `Commit.AggregateSignatures`: a present signature of
BLS size joins the aggregate and is cleared. -/
def aggregateOne (aggr : Option S) (cs : CommitSig S) :
    Except AggregateError (Option S × CommitSig S) :=
  match cs.signature with
  | some sig =>
      if !cs.absent && c.sigLen sig == blsSignatureSize then
        match aggr with
        | none => .ok (some sig, { cs with signature := none })
        | some a => do
            let a' ← (addSignature c a sig).mapError .addSignature
            pure (some a', { cs with signature := none })
      else .ok (aggr, cs)
  | none => .ok (aggr, cs)

/-- The loop of `Commit.AggregateSignatures`, from the aggregate so far. -/
def aggregateLoop : Option S → List (CommitSig S) →
    Except AggregateError (Option S × List (CommitSig S))
  | aggr, [] => .ok (aggr, [])
  | aggr, cs :: rest => do
      let (aggr, cs) ← aggregateOne c aggr cs
      let (aggr, rest) ← aggregateLoop aggr rest
      pure (aggr, cs :: rest)

/-- `Commit.AggregateSignatures`. -/
def Commit.aggregateSignatures (commit : Commit S) : Except AggregateError (Commit S) :=
  match commit.aggregatedSignature with
  | some _ => .error .alreadyAggregated
  | none => do
      let (aggr, sigs) ← aggregateLoop c none commit.signatures
      pure { commit with signatures := sigs, aggregatedSignature := aggr }

end Aggregate

end Ostracon.Types
