import Ostracon.Types.VoterSet
/-!
# `types/vote_set.go`: collecting the votes of one height, round and type

A `VoteSet` keeps two views of the votes it accepted:

* `votes` — the canonical vote of each voter: usually its first vote, but a
  vote for the block that reached two thirds replaces a conflicting one;
* `votesByBlock` — for each block key, the votes for that block, created by a
  voter's first vote or by a peer's claim that the block has two thirds.

`addVote` checks the vote against the set (index, address, step), skips a
vote it already has, verifies the signature, and hands the vote to
`addVerifiedVote`, which updates both views and records the first block
whose votes cross two thirds of the total weight.

The model follows the Go code with these representations:

* the set is over a fixed voter set, a parameter of the type, and the
  per-voter arrays are functions on the voter indices;
* the maps `votesByBlock` and `peerMaj23s` are functions to `Option`;
* a call that panics is `none`: `TotalVotingWeight` may panic, and two
  panics of the code guard cases that cannot happen.
-/

namespace Ostracon.Types

open Ostracon.Crypto Ostracon.Crypto.Merkle GoInt

variable {K S : Type} {voterSet : VoterSet K}

/-- `P2PID`, the peer that claims a two-thirds majority. -/
abbrev P2PID := String

/-- `blockVotes`: the votes for one block, by voter index. -/
structure BlockVotes (S : Type) (n : Nat) where
  peerMaj23 : Bool
  bitArray : Fin n → Bool
  votes : Fin n → Option (Vote S)
  sum : Int

/-- `newBlockVotes`. -/
def newBlockVotes {n : Nat} (peerMaj23 : Bool) : BlockVotes S n :=
  ⟨peerMaj23, fun _ => false, fun _ => none, 0⟩

/-- `blockVotes.addVerifiedVote`: the voter's first vote for the block counts. -/
def BlockVotes.addVerifiedVote {n : Nat} (vs : BlockVotes S n) (valIndex : Fin n) (vote : Vote S)
    (votingPower : Int) : BlockVotes S n :=
  match vs.votes valIndex with
  | none =>
      { vs with
        bitArray := Function.update vs.bitArray valIndex true
        votes := Function.update vs.votes valIndex (some vote)
        sum := add vs.sum votingPower }
  | some _ => vs

/-- `VoteSet`, over the voter set `voterSet`, without its mutex. -/
structure VoteSet (S : Type) (voterSet : VoterSet K) where
  chainID : String
  height : Int
  round : Int
  signedMsgType : SignedMsgType
  votesBitArray : Fin voterSet.size → Bool
  votes : Fin voterSet.size → Option (Vote S)
  sum : Int
  maj23 : Option BlockID
  votesByBlock : Bytes → Option (BlockVotes S voterSet.size)
  peerMaj23s : P2PID → Option BlockID

/-- `NewVoteSet`; `none` where Go panics, at height `0`. -/
def newVoteSet (chainID : String) (height round : Int) (signedMsgType : SignedMsgType)
    (voterSet : VoterSet K) : Option (VoteSet S voterSet) :=
  if height = 0 then none
  else
    some
      { chainID := chainID, height := height, round := round, signedMsgType := signedMsgType,
        votesBitArray := fun _ => false, votes := fun _ => none, sum := 0, maj23 := none,
        votesByBlock := fun _ => none, peerMaj23s := fun _ => none }

/-- The errors of `addVote` and `SetPeerMaj23`. -/
inductive VoteSetError (S : Type)
  /-- "index < 0: %w" of `ErrVoteInvalidValidatorIndex` -/
  | negativeIndex
  /-- "empty address: %w" of `ErrVoteInvalidValidatorAddress` -/
  | emptyAddress
  /-- "expected %d/%d/%d, but got %d/%d/%d: %w" of `ErrVoteUnexpectedStep` -/
  | unexpectedStep
  /-- "cannot find voter %d in voterSet of size %d: %w" of `ErrVoteInvalidValidatorIndex` -/
  | voterNotFound (valIndex : Int) (size : Nat)
  /-- "vote.ValidatorAddress (%X) does not match address (%X) for
  vote.ValidatorIndex (%d)" of `ErrVoteInvalidValidatorAddress` -/
  | addressMismatch
  /-- "existing vote: %v; new vote: %v: %w" of `ErrVoteNonDeterministicSignature` -/
  | nonDeterministicSignature (existing vote : Vote S)
  /-- "failed to verify vote with ChainID %s and PubKey %s: %w" -/
  | verifyFailed (err : VoteVerifyError)
  /-- `ErrVoteConflictingVotes` -/
  | conflictingVotes (conflicting vote : Vote S)
  /-- "setPeerMaj23: Received conflicting blockID from peer %v. Got %v, expected %v" -/
  | conflictingPeerMaj23 (peerID : P2PID) (blockID existing : BlockID)

namespace VoteSet

/-- `getVote`: the vote of the voter for the block key, in the canonical
votes or in the votes for the block. -/
def getVote (vs : VoteSet S voterSet) (valIndex : Fin voterSet.size) (blockKey : Bytes) :
    Option (Vote S) :=
  match vs.votes valIndex with
  | some existing =>
      if existing.blockID.key = blockKey then some existing
      else (vs.votesByBlock blockKey).bind (·.votes valIndex)
  | none => (vs.votesByBlock blockKey).bind (·.votes valIndex)

/-- The first part of `addVerifiedVote`: the canonical votes.  A first vote
is added and counted; a vote that conflicts with the canonical one replaces
it when it is for the two-thirds block.  `none` where Go panics on a
duplicate, which `addVote` never passes on. -/
def addCanonicalVote (vs : VoteSet S voterSet) (vote : Vote S) (valIndex : Fin voterSet.size)
    (blockKey : Bytes) (votingPower : Int) : Option (Option (Vote S) × VoteSet S voterSet) :=
  match vs.votes valIndex with
  | some existing =>
      if existing.blockID = vote.blockID then none
      else if vs.maj23.map BlockID.key = some blockKey then
        some (some existing,
          { vs with
            votes := Function.update vs.votes valIndex (some vote)
            votesBitArray := Function.update vs.votesBitArray valIndex true })
      else some (some existing, vs)
  | none =>
      some (none,
        { vs with
          votes := Function.update vs.votes valIndex (some vote)
          votesBitArray := Function.update vs.votesBitArray valIndex true
          sum := add vs.sum votingPower })

/-- The end of `addVerifiedVote`: the vote joins the votes for its block, and
the first block to cross two thirds becomes `maj23`, its votes copied into the
canonical ones. -/
def addBlockVote (vs : VoteSet S voterSet) (vote : Vote S) (valIndex : Fin voterSet.size)
    (blockKey : Bytes) (votingPower : Int) (votesByBlock : BlockVotes S voterSet.size) :
    Option (VoteSet S voterSet) :=
  match voterSet.totalVotingWeight with
  | none => none
  | some total =>
      let origSum := votesByBlock.sum
      let quorum := add (div (mul total 2) 3) 1
      let votesByBlock := votesByBlock.addVerifiedVote valIndex vote votingPower
      let vs := { vs with votesByBlock := Function.update vs.votesByBlock blockKey (some votesByBlock) }
      if origSum < quorum ∧ quorum ≤ votesByBlock.sum ∧ vs.maj23 = none then
        some
          { vs with
            maj23 := some vote.blockID
            votes := fun i =>
              match votesByBlock.votes i with
              | some v => some v
              | none => vs.votes i }
      else some vs

/-- `addVerifiedVote`: whether the vote was added, the conflicting canonical
vote if any, and the set after the call. -/
def addVerifiedVote (vs : VoteSet S voterSet) (vote : Vote S) (valIndex : Fin voterSet.size)
    (blockKey : Bytes) (votingPower : Int) :
    Option ((Bool × Option (Vote S)) × VoteSet S voterSet) :=
  match vs.addCanonicalVote vote valIndex blockKey votingPower with
  | none => none
  | some (conflicting, vs) =>
      match vs.votesByBlock blockKey with
      | some votesByBlock =>
          -- a conflict is only tracked for a block some peer claims
          if conflicting.isSome ∧ !votesByBlock.peerMaj23 then some ((false, conflicting), vs)
          else (vs.addBlockVote vote valIndex blockKey votingPower votesByBlock).map
            fun vs => ((true, conflicting), vs)
      | none =>
          if conflicting.isSome then some ((false, conflicting), vs)
          else (vs.addBlockVote vote valIndex blockKey votingPower (newBlockVotes false)).map
            fun vs => ((true, conflicting), vs)

section AddVote

variable [DecidableEq S]

/-- `voteSet.addVote(vote, execVoteVerify)`, the body of `AddVote` and
`AddAggregatedVote`: the returned `(added, err)` and the set after the call.
The lookup of the voter is `GetByIndex`. -/
def addVoteWith (vs : VoteSet S voterSet) (vote : Vote S)
    (execVoteVerify : String → PubKey K → Option (Except VoteVerifyError Unit)) :
    Option ((Bool × Option (VoteSetError S)) × VoteSet S voterSet) :=
  let valIndex := vote.validatorIndex
  let blockKey := vote.blockID.key
  if valIndex < 0 then some ((false, some .negativeIndex), vs)
  else if vote.validatorAddress = [] then some ((false, some .emptyAddress), vs)
  else if vote.height ≠ vs.height ∨ vote.round ≠ vs.round ∨ vote.type ≠ vs.signedMsgType then
    some ((false, some .unexpectedStep), vs)
  else if h : valIndex.toNat < voterSet.size then
    let i : Fin voterSet.size := ⟨valIndex.toNat, h⟩
    let voter := voterSet.voters[valIndex.toNat]
    if vote.validatorAddress ≠ voter.address then some ((false, some .addressMismatch), vs)
    else
      match vs.getVote i blockKey with
      | some existing =>
          if existing.signature = vote.signature then some ((false, none), vs)
          else some ((false, some (.nonDeterministicSignature existing vote)), vs)
      | none =>
          match execVoteVerify vs.chainID voter.pubKey with
          | none => none
          | some (.error err) => some ((false, some (.verifyFailed err)), vs)
          | some (.ok ()) =>
              match vs.addVerifiedVote vote i blockKey voter.votingWeight with
              | none => none
              | some ((added, some conflicting), vs') =>
                  some ((added, some (.conflictingVotes conflicting vote)), vs')
              | some ((added, none), vs') =>
                  -- "Expected to add non-conflicting vote"
                  if added then some ((true, none), vs') else none
  else some ((false, some (.voterNotFound valIndex voterSet.size)), vs)

/-- `AddVote`: the vote must verify for the voter's key. -/
def addVote (c : Primitives K CanonicalVote S) (vs : VoteSet S voterSet) (vote : Vote S) :
    Option ((Bool × Option (VoteSetError S)) × VoteSet S voterSet) :=
  vs.addVoteWith vote fun chainID pubKey => vote.verify c chainID pubKey

/-- `AddAggregatedVote`: a vote whose signature is in an aggregate; only the
address is checked. -/
def addAggregatedVote (c : Primitives K CanonicalVote S) (vs : VoteSet S voterSet)
    (vote : Vote S) : Option ((Bool × Option (VoteSetError S)) × VoteSet S voterSet) :=
  vs.addVoteWith vote fun _ pubKey =>
    some (if c.address pubKey ≠ vote.validatorAddress then .error .invalidValidatorAddress else .ok ())

end AddVote

/-- `SetPeerMaj23`: a peer's claim is recorded once, and its block's votes
are tracked from then on. -/
def setPeerMaj23 (vs : VoteSet S voterSet) (peerID : P2PID) (blockID : BlockID) :
    Option (VoteSetError S) × VoteSet S voterSet :=
  let blockKey := blockID.key
  match vs.peerMaj23s peerID with
  | some existing =>
      if existing = blockID then (none, vs)
      else (some (.conflictingPeerMaj23 peerID blockID existing), vs)
  | none =>
      let vs := { vs with peerMaj23s := Function.update vs.peerMaj23s peerID (some blockID) }
      match vs.votesByBlock blockKey with
      | some votesByBlock =>
          if votesByBlock.peerMaj23 then (none, vs)
          else
            (none, { vs with
              votesByBlock := Function.update vs.votesByBlock blockKey
                (some { votesByBlock with peerMaj23 := true }) })
      | none =>
          (none, { vs with
            votesByBlock := Function.update vs.votesByBlock blockKey (some (newBlockVotes true)) })

/-- `TwoThirdsMajority`. -/
def twoThirdsMajority (vs : VoteSet S voterSet) : Option BlockID := vs.maj23

/-- The entry of `MakeCommit` for one voter: its precommit's `CommitSig`,
absent when it is for another block.  `none` where Go panics: on a block ID
neither complete nor zero, and on a present vote without signature. -/
def makeCommitSig (maj23 : BlockID) (v : Option (Vote S)) : Option (CommitSig S) := do
  let commitSig ← Vote.commitSig v
  if !commitSig.absent && commitSig.signature.isNone then none
  else if commitSig.forBlock && v.map (·.blockID) ≠ some maj23 then some CommitSig.absentSig
  else some commitSig

/-- `MakeCommit`; `none` where Go panics: the set is not of precommits, has
no two-thirds block, or one of its entries or the aggregation panics. -/
def makeCommit (c : Primitives K CanonicalVote S) (vs : VoteSet S voterSet) : Option (Commit S) :=
  if vs.signedMsgType ≠ .precommit then none
  else
    match vs.maj23 with
    | none => none
    | some maj23 => do
        let commitSigs ← (List.ofFn vs.votes).mapM (makeCommitSig maj23)
        let commit : Commit S :=
          { height := vs.height, round := vs.round, blockID := maj23, signatures := commitSigs,
            aggregatedSignature := none }
        match commit.aggregateSignatures c with
        | .ok commit => some commit
        | .error _ => none

end VoteSet

end Ostracon.Types
